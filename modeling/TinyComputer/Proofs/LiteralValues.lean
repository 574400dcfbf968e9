import Mathlib.Data.List.Induction
import Mathlib.Data.Nat.Digits.Defs
import TinyComputer.Proofs.OperandGrammar

/-!
# The values of literals

A numeral in a base stands for the number that its digits have in positional notation, and a letter is
the same digit in either case. A literal is read exactly when it is such a numeral, hexadecimal after a
mark or decimal, whose number is a word, and it is read as this number, however many digits it has.
Every other text is an invalid literal. The usual ways to write a word are read back.
-/

namespace TinyComputer

namespace Text

/-! ## Digits -/

/-- The digits of the bases up to sixteen, each at the place that it stands for. -/
def digitChars : List Char :=
  "0123456789abcdef".toList

/-- What a character stands for as a digit of a base. -/
def digitOf? (base : Nat) (c : Char) : Option Nat :=
  (digitChars.take base).idxOf? c.toLower

theorem toLower_of_not_ascii {c : Char} (h : 128 ≤ c.toNat) : c.toLower = c := by
  unfold Char.toLower
  refine dif_neg fun hupper => ?_
  have hle : c.toNat ≤ 'Z'.toNat := UInt32.le_iff_toNat_le.mp hupper.2
  exact absurd (Nat.le_trans h hle) (by decide)

theorem digitOf?_of_not_ascii (base : Nat) {c : Char} (h : 128 ≤ c.toNat) :
    digitOf? base c = none := by
  have hascii : digitChars.all (fun digit => decide (digit.toNat < 128)) = true := by decide
  rw [digitOf?, List.idxOf?_eq_none_iff, toLower_of_not_ascii h]
  intro hmem
  have hlt := of_decide_eq_true (List.all_eq_true.mp hascii c (List.mem_of_mem_take hmem))
  exact absurd hlt (Nat.not_lt.mpr h)

/-- Two ways to read digits agree if they do on the characters of ASCII and read no others. -/
theorem digits_eq_of_ascii {first second : Char → Option Nat}
    (hascii : ∀ n < 128, first (Char.ofNat n) = second (Char.ofNat n))
    (hfirst : ∀ c, 128 ≤ c.toNat → first c = none)
    (hsecond : ∀ c, 128 ≤ c.toNat → second c = none) : first = second := by
  funext c
  by_cases hc : c.toNat < 128
  · rw [← Char.ofNat_toNat c]
    exact hascii c.toNat hc
  · rw [hfirst c (Nat.not_lt.mp hc), hsecond c (Nat.not_lt.mp hc)]

theorem not_le_of_not_ascii {c bound : Char} (h : 128 ≤ c.toNat) (hbound : bound.toNat < 128) :
    ¬ c ≤ bound := by
  intro hle
  have hnat : c.toNat ≤ bound.toNat := UInt32.le_iff_toNat_le.mp hle
  omega

theorem decimalDigit?_eq_digitOf? : decimalDigit? = digitOf? 10 := by
  apply digits_eq_of_ascii
  · decide
  · intro c hc
    exact if_neg fun hrange => not_le_of_not_ascii hc (by decide) hrange.2
  · exact fun c => digitOf?_of_not_ascii 10

theorem hexDigit?_eq_digitOf? : hexDigit? = digitOf? 16 := by
  apply digits_eq_of_ascii
  · decide
  · intro c hc
    have hout : ∀ {low high : Char}, high.toNat < 128 → ¬ (low ≤ c ∧ c ≤ high) :=
      fun hhigh hrange => not_le_of_not_ascii hc hhigh hrange.2
    rw [hexDigit?, if_neg (hout (by decide)), if_neg (hout (by decide)), if_neg (hout (by decide))]
  · exact fun c => digitOf?_of_not_ascii 16

/-! ## Positional notation -/

/-- A text is a number in positional notation: one or more digits of a base, the most significant of
them first. -/
structure Positional (base : Nat) (text : List Char) (value : Nat) : Prop where
  ne_nil : text ≠ []
  exists_digits : ∃ digits, List.Forall₂ (fun c digit => digitOf? base c = some digit) text digits ∧
    Nat.ofDigits base digits.reverse = value

theorem ofDigits_eq (base : Nat) (digits : List Nat) :
    ofDigits base digits = Nat.ofDigits base digits.reverse := by
  induction digits using List.reverseRecOn with
  | nil => rfl
  | append_singleton digits last ih =>
      rw [ofDigits_append_singleton, ih, List.reverse_concat, Nat.ofDigits_cons, Nat.add_comm]

theorem numeral_iff_positional {base : Nat} {text : List Char} {value : Nat} :
    Numeral base (digitOf? base) text value ↔ Positional base text value := by
  constructor
  · rintro ⟨hne, digits, hdigits, hvalue⟩
    exact ⟨hne, digits, hdigits, ofDigits_eq base digits ▸ hvalue⟩
  · rintro ⟨hne, digits, hdigits, hvalue⟩
    exact ⟨hne, digits, hdigits, (ofDigits_eq base digits).trans hvalue⟩

/-! ## Decimal digits of a number -/

theorem decimalDigit?_digitChar : ∀ digit < 10, decimalDigit? digit.digitChar = some digit := by
  decide

theorem mapM_decimalDigit?_toDigits (n : Nat) :
    ∃ digits, (Nat.toDigits 10 n).mapM decimalDigit? = some digits ∧ ofDigits 10 digits = n := by
  induction n using Nat.strongRecOn with
  | ind n ih =>
      rw [Nat.toDigits_eq_if (by decide)]
      split
      next hlt => exact ⟨[n], by simp [decimalDigit?_digitChar n hlt], by simp [ofDigits]⟩
      next hge =>
        obtain ⟨digits, hdigits, hvalue⟩ := ih (n / 10) (by omega)
        have hlast := decimalDigit?_digitChar (n % 10) (Nat.mod_lt n (by decide))
        refine ⟨digits ++ [n % 10], ?_, ?_⟩
        · rw [List.mapM_append, hdigits]
          simp [hlast]
        · rw [ofDigits_append_singleton, hvalue, Nat.div_add_mod]

/-- The decimal digits of a number are read as this number. -/
theorem readNumeral?_toDigits (n : Nat) :
    readNumeral? 10 decimalDigit? (Nat.toDigits 10 n) = some n := by
  obtain ⟨digits, hdigits, hvalue⟩ := mapM_decimalDigit?_toDigits n
  have hne : (Nat.toDigits 10 n).isEmpty = false :=
    List.isEmpty_eq_false_iff.mpr Nat.toDigits_ne_nil
  rw [readNumeral?, hne, if_neg Bool.false_ne_true, hdigits, Option.map_some, hvalue]

end Text

open Text

namespace Literal

/-- How a number is spelled as a literal, whatever its size: in hexadecimal digits after `0x` or `0X`,
or in decimal digits. -/
inductive Spells : List Char → Nat → Prop
  | hexadecimal {mark : Char} {digits : List Char} {value : Nat} : mark = 'x' ∨ mark = 'X' →
      Positional 16 digits value → Spells ('0' :: mark :: digits) value
  | decimal {digits : List Char} {value : Nat} : Positional 10 digits value → Spells digits value

variable {text : List Char} {value : Nat} {word : Word} {error : AssemblyError}

theorem denotes_iff_spells : Denotes text value ↔ Spells text value := by
  constructor
  · rintro (⟨hmark, hdigits⟩ | hdigits)
    · rw [hexDigit?_eq_digitOf?, numeral_iff_positional] at hdigits
      exact .hexadecimal hmark hdigits
    · rw [decimalDigit?_eq_digitOf?, numeral_iff_positional] at hdigits
      exact .decimal hdigits
  · rintro (⟨hmark, hdigits⟩ | hdigits)
    · rw [← numeral_iff_positional, ← hexDigit?_eq_digitOf?] at hdigits
      exact .hexadecimal hmark hdigits
    · rw [← numeral_iff_positional, ← decimalDigit?_eq_digitOf?] at hdigits
      exact .decimal hdigits

/-- A text spells at most one number. -/
theorem Spells.unique {other : Nat} (h : Spells text value) (hother : Spells text other) :
    value = other := by
  rw [← denotes_iff_spells, ← value?_eq_some_iff] at h hother
  exact Option.some.inj (h.symm.trans hother)

theorem parse_eq_ok_iff_spells : parse text = .ok word ↔ Spells text word.toNat :=
  parse_eq_ok_iff.trans denotes_iff_spells

/-- A text that spells no word is invalid, and it is the text that is blamed. -/
theorem parse_eq_error_iff :
    parse text = .error error ↔
      error = .invalidLiteral text ∧ ∀ value < wordBound, ¬ Spells text value := by
  constructor
  · intro h
    refine ⟨parse_eq_error h, ?_⟩
    intro value hvalue hspells
    have hword : (UInt32.ofNat value).toNat = value := UInt32.toNat_ofNat_of_lt hvalue
    rw [← hword, ← parse_eq_ok_iff_spells, h] at hspells
    contradiction
  · rintro ⟨rfl, hnone⟩
    cases hparse : parse text with
    | error cause => rw [parse_eq_error hparse]
    | ok word => exact absurd (parse_eq_ok_iff_spells.mp hparse) (hnone _ word.toNat_lt)

theorem parse_of_spells_too_large (h : Spells text value) (hvalue : wordBound ≤ value) :
    parse text = .error (.invalidLiteral text) := by
  refine parse_eq_error_iff.mpr ⟨rfl, ?_⟩
  intro small hsmall hspells
  rw [h.unique hspells] at hvalue
  exact Nat.not_lt.mpr hvalue hsmall

theorem parse_toDigits (word : Word) : parse (Nat.toDigits 10 word.toNat) = .ok word := by
  rw [parse_eq_ok_iff]
  exact .decimal (readNumeral?_eq_some_iff.mp (readNumeral?_toDigits word.toNat))

/-- A text is read as a word exactly when it spells the number of the word, and is an invalid literal
exactly when it spells no number below the bound of words; in particular when the number that it spells
is larger, be it by one or by many digits. A word is read back from its decimal digits, and from any
count of hexadecimal digits that can hold it. -/
theorem parse_reads_exact_value :
    (∀ text (word : Word), parse text = .ok word ↔ Spells text word.toNat) ∧
    (∀ text error, parse text = .error error ↔
      error = .invalidLiteral text ∧ ∀ value < wordBound, ¬ Spells text value) ∧
    (∀ text value, Spells text value → wordBound ≤ value →
      parse text = .error (.invalidLiteral text)) ∧
    (∀ word : Word, parse (Nat.toDigits 10 word.toNat) = .ok word) ∧
    ∀ (word : Word) (count : Nat), 0 < count → word.toNat < 16 ^ count →
      parse ('0' :: 'x' :: hexFixed count word.toNat) = .ok word :=
  ⟨fun _ _ => parse_eq_ok_iff_spells, fun _ _ => parse_eq_error_iff,
    fun _ _ => parse_of_spells_too_large, parse_toDigits, fun _ _ => parse_hexFixed⟩

/-- Leading zeros and the case of letters do not matter, and the first numbers that are too large for 32
and for 64 bits are invalid. -/
theorem parse_reads_exact_value_at_the_bounds :
    let padded := "0X00000000000000000000fFfFfFfF".toList
    let large := "4294967296".toList
    let larger := "0x10000000000000000".toList
    Spells padded 0xFFFFFFFF ∧ parse padded = .ok 0xFFFFFFFF ∧
      (Spells large wordBound ∧ parse large = .error (.invalidLiteral large)) ∧
      (Spells larger 0x10000000000000000 ∧ parse larger = .error (.invalidLiteral larger)) ∧
      parse "0xFF".toList = .ok 0xFF := by
  intro padded large larger
  obtain ⟨hok, _, hlarge, _, hhex⟩ := parse_reads_exact_value
  have hpadded : Spells padded 0xFFFFFFFF := (hok padded 0xFFFFFFFF).mp (by decide +kernel)
  have hspells : Spells large wordBound :=
    .decimal ⟨by decide, [4, 2, 9, 4, 9, 6, 7, 2, 9, 6], by decide +kernel, by decide⟩
  have hspells' : Spells larger 0x10000000000000000 :=
    .hexadecimal (.inl rfl) ⟨by decide, 1 :: List.replicate 16 0, by decide +kernel, by decide⟩
  exact ⟨hpadded, (hok padded 0xFFFFFFFF).mpr hpadded, ⟨hspells, hlarge large _ hspells (by decide)⟩,
    ⟨hspells', hlarge larger _ hspells' (by decide)⟩, hhex 0xFF 2 (by decide) (by decide)⟩

end Literal

end TinyComputer
