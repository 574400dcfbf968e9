import TinyComputer.Assembly.Literal
import TinyComputer.Proofs.LittleEndian

/-!
# Numerals read back

A number that is written with a fixed count of hexadecimal digits is read back from them as long as
they can hold it. So a value is read back from the literal that has two digits for each byte of its
width.
-/

namespace TinyComputer

namespace Text

/-- What holds of every hexadecimal digit holds of every character of a numeral. -/
theorem forall_mem_hexFixed {p : Char → Prop} (h : ∀ digit < 16, p (hexDigit digit))
    (count n : Nat) : ∀ c ∈ hexFixed count n, p c := by
  induction count generalizing n with
  | zero => simp [hexFixed]
  | succ count ih =>
      intro c hc
      rw [hexFixed, List.mem_append, List.mem_singleton] at hc
      rcases hc with hc | rfl
      · exact ih (n / 16) c hc
      · exact h (n % 16) (Nat.mod_lt n (by decide))

/-- The last digit counts once, the others as many times as the base says. -/
theorem ofDigits_append_singleton (base : Nat) (digits : List Nat) (digit : Nat) :
    ofDigits base (digits ++ [digit]) = base * ofDigits base digits + digit := by
  simp [ofDigits]

theorem exists_mapM_hexDigit?_hexFixed (count n : Nat) :
    ∃ digits, (hexFixed count n).mapM hexDigit? = some digits ∧
      ofDigits 16 digits = n % 16 ^ count := by
  induction count generalizing n with
  | zero => exact ⟨[], rfl, (Nat.mod_one n).symm⟩
  | succ count ih =>
      obtain ⟨digits, hdigits, hvalue⟩ := ih (n / 16)
      have hlast := hexDigit?_hexDigit (n % 16) (Nat.mod_lt n (by decide))
      refine ⟨digits ++ [n % 16], ?_, ?_⟩
      · rw [hexFixed, List.mapM_append, hdigits]
        simp [hlast]
      · rw [ofDigits_append_singleton, hvalue, Nat.pow_succ', Nat.mod_mul, Nat.add_comm]

/-- Digits that can hold a number are read as this number. -/
theorem readNumeral?_hexFixed {count n : Nat} (hcount : 0 < count) (hn : n < 16 ^ count) :
    readNumeral? 16 hexDigit? (hexFixed count n) = some n := by
  obtain ⟨digits, hdigits, hvalue⟩ := exists_mapM_hexDigit?_hexFixed count n
  have hne : (hexFixed count n).isEmpty = false := by
    rw [List.isEmpty_eq_false_iff, ← List.length_pos_iff, length_hexFixed]
    exact hcount
  rw [readNumeral?, hne, hdigits, if_neg (by decide), Option.map_some, hvalue, Nat.mod_eq_of_lt hn]

end Text

namespace Literal

theorem parse_hexFixed {count : Nat} {value : Word} (hcount : 0 < count)
    (hvalue : value.toNat < 16 ^ count) :
    parse ('0' :: 'x' :: Text.hexFixed count value.toNat) = .ok value := by
  have hread : value? ('0' :: 'x' :: Text.hexFixed count value.toNat) = some value.toNat :=
    Text.readNumeral?_hexFixed hcount hvalue
  simp only [parse, hread]
  rw [if_pos value.toNat_lt, UInt32.ofNat_toNat]

end Literal

namespace Width

/-- The digits of a width can hold the values that fit it. -/
theorem toNat_lt_of_fits {width : Width} {value : Word} (h : width.fits value = true) :
    value.toNat < 16 ^ (2 * width.bytes) := by
  rw [Nat.pow_mul]
  exact fits_iff.mp h

end Width

end TinyComputer
