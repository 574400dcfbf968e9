import TinyComputer.Proofs.LineGrammar
import TinyComputer.Proofs.LiteralValues
import TinyComputer.Proofs.Outcomes

/-!
# Upper and lower case

A line of assembly text is read without regard to the case of its letters. Lowering all of them changes
nothing about where tokens start and end, what names and digits stand for, or which brackets and blanks
there are. So the instruction is the same, and an error is the same up to the case of the text that it
blames.
-/

namespace TinyComputer

namespace Text

/-- A text with its letters in lower case. -/
def lower (text : List Char) : List Char :=
  text.map Char.toLower

theorem lower_cons (c : Char) (rest : List Char) : lower (c :: rest) = c.toLower :: lower rest := rfl

/-! ## Characters -/

/-- What does not tell the characters of ASCII from their lower case tells no character from it. -/
theorem apply_toLower {α : Type} {f : Char → α}
    (hascii : ∀ n < 128, f (Char.ofNat n).toLower = f (Char.ofNat n)) (c : Char) :
    f c.toLower = f c := by
  by_cases hc : c.toNat < 128
  · rw [← Char.ofNat_toNat c]
    exact hascii c.toNat hc
  · rw [toLower_of_not_ascii (Nat.not_lt.mp hc)]

@[simp] theorem toLower_toLower (c : Char) : c.toLower.toLower = c.toLower :=
  apply_toLower (by decide) c

@[simp] theorem toUpper_toLower (c : Char) : c.toLower.toUpper = c.toUpper :=
  apply_toLower (by decide) c

@[simp] theorem isDigit_toLower (c : Char) : c.toLower.isDigit = c.isDigit :=
  apply_toLower (by decide) c

@[simp] theorem isAlpha_toLower (c : Char) : c.toLower.isAlpha = c.isAlpha :=
  apply_toLower (by decide) c

@[simp] theorem isAlphanum_toLower (c : Char) : c.toLower.isAlphanum = c.isAlphanum :=
  apply_toLower (by decide) c

@[simp] theorem isBlank_toLower (c : Char) : isBlank c.toLower = isBlank c :=
  apply_toLower (by decide) c

@[simp] theorem isGap_toLower (c : Char) : Line.isGap c.toLower = Line.isGap c :=
  apply_toLower (by decide) c

@[simp] theorem isMnemonicChar_toLower (c : Char) :
    Line.isMnemonicChar c.toLower = Line.isMnemonicChar c :=
  apply_toLower (by decide) c

@[simp] theorem isOperandChar_toLower (c : Char) :
    Line.isOperandChar c.toLower = Line.isOperandChar c :=
  apply_toLower (by decide) c

@[simp] theorem isBracket_toLower (c : Char) : Atom.isBracket c.toLower = Atom.isBracket c :=
  apply_toLower (by decide) c

@[simp] theorem digitOf?_toLower (base : Nat) (c : Char) :
    digitOf? base c.toLower = digitOf? base c := by
  rw [digitOf?, digitOf?, toLower_toLower]

/-- Characters other than letters are their own lower case, and the lower case of nothing else. -/
theorem toLower_eq_iff {c mark : Char} (hmark : mark.toNat < 128) (hother : mark.isAlpha = false) :
    c.toLower = mark ↔ c = mark := by
  have hkeeps : ∀ n < 128, (Char.ofNat n).isAlpha = false →
      (Char.ofNat n).toLower = Char.ofNat n := by decide
  constructor
  · intro h
    have halpha : c.isAlpha = false := by rw [← isAlpha_toLower, h, hother]
    by_cases hc : c.toNat < 128
    · rw [← h, ← Char.ofNat_toNat c, hkeeps c.toNat hc (by rwa [Char.ofNat_toNat])]
    · rw [← h, toLower_of_not_ascii (Nat.not_lt.mp hc)]
  · rintro rfl
    have hsame := hkeeps c.toNat hmark (by rwa [Char.ofNat_toNat])
    rwa [Char.ofNat_toNat] at hsame

/-- The letter that marks hexadecimal numerals has two spellings. -/
theorem toLower_eq_mark_iff {c : Char} : c.toLower = 'x' ↔ c = 'x' ∨ c = 'X' := by
  by_cases hc : c.toNat < 128
  · have hascii : ∀ n < 128, (Char.ofNat n).toLower = 'x' ↔
        Char.ofNat n = 'x' ∨ Char.ofNat n = 'X' := by decide
    rw [← Char.ofNat_toNat c]
    exact hascii c.toNat hc
  · rw [toLower_of_not_ascii (Nat.not_lt.mp hc)]
    refine ⟨.inl, ?_⟩
    rintro (rfl | rfl)
    · rfl
    · exact absurd (by decide) hc

/-! ## Texts -/

section Predicate

variable {p : Char → Bool} (hp : ∀ c, p c.toLower = p c) (text : List Char)
include hp

theorem takeWhile_lower : (lower text).takeWhile p = lower (text.takeWhile p) := by
  have hcomp : p ∘ Char.toLower = p := funext hp
  rw [lower, List.takeWhile_map, hcomp]
  rfl

theorem dropWhile_lower : (lower text).dropWhile p = lower (text.dropWhile p) := by
  have hcomp : p ∘ Char.toLower = p := funext hp
  rw [lower, List.dropWhile_map, hcomp]
  rfl

theorem any_lower : (lower text).any p = text.any p := by
  have hcomp : p ∘ Char.toLower = p := funext hp
  rw [lower, List.any_map, hcomp]

theorem all_lower : (lower text).all p = text.all p := by
  have hcomp : p ∘ Char.toLower = p := funext hp
  rw [lower, List.all_map, hcomp]

end Predicate

theorem trim_lower (text : List Char) : trim (lower text) = lower (trim text) := by
  have hreverse : ∀ text, (lower text).reverse = lower text.reverse := fun _ => List.map_reverse.symm
  rw [trim, trim, trimEnd, trimEnd, dropWhile_lower isBlank_toLower, hreverse,
    dropWhile_lower isBlank_toLower, hreverse]

theorem positional_lower {base value : Nat} {text : List Char} :
    Positional base (lower text) value ↔ Positional base text value := by
  have hdigits : ∀ digits, List.Forall₂ (fun c digit => digitOf? base c = some digit) (lower text)
      digits ↔ List.Forall₂ (fun c digit => digitOf? base c = some digit) text digits := by
    intro digits
    rw [lower, List.forall₂_map_left_iff]
    simp only [digitOf?_toLower]
  constructor
  · rintro ⟨hne, digits, htext, hvalue⟩
    exact ⟨fun hnil => hne (by rw [hnil]; rfl), digits, (hdigits digits).mp htext, hvalue⟩
  · rintro ⟨hne, digits, htext, hvalue⟩
    exact ⟨fun hnil => hne (List.map_eq_nil_iff.mp hnil), digits, (hdigits digits).mpr htext, hvalue⟩

end Text

open Text

/-! ## Errors -/

/-- An error with the text that it blames in lower case. -/
def AssemblyError.lower : AssemblyError → AssemblyError
  | invalidSyntax text => invalidSyntax (Text.lower text)
  | unknownMnemonic name => unknownMnemonic (Text.lower name)
  | unknownRegister name => unknownRegister (Text.lower name)
  | unbalancedBracket token => unbalancedBracket (Text.lower token)
  | invalidLiteral text => invalidLiteral (Text.lower text)
  | noMatchingForm mnemonic operands => noMatchingForm mnemonic operands

/-! ## Tokens -/

namespace Literal

variable {text : List Char} {value : Nat}

theorem spells_lower : Spells (lower text) value ↔ Spells text value := by
  constructor
  · intro h
    generalize htext : lower text = lowered at h
    cases h with
    | hexadecimal hmark hdigits =>
        obtain ⟨first, rest, rfl, hfirst, hrest⟩ := List.map_eq_cons_iff.mp htext
        obtain ⟨second, digits, rfl, hsecond, rfl⟩ := List.map_eq_cons_iff.mp hrest
        obtain rfl := (toLower_eq_iff (by decide) (by decide)).mp hfirst
        refine .hexadecimal ?_ (positional_lower.mp hdigits)
        rcases hmark with hmark | hmark
        · exact toLower_eq_mark_iff.mp (hsecond.trans hmark)
        · -- No character has an upper-case letter for its lower case.
          have hlower := congrArg Char.toLower (hsecond.trans hmark)
          rw [toLower_toLower, hsecond.trans hmark] at hlower
          contradiction
    | decimal hdigits =>
        subst htext
        exact .decimal (positional_lower.mp hdigits)
  · intro h
    cases h with
    | hexadecimal hmark hdigits =>
        refine .hexadecimal (.inl ?_) (positional_lower.mpr hdigits)
        exact toLower_eq_mark_iff.mpr hmark
    | decimal hdigits => exact .decimal (positional_lower.mpr hdigits)

theorem parse_lower (text : List Char) :
    parse (lower text) = (parse text).mapError AssemblyError.lower := by
  cases h : parse text with
  | ok word =>
      rw [parse_eq_ok_iff_spells, ← spells_lower] at h
      exact parse_eq_ok_iff_spells.mpr h
  | error error =>
      obtain ⟨rfl, hnone⟩ := parse_eq_error_iff.mp h
      refine parse_eq_error_iff.mpr ⟨rfl, ?_⟩
      intro value hvalue
      rw [spells_lower]
      exact hnone value hvalue

end Literal

theorem Register.ofName?_lower (name : List Char) : ofName? (lower name) = ofName? name := by
  have hupper : (lower name).map Char.toUpper = name.map Char.toUpper := by
    rw [lower, List.map_map]
    exact List.map_congr_left fun c _ => toUpper_toLower c
  simp only [ofName?, hupper]

theorem Atom.parse_lower (text : List Char) :
    parse (lower text) = (parse text).mapError AssemblyError.lower := by
  cases hbracket : text.any isBracket with
  | true =>
      have hbracket' := (any_lower isBracket_toLower text).trans hbracket
      unfold parse
      rw [if_pos hbracket, if_pos hbracket']
      rfl
  | false =>
      have hbracket' := (any_lower isBracket_toLower text).trans hbracket
      cases text with
      | nil => rfl
      | cons first rest =>
          have hall := all_lower isAlphanum_toLower (first :: rest)
          have hname := Register.ofName?_lower (first :: rest)
          have hliteral := Literal.parse_lower (first :: rest)
          rw [lower, List.map_cons] at hall hname hliteral hbracket' ⊢
          rw [parse_cons hbracket, parse_cons hbracket', isDigit_toLower, isAlpha_toLower, hall,
            hname, hliteral]
          split
          next => exact (except_mapError_map _).symm
          next =>
            split
            next => cases Register.ofName? (first :: rest) <;> rfl
            next => rfl

namespace Operand

/-- A character that is no letter is met in a text where it is met in lower case. -/
theorem beq_map_toLower {mark : Char} (hmark : mark.toNat < 128) (hother : mark.isAlpha = false)
    (found : Option Char) : (found.map Char.toLower == some mark) = (found == some mark) := by
  rw [Bool.eq_iff_iff, beq_iff_eq, beq_iff_eq, Option.map_eq_some_iff]
  simp only [toLower_eq_iff hmark hother, exists_eq_right]

theorem parse_lower (token : List Char) :
    parse (lower token) = (parse token).mapError AssemblyError.lower := by
  have hopens : ((lower token).head? == some '[') = (token.head? == some '[') := by
    rw [lower, List.head?_map]
    exact beq_map_toLower (by decide) (by decide) token.head?
  have hcloses : ((lower token).getLast? == some ']') = (token.getLast? == some ']') := by
    rw [lower, List.getLast?_map]
    exact beq_map_toLower (by decide) (by decide) token.getLast?
  have hinner : (lower token).tail.dropLast = lower token.tail.dropLast := by
    rw [lower, lower, ← List.map_tail, ← List.map_dropLast]
  have hempty : (lower token.tail.dropLast).isEmpty = token.tail.dropLast.isEmpty :=
    List.isEmpty_map
  simp only [parse, hopens, hcloses, hinner, hempty, Atom.parse_lower, ← except_mapError_map]
  split
  next => split <;> rfl
  next => split <;> rfl

theorem parseAll_lower (tokens : List (List Char)) :
    parseAll (tokens.map lower) = (parseAll tokens).mapError AssemblyError.lower := by
  induction tokens with
  | nil => rfl
  | cons token rest ih =>
      rw [List.map_cons, parseAll, parseAll, parse_lower, ih]
      cases parse token with
      | error error => rfl
      | ok operand => exact (except_mapError_map _).symm

end Operand

/-! ## Lines -/

namespace Line

/-- A line with its tokens in lower case. -/
def lower (line : Line) : Line :=
  ⟨Text.lower line.mnemonic, line.operands.map Text.lower⟩

theorem nextOperand_lower (text : List Char) :
    nextOperand (Text.lower text) =
      (Text.lower (nextOperand text).1, Text.lower (nextOperand text).2) := by
  rw [nextOperand, takeWhile_lower isOperandChar_toLower, dropWhile_lower isOperandChar_toLower,
    dropWhile_lower isGap_toLower]
  rfl

theorem operands?_lower (text : List Char) :
    operands? (Text.lower text) = (operands? text).map (List.map Text.lower) := by
  have hcomma : ∀ {c : Char}, c.toLower = ',' ↔ c = ',' := toLower_eq_iff (by decide) (by decide)
  unfold operands?
  rw [nextOperand_lower]
  rcases nextOperand text with ⟨_ | ⟨c, first⟩, _ | ⟨d, rest⟩⟩
  · rfl
  · rfl
  · rfl
  · by_cases hd : d = ','
    · subst hd
      have hsame : (','.toLower) = ',' := rfl
      simp only [lower_cons, hsame, dropWhile_lower isGap_toLower, nextOperand_lower]
      rcases nextOperand (rest.dropWhile isGap) with ⟨_ | ⟨c, second⟩, _ | ⟨d, rest⟩⟩ <;> rfl
    · have hd' : d.toLower ≠ ',' := fun h => hd (hcomma.mp h)
      simp [lower_cons, hd, hd']

theorem parse?_lower (text : List Char) : parse? (Text.lower text) = (parse? text).map lower := by
  unfold parse?
  rw [takeWhile_lower isMnemonicChar_toLower, dropWhile_lower isMnemonicChar_toLower]
  rcases text.takeWhile isMnemonicChar with _ | ⟨c, mnemonic⟩
  · rfl
  · rcases text.dropWhile isMnemonicChar with _ | ⟨d, rest⟩
    · rfl
    · simp only [lower_cons, isGap_toLower, dropWhile_lower isGap_toLower, operands?_lower]
      split
      next => cases operands? (rest.dropWhile isGap) <;> rfl
      next => rfl

end Line

/-! ## Instructions -/

namespace Instruction

theorem parse_lower (text : List Char) :
    parse (Text.lower text) = (parse text).mapError AssemblyError.lower := by
  unfold parse
  simp only [trim_lower, Line.parse?_lower]
  cases Line.parse? (trim text) with
  | none => rfl
  | some line =>
      have hname : (Text.lower line.mnemonic).map Char.toLower = line.mnemonic.map Char.toLower := by
        rw [Text.lower, List.map_map]
        exact List.map_congr_left fun c _ => toLower_toLower c
      simp only [Option.map_some, Line.lower, hname, Operand.parseAll_lower]
      cases Mnemonic.ofName? (line.mnemonic.map Char.toLower) with
      | none => rfl
      | some mnemonic =>
          cases Operand.parseAll line.operands with
          | error error => rfl
          | ok operands =>
              simp only [Except.mapError, select]
              cases select? mnemonic operands <;> rfl

/-- Texts that differ in the case of letters are read as the same instruction, or fail for the same
reason. -/
theorem parse_mapError_of_lower_eq {first second : List Char}
    (h : Text.lower first = Text.lower second) :
    (parse first).mapError AssemblyError.lower = (parse second).mapError AssemblyError.lower := by
  rw [← parse_lower, h, parse_lower]

end Instruction

end TinyComputer
