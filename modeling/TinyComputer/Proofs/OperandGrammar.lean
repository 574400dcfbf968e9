import TinyComputer.Proofs.OperandText
import TinyComputer.Proofs.Outcomes

/-!
# The grammar of operands

An operand is written as the name of a register in any case, as a numeral whose value is a word, or as
either of them between one pair of brackets. Exactly these tokens are read, each as what it says. The
brackets of a token are balanced when there are none, or one pair around all other characters.
-/

namespace TinyComputer

open Text

theorem Atom.isBracket_eq_false_iff {c : Char} : isBracket c = false ↔ c ≠ '[' ∧ c ≠ ']' := by
  rw [isBracket, Bool.or_eq_false_iff, beq_eq_false_iff_ne, beq_eq_false_iff_ne]

/-! ## Numerals -/

namespace Text

variable {base : Nat} {digit? : Char → Option Nat} {text : List Char} {value : Nat}

/-- A numeral is made of digits of a base, most significant first, which denote a number. -/
structure Numeral (base : Nat) (digit? : Char → Option Nat) (text : List Char) (value : Nat) :
    Prop where
  ne_nil : text ≠ []
  exists_digits : ∃ digits, List.Forall₂ (fun c digit => digit? c = some digit) text digits ∧
    ofDigits base digits = value

theorem readNumeral?_eq_some_iff :
    readNumeral? base digit? text = some value ↔ Numeral base digit? text value := by
  rw [readNumeral?]
  split
  next hempty =>
    obtain rfl := List.isEmpty_iff.mp hempty
    simp only [reduceCtorEq, false_iff]
    exact fun h => h.ne_nil rfl
  next hne =>
    simp only [Option.map_eq_some_iff, option_mapM_eq_some_iff]
    exact ⟨fun h => ⟨fun hnil => hne (List.isEmpty_iff.mpr hnil), h⟩, fun h => h.exists_digits⟩

/-- Every character of a numeral is a digit. -/
theorem Numeral.exists_digit (h : Numeral base digit? text value) :
    ∀ c ∈ text, ∃ digit, digit? c = some digit := by
  obtain ⟨digits, hdigits, hvalue⟩ := h.exists_digits
  clear h hvalue
  induction hdigits with
  | nil => exact fun c hc => absurd hc List.not_mem_nil
  | cons hfirst _ ih => exact List.forall_mem_cons.mpr ⟨⟨_, hfirst⟩, ih⟩

/-- Where brackets are no digits, there are none in a numeral. -/
theorem Numeral.not_isBracket (h : Numeral base digit? text value) (hopen : digit? '[' = none)
    (hclose : digit? ']' = none) : ∀ c ∈ text, Atom.isBracket c = false := by
  intro c hc
  obtain ⟨digit, hdigit⟩ := h.exists_digit c hc
  rw [Atom.isBracket_eq_false_iff]
  constructor
  · rintro rfl
    exact Option.some_ne_none digit (hdigit.symm.trans hopen)
  · rintro rfl
    exact Option.some_ne_none digit (hdigit.symm.trans hclose)

theorem isDigit_of_decimalDigit? {c : Char} {digit : Nat} (h : decimalDigit? c = some digit) :
    c.isDigit = true := by
  unfold decimalDigit? at h
  split at h
  next hrange =>
    exact Bool.and_eq_true_iff.mpr ⟨decide_eq_true hrange.1, decide_eq_true hrange.2⟩
  next => contradiction

end Text

/-- A literal denotes the number of a hexadecimal numeral after `0x` or `0X`, or of a decimal one. -/
inductive Literal.Denotes : List Char → Nat → Prop
  | hexadecimal {mark : Char} {digits : List Char} {value : Nat} : mark = 'x' ∨ mark = 'X' →
      Numeral 16 hexDigit? digits value → Denotes ('0' :: mark :: digits) value
  | decimal {digits : List Char} {value : Nat} : Numeral 10 decimalDigit? digits value →
      Denotes digits value

namespace Literal

variable {text : List Char} {value : Nat} {word : Word}

theorem value?_eq_some_iff : value? text = some value ↔ Denotes text value := by
  constructor
  · intro h
    unfold value? at h
    split at h
    next => exact .hexadecimal (.inl rfl) (readNumeral?_eq_some_iff.mp h)
    next => exact .hexadecimal (.inr rfl) (readNumeral?_eq_some_iff.mp h)
    next => exact .decimal (readNumeral?_eq_some_iff.mp h)
  · intro h
    cases h with
    | hexadecimal hmark hdigits =>
        rcases hmark with rfl | rfl <;> exact readNumeral?_eq_some_iff.mpr hdigits
    | decimal hdigits =>
        unfold value?
        -- A decimal numeral has no mark after its first digit.
        split
        next =>
          obtain ⟨digit, hdigit⟩ := hdigits.exists_digit 'x' (by simp)
          contradiction
        next =>
          obtain ⟨digit, hdigit⟩ := hdigits.exists_digit 'X' (by simp)
          contradiction
        next => exact readNumeral?_eq_some_iff.mpr hdigits

/-- A text is read as a word when it is a literal that denotes the number of the word. -/
theorem parse_eq_ok_iff : parse text = .ok word ↔ Denotes text word.toNat := by
  rw [← value?_eq_some_iff, parse]
  cases value? text with
  | none => simp
  | some value =>
      simp only [Option.some.injEq]
      split
      next hlt =>
        rw [Except.ok.injEq]
        constructor
        · rintro rfl
          exact (UInt32.toNat_ofNat_of_lt hlt).symm
        · rintro rfl
          exact UInt32.ofNat_toNat
      next hge =>
        simp only [reduceCtorEq, false_iff]
        rintro rfl
        exact hge word.toNat_lt

/-- Every other text is called invalid. -/
theorem parse_eq_error {error : AssemblyError} (h : parse text = .error error) :
    error = .invalidLiteral text := by
  unfold parse at h
  split at h
  next => split at h <;> cases h; rfl
  next => cases h; rfl

theorem Denotes.exists_first_digit (h : Denotes text value) :
    ∃ first rest, text = first :: rest ∧ first.isDigit = true := by
  cases h with
  | hexadecimal => exact ⟨_, _, rfl, rfl⟩
  | decimal hdigits =>
      obtain ⟨first, rest, rfl⟩ := List.exists_cons_of_ne_nil hdigits.ne_nil
      obtain ⟨digit, hdigit⟩ := hdigits.exists_digit first List.mem_cons_self
      exact ⟨first, rest, rfl, isDigit_of_decimalDigit? hdigit⟩

/-- A literal has no bracket in it. -/
theorem Denotes.not_isBracket (h : Denotes text value) : ∀ c ∈ text, Atom.isBracket c = false := by
  cases h with
  | hexadecimal hmark hdigits =>
      rw [List.forall_mem_cons, List.forall_mem_cons]
      refine ⟨rfl, ?_, hdigits.not_isBracket rfl rfl⟩
      rcases hmark with rfl | rfl <;> rfl
  | decimal hdigits => exact hdigits.not_isBracket rfl rfl

end Literal

/-! ## Register names -/

/-- A text names a register in whatever case. -/
def Register.NamedBy (r : Register) (text : List Char) : Prop :=
  text.map Char.toUpper = r.name.toList

instance (r : Register) (text : List Char) : Decidable (r.NamedBy text) :=
  inferInstanceAs (Decidable (_ = _))

theorem Register.ofName?_eq_some_iff {text : List Char} {r : Register} :
    ofName? text = some r ↔ r.NamedBy text := by
  constructor
  · intro h
    have hname := List.find?_some h
    exact (eq_of_beq hname).symm
  · intro h
    rw [ofName?, h]
    cases r <;> decide +kernel

theorem isAlpha_of_isUpper_toUpper {c : Char} (h : c.toUpper.isUpper = true) : c.isAlpha = true := by
  apply Bool.or_eq_true_iff.mpr
  unfold Char.toUpper at h
  split at h
  next hlower =>
    exact .inr (Bool.and_eq_true_iff.mpr ⟨decide_eq_true hlower.1, decide_eq_true hlower.2⟩)
  next => exact .inl h

theorem Register.isUpper_of_mem_name (r : Register) : ∀ c ∈ r.name.toList, c.isUpper = true := by
  have hall : r.name.toList.all Char.isUpper = true := by
    cases r <;> decide +kernel
  exact List.all_eq_true.mp hall

/-- The name of a register is made of letters. -/
theorem Register.NamedBy.isAlpha {r : Register} {text : List Char} (h : r.NamedBy text) :
    ∀ c ∈ text, c.isAlpha = true := by
  intro c hc
  apply isAlpha_of_isUpper_toUpper
  apply r.isUpper_of_mem_name
  rw [← h]
  exact List.mem_map_of_mem hc

theorem Register.NamedBy.ne_nil {r : Register} {text : List Char} (h : r.NamedBy text) :
    text ≠ [] := by
  rintro rfl
  revert h
  cases r <;> decide +kernel

/-! ## Registers and literals -/

/-- What a text is written for. -/
inductive Atom.Written : List Char → Atom → Prop
  | register {text : List Char} {r : Register} : r.NamedBy text → Written text (.register r)
  | literal {text : List Char} {value : Word} : Literal.Denotes text value.toNat →
      Written text (.literal value)

namespace Atom

variable {text : List Char} {atom : Atom}

theorem not_isBracket_of_isAlpha {c : Char} (h : c.isAlpha = true) : isBracket c = false := by
  rw [isBracket_eq_false_iff]
  constructor <;> rintro rfl <;> contradiction

theorem not_isDigit_of_isAlpha {c : Char} (h : c.isAlpha = true) : c.isDigit = false := by
  rw [← Bool.not_eq_true]
  intro hdigit
  have hnine : c.val ≤ '9'.val := of_decide_eq_true (Bool.and_eq_true_iff.mp hdigit).2
  rcases Bool.or_eq_true_iff.mp h with hupper | hlower
  · have hfirst : 'A'.val ≤ c.val := (of_decide_eq_true hupper).1
    exact absurd (UInt32.le_trans hfirst hnine) (by decide)
  · have hfirst : 'a'.val ≤ c.val := of_decide_eq_true (Bool.and_eq_true_iff.mp hlower).1
    exact absurd (UInt32.le_trans hfirst hnine) (by decide)

theorem Written.not_isBracket (h : Written text atom) : ∀ c ∈ text, isBracket c = false := by
  cases h with
  | register hname => exact fun c hc => not_isBracket_of_isAlpha (hname.isAlpha c hc)
  | literal hdenotes => exact hdenotes.not_isBracket

/-- A token without brackets is a literal if it starts with a digit, and else a name. -/
theorem parse_cons {first : Char} {rest : List Char}
    (hbracket : (first :: rest).any isBracket = false) :
    parse (first :: rest) =
      if first.isDigit then (Literal.parse (first :: rest)).map .literal
      else if first.isAlpha && (first :: rest).all Char.isAlphanum then
        match Register.ofName? (first :: rest) with
        | some r => .ok (.register r)
        | none => .error (.unknownRegister (first :: rest))
      else .error (.invalidSyntax (first :: rest)) :=
  if_neg (Bool.eq_false_iff.mp hbracket)

theorem written_of_parse (h : parse text = .ok atom) : Written text atom := by
  have hbracket : text.any isBracket = false := by simpa using not_isBracket_of_parse h
  obtain ⟨first, rest, rfl⟩ := List.exists_cons_of_ne_nil (ne_nil_of_parse h)
  rw [parse_cons hbracket] at h
  split at h
  next =>
    obtain ⟨value, hliteral, rfl⟩ := except_map_eq_ok_iff.mp h
    exact .literal (Literal.parse_eq_ok_iff.mp hliteral)
  next =>
    split at h
    next =>
      split at h
      next r hname =>
        obtain rfl := Except.ok.inj h
        exact .register (Register.ofName?_eq_some_iff.mp hname)
      next => contradiction
    next => contradiction

theorem parse_of_written (h : Written text atom) : parse text = .ok atom := by
  have hbracket : text.any isBracket = false := by simpa using h.not_isBracket
  cases h with
  | register hname =>
      obtain ⟨first, rest, rfl⟩ := List.exists_cons_of_ne_nil hname.ne_nil
      have hfirst := hname.isAlpha first List.mem_cons_self
      have hall : (first :: rest).all Char.isAlphanum = true := by
        rw [List.all_eq_true]
        exact fun c hc => Bool.or_eq_true_iff.mpr (.inl (hname.isAlpha c hc))
      rw [parse_cons hbracket, not_isDigit_of_isAlpha hfirst, hfirst, hall]
      simp only [Register.ofName?_eq_some_iff.mpr hname, Bool.false_eq_true, if_false,
        Bool.and_self, if_true]
  | literal hdenotes =>
      obtain ⟨first, rest, rfl, hfirst⟩ := hdenotes.exists_first_digit
      rw [parse_cons hbracket, hfirst, if_pos rfl, Literal.parse_eq_ok_iff.mpr hdenotes]
      rfl

theorem parse_eq_ok_iff : parse text = .ok atom ↔ Written text atom :=
  ⟨written_of_parse, parse_of_written⟩

/-- Brackets are looked for first, and nothing else is called unbalanced. -/
theorem parse_unbalancedBracket_iff :
    (∃ blamed, parse text = .error (.unbalancedBracket blamed)) ↔ ∃ c ∈ text, isBracket c = true := by
  rw [← List.any_eq_true]
  cases hbracket : text.any isBracket with
  | true => exact iff_of_true ⟨text, by unfold parse; rw [hbracket, if_pos rfl]⟩ rfl
  | false =>
      refine iff_of_false ?_ Bool.false_ne_true
      rintro ⟨blamed, h⟩
      cases text with
      | nil => cases h
      | cons first rest =>
          rw [parse_cons hbracket] at h
          split at h
          next =>
            cases Literal.parse_eq_error (except_map_eq_error_iff.mp h)
          next =>
            split at h
            next => split at h <;> cases h
            next => cases h

end Atom

/-! ## Operands -/

namespace Operand

/-- A text between one pair of brackets. -/
def bracketed (inner : List Char) : List Char :=
  ['['] ++ inner ++ [']']

/-- How an operand is written: brackets make an address of a register or of a literal. -/
inductive Written : List Char → Operand → Prop
  | register {name : List Char} {r : Register} : r.NamedBy name → Written name (.register r)
  | immediate {digits : List Char} {value : Word} : Literal.Denotes digits value.toNat →
      Written digits (.immediate value (Width.minimal value))
  | indirectRegister {name : List Char} {r : Register} : r.NamedBy name →
      Written (bracketed name) (.indirectRegister r)
  | indirectImmediate {digits : List Char} {address : Word} :
      Literal.Denotes digits address.toNat → Written (bracketed digits) (.indirectImmediate address)

variable {token inner : List Char} {operand : Operand}

theorem bracketed_injective {first second : List Char} (h : bracketed first = bracketed second) :
    first = second :=
  List.append_cancel_left (List.append_cancel_right h)

theorem isBracket_mem_bracketed (inner : List Char) :
    ∃ c ∈ bracketed inner, Atom.isBracket c = true :=
  ⟨'[', List.mem_cons_self, rfl⟩

/-- The first and the last character tell whether a token is bracketed. -/
theorem exists_bracketed_iff :
    (token.head? == some '[' && token.getLast? == some ']') = true ↔
      ∃ inner, token = bracketed inner := by
  rw [Bool.and_eq_true, beq_iff_eq, beq_iff_eq]
  constructor
  · rintro ⟨hopens, hcloses⟩
    obtain ⟨rest, rfl⟩ := List.head?_eq_some_iff.mp hopens
    cases rest with
    | nil => contradiction
    | cons c others =>
        rw [List.getLast?_cons_cons] at hcloses
        obtain ⟨inner, hinner⟩ := List.getLast?_eq_some_iff.mp hcloses
        exact ⟨inner, by rw [hinner]; rfl⟩
  · rintro ⟨inner, rfl⟩
    exact ⟨rfl, List.getLast?_concat⟩

theorem parse_bracketed (inner : List Char) :
    parse (bracketed inner) =
      if inner.isEmpty then .error (.invalidSyntax (bracketed inner))
      else (Atom.parse inner).map Atom.toIndirect := by
  have hinner : (bracketed inner).tail.dropLast = inner := by simp [bracketed]
  have hboth := exists_bracketed_iff.mpr ⟨inner, rfl⟩
  simp only [parse, hboth, if_true, hinner]

theorem parse_of_not_bracketed (h : ¬ ∃ inner, token = bracketed inner) :
    parse token =
      if token.head? == some '[' || token.getLast? == some ']' then
        .error (.unbalancedBracket token)
      else (Atom.parse token).map Atom.toOperand := by
  rw [← exists_bracketed_iff, Bool.not_eq_true] at h
  simp only [parse, h, Bool.false_eq_true, if_false]

theorem written_of_atom {atom : Atom} (h : Atom.Written token atom) :
    Written token atom.toOperand := by
  cases h with
  | register hname => exact .register hname
  | literal hdenotes => exact .immediate hdenotes

theorem written_of_bracketed_atom {atom : Atom} (h : Atom.Written inner atom) :
    Written (bracketed inner) atom.toIndirect := by
  cases h with
  | register hname => exact .indirectRegister hname
  | literal hdenotes => exact .indirectImmediate hdenotes

/-- Exactly the ways to write an operand are read. -/
theorem parse_eq_ok_iff : parse token = .ok operand ↔ Written token operand := by
  constructor
  · intro h
    by_cases hbracketed : ∃ inner, token = bracketed inner
    · obtain ⟨inner, rfl⟩ := hbracketed
      rw [parse_bracketed] at h
      split at h
      next => contradiction
      next =>
        obtain ⟨atom, hatom, rfl⟩ := except_map_eq_ok_iff.mp h
        exact written_of_bracketed_atom (Atom.written_of_parse hatom)
    · rw [parse_of_not_bracketed hbracketed] at h
      split at h
      next => contradiction
      next =>
        obtain ⟨atom, hatom, rfl⟩ := except_map_eq_ok_iff.mp h
        exact written_of_atom (Atom.written_of_parse hatom)
  · intro h
    cases h with
    | register hname => exact parse_of_atom (Atom.parse_of_written (.register hname))
    | immediate hdenotes => exact parse_of_atom (Atom.parse_of_written (.literal hdenotes))
    | indirectRegister hname =>
        exact parse_of_bracketed_atom (Atom.parse_of_written (.register hname))
    | indirectImmediate hdenotes =>
        exact parse_of_bracketed_atom (Atom.parse_of_written (.literal hdenotes))

/-- The brackets of a token are unbalanced when it has one and is not the bracketed form of a text
without one. -/
theorem parse_unbalancedBracket_iff :
    (∃ blamed, parse token = .error (.unbalancedBracket blamed)) ↔
      (∃ c ∈ token, Atom.isBracket c = true) ∧
        ¬ ∃ inner, (∀ c ∈ inner, Atom.isBracket c = false) ∧ token = bracketed inner := by
  by_cases hbracketed : ∃ inner, token = bracketed inner
  · obtain ⟨inner, rfl⟩ := hbracketed
    have hfree : (∃ other, (∀ c ∈ other, Atom.isBracket c = false) ∧
        bracketed inner = bracketed other) ↔ ¬ ∃ c ∈ inner, Atom.isBracket c = true := by
      constructor
      · rintro ⟨other, hother, heq⟩ ⟨c, hc, hbracket⟩
        obtain rfl := bracketed_injective heq
        exact Bool.false_ne_true ((hother c hc).symm.trans hbracket)
      · intro hinner
        exact ⟨inner, fun c hc => Bool.eq_false_iff.mpr fun h => hinner ⟨c, hc, h⟩, rfl⟩
    rw [and_iff_right (isBracket_mem_bracketed inner), hfree, Classical.not_not,
      ← Atom.parse_unbalancedBracket_iff, parse_bracketed]
    cases inner with
    | nil => exact iff_of_false (fun ⟨_, h⟩ => nomatch h) (fun ⟨_, h⟩ => nomatch h)
    | cons c rest =>
        simp only [List.isEmpty_cons, Bool.false_eq_true, if_false, except_map_eq_error_iff]
  · have hfree : ¬ ∃ inner, (∀ c ∈ inner, Atom.isBracket c = false) ∧ token = bracketed inner :=
      fun ⟨inner, _, hinner⟩ => hbracketed ⟨inner, hinner⟩
    rw [parse_of_not_bracketed hbracketed, and_iff_left hfree]
    split
    next hend =>
      refine iff_of_true ⟨token, rfl⟩ ?_
      rw [Bool.or_eq_true, beq_iff_eq, beq_iff_eq] at hend
      rcases hend with hopens | hcloses
      · exact ⟨'[', List.mem_of_head? hopens, rfl⟩
      · exact ⟨']', List.mem_of_getLast? hcloses, rfl⟩
    next => simp only [except_map_eq_error_iff, Atom.parse_unbalancedBracket_iff]

end Operand

end TinyComputer
