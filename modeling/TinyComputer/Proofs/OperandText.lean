import TinyComputer.Assembly.Line
import TinyComputer.Instruction.Printer
import TinyComputer.Proofs.Numerals
import TinyComputer.Proofs.Selection

/-!
# Operands as text

An operand is read back from its text with the same register, address or value; only the width of a
value is forgotten, since the reader takes the narrowest. The text of an operand is a single token: it
is not empty, and none of its characters ends an operand or is blank.
-/

namespace TinyComputer

open Text

namespace Atom

variable {text : List Char} {atom : Atom}

/-- Whatever is read has no bracket in it. -/
theorem not_isBracket_of_parse (h : parse text = .ok atom) : ∀ c ∈ text, isBracket c = false := by
  unfold parse at h
  split at h
  next => contradiction
  next hnone => simpa using hnone

theorem ne_nil_of_parse (h : parse text = .ok atom) : text ≠ [] := by
  rintro rfl
  contradiction

theorem parse_name (r : Register) : parse r.name.toList = .ok (.register r) := by
  cases r <;> decide +kernel

theorem parse_hexFixed {count : Nat} {value : Word} (hcount : 0 < count)
    (hvalue : value.toNat < 16 ^ count) :
    parse ('0' :: 'x' :: hexFixed count value.toNat) = .ok (.literal value) := by
  have hdigits : ∀ c ∈ hexFixed count value.toNat, isBracket c = false :=
    forall_mem_hexFixed (by decide) count value.toNat
  have hbracket : ('0' :: 'x' :: hexFixed count value.toNat).any isBracket = false := by
    rw [List.any_cons, List.any_cons, List.any_eq_false.mpr (by simpa using hdigits)]
    rfl
  rw [parse, hbracket, if_neg Bool.false_ne_true]
  simp only [Literal.parse_hexFixed hcount hvalue]
  rfl

end Atom

namespace Operand

variable {text : List Char} {atom : Atom}

/-- A text without a bracket does not end in one. -/
theorem getLast?_ne_of_forall_ne {c : Char} (h : ∀ d ∈ text, d ≠ c) :
    (text.getLast? == some c) = false := by
  rw [beq_eq_false_iff_ne]
  intro hlast
  exact h c (List.mem_of_getLast? hlast) rfl

/-- An atom by itself. -/
theorem parse_of_atom (h : Atom.parse text = .ok atom) : parse text = .ok atom.toOperand := by
  have hbracket := Atom.not_isBracket_of_parse h
  have hopens : (text.head? == some '[') = false := by
    cases text with
    | nil => rfl
    | cons first rest =>
        have hfirst := hbracket first List.mem_cons_self
        simp only [Atom.isBracket, Bool.or_eq_false_iff] at hfirst
        simpa using hfirst.1
  have hcloses : (text.getLast? == some ']') = false := by
    apply getLast?_ne_of_forall_ne
    rintro c hc rfl
    exact absurd (hbracket ']' hc) (by decide)
  simp only [parse, hopens, hcloses, h, Bool.and_false, Bool.or_false, Bool.false_eq_true, if_false]
  rfl

/-- An atom between brackets. -/
theorem parse_of_bracketed_atom (h : Atom.parse text = .ok atom) :
    parse (['['] ++ text ++ [']']) = .ok atom.toIndirect := by
  have hnonempty : text.isEmpty = false := List.isEmpty_eq_false_iff.mpr (Atom.ne_nil_of_parse h)
  have hinner : (['['] ++ text ++ [']']).tail.dropLast = text := by simp
  have hcloses : (['['] ++ text ++ [']']).getLast? = some ']' := List.getLast?_concat
  simp only [parse, hinner, hcloses, hnonempty, h, Bool.false_eq_true, if_false]
  rfl

/-- A value fits the width that it is written with. -/
def Fits : Operand → Prop
  | immediate value width => width.fits value = true
  | _ => True

theorem fits_of_holds {slot : Slot} {operand : Operand} (h : slot.Holds operand) :
    operand.Fits := by
  obtain ⟨haccepts, hfit⟩ := h
  cases slot <;> cases operand <;> simp_all [Slot.accepts, Slot.fit, Fits]

/-- The operand with no more room than its value needs. -/
def narrowed : Operand → Operand
  | immediate value _ => immediate value (Width.minimal value)
  | operand => operand

@[simp] theorem widened_narrowed (operand : Operand) :
    operand.narrowed.widened = operand.widened := by
  cases operand <;> rfl

/-- An operand is read back from its text, but for its width. -/
theorem parse_render {operand : Operand} (h : operand.Fits) :
    parse operand.render = .ok operand.narrowed := by
  cases operand with
  | register r => exact parse_of_atom (Atom.parse_name r)
  | immediate value width =>
      have hdigits : 0 < width.hexDigits := Nat.mul_pos (by decide) width.bytes_pos
      exact parse_of_atom (Atom.parse_hexFixed hdigits (Width.toNat_lt_of_fits h))
  | indirectRegister r => exact parse_of_bracketed_atom (Atom.parse_name r)
  | indirectImmediate address =>
      exact parse_of_bracketed_atom (Atom.parse_hexFixed (by decide) address.toNat_lt)

theorem parseAll_map_render {operands : List Operand} (h : ∀ operand ∈ operands, operand.Fits) :
    parseAll (operands.map render) = .ok (operands.map narrowed) := by
  induction operands with
  | nil => rfl
  | cons operand rest ih =>
      obtain ⟨hfirst, hrest⟩ := List.forall_mem_cons.mp h
      rw [List.map_cons, List.map_cons, parseAll, parse_render hfirst, ih hrest]
      rfl

/-- The characters that a token is made of: those that neither end an operand nor are blank. -/
def IsTokenChar (c : Char) : Prop :=
  Line.isOperandChar c = true ∧ isBlank c = false

instance (c : Char) : Decidable (IsTokenChar c) :=
  inferInstanceAs (Decidable (_ ∧ _))

theorem isTokenChar_of_mem_name (r : Register) : ∀ c ∈ r.name.toList, IsTokenChar c := by
  have hall : r.name.toList.all (fun c => decide (IsTokenChar c)) = true := by
    cases r <;> decide +kernel
  intro c hc
  exact of_decide_eq_true (List.all_eq_true.mp hall c hc)

theorem isTokenChar_of_mem_hexFixed (count n : Nat) : ∀ c ∈ hexFixed count n, IsTokenChar c :=
  forall_mem_hexFixed (by decide) count n

theorem isTokenChar_of_mem_render (operand : Operand) :
    ∀ c ∈ operand.render, IsTokenChar c := by
  have hopen : IsTokenChar '[' := by decide
  have hclose : IsTokenChar ']' := by decide
  have hzero : IsTokenChar '0' := by decide
  have hmark : IsTokenChar 'x' := by decide
  cases operand with
  | register r => exact isTokenChar_of_mem_name r
  | immediate value width =>
      simpa [render, hzero, hmark] using isTokenChar_of_mem_hexFixed width.hexDigits value.toNat
  | indirectRegister r =>
      simpa [render, hopen, hclose, or_imp, forall_and] using isTokenChar_of_mem_name r
  | indirectImmediate address =>
      simpa [render, hopen, hclose, hzero, hmark, or_imp, forall_and] using
        isTokenChar_of_mem_hexFixed 8 address.toNat

theorem render_ne_nil (operand : Operand) : operand.render ≠ [] := by
  cases operand with
  | register r => cases r <;> decide +kernel
  | _ => simp [render]

end Operand

end TinyComputer
