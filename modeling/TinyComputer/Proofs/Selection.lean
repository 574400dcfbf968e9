import TinyComputer.Assembly.Line
import TinyComputer.Proofs.MachineCode

/-!
# Selected instructions

Whether a form accepts operands depends on their registers, addresses and values, not on the widths
that they were given before. So selecting is a matter of what operands name: it gives the shortest
instruction that names the same, every well-formed instruction can be selected, and what was selected
once is selected again from its own operands.
-/

namespace TinyComputer

namespace Operand

/-- The operand with all the room that its value could take. Two operands name the same register,
address or value exactly when they are equal then. -/
def widened : Operand → Operand
  | immediate value _ => immediate value .w32
  | operand => operand

end Operand

namespace Slot

variable (slot : Slot) (operand : Operand)

@[simp] theorem accepts_widened : slot.accepts operand.widened = slot.accepts operand := by
  cases slot <;> cases operand <;> rfl

@[simp] theorem widened_fit : (slot.fit operand).widened = operand.widened := by
  cases slot <;> cases operand <;> rfl

/-- An accepted operand gets its width from the slot. -/
theorem fit_widened {slot : Slot} {operand : Operand} (h : slot.accepts operand = true) :
    slot.fit operand.widened = slot.fit operand := by
  cases slot <;> cases operand <;> first | rfl | contradiction

end Slot

namespace Form

variable {form : Form} {operands first second : List Operand}

/-- A form accepts operands when each slot accepts its own. -/
theorem accepts_iff : form.accepts operands = true ↔
    List.Forall₂ (fun slot operand => slot.accepts operand = true) form.slots operands := by
  rw [accepts, Bool.and_eq_true, beq_iff_eq, List.all_eq_true, List.forall₂_iff_zip]
  exact and_congr_right fun _ => ⟨fun h _ _ hmem => h _ hmem, fun h _ hmem => h hmem⟩

@[simp] theorem accepts_widened :
    form.accepts (operands.map Operand.widened) = form.accepts operands := by
  rw [Bool.eq_iff_iff, accepts_iff, accepts_iff, List.forall₂_map_right_iff]
  simp only [Slot.accepts_widened]

/-- What a form makes of operands that it accepts depends on what they name. -/
theorem fit_widened (h : form.accepts operands = true) :
    form.fit (operands.map Operand.widened) = form.fit operands := by
  rw [accepts_iff] at h
  unfold fit
  generalize form.slots = slots at h ⊢
  induction h with
  | nil => rfl
  | cons hslot _ ih =>
      rw [List.map_cons, List.zipWith_cons_cons, List.zipWith_cons_cons, Slot.fit_widened hslot, ih]

/-- A form keeps what the operands name. -/
theorem widened_fit (h : form.accepts operands = true) :
    (form.fit operands).map Operand.widened = operands.map Operand.widened := by
  rw [accepts_iff] at h
  unfold fit
  generalize form.slots = slots at h ⊢
  induction h with
  | nil => rfl
  | cons _ _ ih =>
      rw [List.zipWith_cons_cons, List.map_cons, List.map_cons, Slot.widened_fit, ih]

theorem accepts_congr (h : first.map Operand.widened = second.map Operand.widened) :
    form.accepts first = form.accepts second := by
  rw [← accepts_widened, h, accepts_widened]

theorem fit_congr (h : first.map Operand.widened = second.map Operand.widened)
    (haccepts : form.accepts first = true) : form.fit first = form.fit second := by
  have haccepts' : form.accepts second = true := accepts_congr h ▸ haccepts
  rw [← fit_widened haccepts, h, fit_widened haccepts']

theorem candidates_congr (mnemonic : Mnemonic)
    (h : first.map Operand.widened = second.map Operand.widened) :
    candidates mnemonic first = candidates mnemonic second := by
  unfold candidates
  simp only [accepts_congr h]

theorem mem_candidates_iff {mnemonic : Mnemonic} :
    form ∈ candidates mnemonic operands ↔
      form ∈ table ∧ form.mnemonic = mnemonic ∧ form.accepts operands = true := by
  rw [candidates, List.mem_filter, Bool.and_eq_true, beq_iff_eq]

end Form

namespace Instruction

variable {mnemonic : Mnemonic} {operands first second : List Operand} {selected : Instruction}

/-- What it means for an instruction to be the selected one. -/
structure Selected (mnemonic : Mnemonic) (operands : List Operand) (selected : Instruction) :
    Prop where
  mem_table : selected.form ∈ Form.table
  mnemonic_eq : selected.mnemonic = mnemonic
  accepts : selected.form.accepts operands = true
  operands_eq : selected.operands = selected.form.fit operands
  length_le : ∀ form ∈ Form.table, form.mnemonic = mnemonic → form.accepts operands = true →
    selected.length ≤ form.length

theorem selected_of_select? (h : select? mnemonic operands = some selected) :
    Selected mnemonic operands selected := by
  obtain ⟨form, hform, rfl⟩ := Option.map_eq_some_iff.mp h
  obtain ⟨hmem, hmnemonic, haccepts⟩ :=
    Form.mem_candidates_iff.mp (Form.mem_of_shortest?_eq_some hform)
  refine ⟨hmem, hmnemonic, haccepts, rfl, ?_⟩
  intro other hother hsame haccepts'
  exact Form.length_le_of_shortest?_eq_some hform other
    (Form.mem_candidates_iff.mpr ⟨hother, hsame, haccepts'⟩)

namespace Selected

variable (h : Selected mnemonic operands selected)
include h

/-- Selecting keeps what the operands name. -/
theorem widened_operands :
    selected.operands.map Operand.widened = operands.map Operand.widened := by
  rw [h.operands_eq, Form.widened_fit h.accepts]

theorem wellFormed : selected.WellFormed := by
  have haccepts : selected.form.accepts selected.operands = true :=
    Form.accepts_congr h.widened_operands ▸ h.accepts
  refine ⟨h.mem_table, haccepts, ?_⟩
  rw [Form.fit_congr h.widened_operands haccepts, ← h.operands_eq]

end Selected

/-- Selecting depends on what the operands name. -/
theorem select?_congr (mnemonic : Mnemonic)
    (h : first.map Operand.widened = second.map Operand.widened) :
    select? mnemonic first = select? mnemonic second := by
  unfold select?
  rw [Form.candidates_congr mnemonic h]
  cases hform : Form.shortest? (Form.candidates mnemonic second) with
  | none => rfl
  | some form =>
      obtain ⟨_, _, haccepts⟩ := Form.mem_candidates_iff.mp (Form.mem_of_shortest?_eq_some hform)
      have hfit := Form.fit_congr h.symm haccepts
      rw [Option.map_some, Option.map_some, hfit]

/-- What was selected is selected again from its own operands. -/
theorem select?_self (h : select? mnemonic operands = some selected) :
    select? selected.mnemonic selected.operands = some selected := by
  have hselected := selected_of_select? h
  rw [hselected.mnemonic_eq, select?_congr mnemonic hselected.widened_operands, h]

/-- The form of a well-formed instruction accepts its operands, so there is one to be selected. -/
theorem exists_select? {instruction : Instruction} (h : instruction.WellFormed) :
    ∃ selected, select? instruction.mnemonic instruction.operands = some selected := by
  have hcandidate : instruction.form ∈
      Form.candidates instruction.mnemonic instruction.operands :=
    Form.mem_candidates_iff.mpr ⟨h.1, rfl, h.2.1⟩
  cases hform : Form.shortest? (Form.candidates instruction.mnemonic instruction.operands) with
  | none =>
      rw [Form.shortest?_eq_none_iff.mp hform] at hcandidate
      exact absurd hcandidate List.not_mem_nil
  | some form => exact ⟨_, by rw [select?, hform]; rfl⟩

theorem select_eq_ok_iff :
    select mnemonic operands = .ok selected ↔ select? mnemonic operands = some selected := by
  unfold select
  cases select? mnemonic operands <;> simp

/-- Whatever a text is read as was selected. -/
theorem exists_select?_of_parse {text : List Char} {instruction : Instruction}
    (h : parse text = .ok instruction) :
    ∃ mnemonic operands, select? mnemonic operands = some instruction := by
  dsimp only [parse] at h
  -- Every step but the last can only fail.
  split at h
  next => contradiction
  next =>
    split at h
    next => contradiction
    next mnemonic _ =>
      split at h
      next => contradiction
      next operands _ => exact ⟨mnemonic, operands, select_eq_ok_iff.mp h⟩

theorem wellFormed_of_parse {text : List Char} {instruction : Instruction}
    (h : parse text = .ok instruction) : instruction.WellFormed := by
  obtain ⟨_, _, hselect⟩ := exists_select?_of_parse h
  exact (selected_of_select? hselect).wellFormed

end Instruction

end TinyComputer
