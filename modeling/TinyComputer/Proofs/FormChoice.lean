import Mathlib.Data.List.Nodup
import TinyComputer.Proofs.Execution
import TinyComputer.Proofs.Selection

/-!
# The choice among forms

Two forms of a mnemonic that accept the same operands differ in nothing but the room that they have for
an immediate. Their lengths tell them apart, so one of them is the shortest, in whatever order the table
is searched. An instruction that is executed uses the value of an immediate and not its width, so every
form that accepts the operands does the same with them, and the choice is one of length only.
-/

namespace TinyComputer

/-! ## Slots of the same kind -/

/-- The slot with all the room that an immediate could take. Two slots hold operands of the same kind
exactly when they are equal then. -/
def Slot.widened : Slot → Slot
  | immediate _ => immediate .w32
  | slot => slot

/-- The slot with the most room among those that an operand is accepted by. -/
def Operand.widestSlot : Operand → Slot
  | register _ => .register
  | immediate _ _ => .immediate .w32
  | indirectRegister _ => .indirectRegister
  | indirectImmediate _ => .indirectImmediate

/-- A slot that accepts an operand is of its kind. -/
theorem Slot.widened_of_accepts {slot : Slot} {operand : Operand} (h : slot.accepts operand = true) :
    slot.widened = operand.widestSlot := by
  cases slot <;> cases operand <;> first | rfl | contradiction

namespace Form

variable {form other : Form} {forms : List Form} {mnemonic : Mnemonic} {operands : List Operand}

theorem widened_slots_of_accepts (h : form.accepts operands = true) :
    form.slots.map Slot.widened = operands.map Operand.widestSlot := by
  rw [accepts_iff] at h
  generalize form.slots = slots at h ⊢
  induction h with
  | nil => rfl
  | cons hslot _ ih => rw [List.map_cons, List.map_cons, Slot.widened_of_accepts hslot, ih]

/-- The kind of the first slot decides whether a form stores through a pointer. -/
theorem storesThroughPointer_congr
    (h : form.slots.map Slot.widened = other.slots.map Slot.widened) :
    form.storesThroughPointer = other.storesThroughPointer := by
  have hkind : ∀ slot : Slot, (slot == .indirectImmediate) = (slot.widened == .indirectImmediate) := by
    intro slot
    cases slot <;> rfl
  have hhead : ∀ slots : List Slot, (slots.head? == some .indirectImmediate) =
      ((slots.map Slot.widened).head? == some .indirectImmediate) := by
    intro slots
    cases slots with
    | nil => rfl
    | cons slot rest => exact hkind slot
  rw [storesThroughPointer, storesThroughPointer, hhead form.slots, h, ← hhead other.slots]

/-! ## The shortest form -/

/-- What there is to tell a form from the others: what it does, the kinds of its operands, and the room
for them. -/
def shape (form : Form) : Mnemonic × List Slot × Nat :=
  (form.mnemonic, form.slots.map Slot.widened, form.length)

/-- No two forms in the opcode table have the same shape. -/
theorem nodup_shapes : (table.map shape).Nodup := by
  decide +kernel

/-- A form in the opcode table applies a mnemonic to operands: there are as many slots as operands, and
each slot accepts its operand. -/
structure Applies (form : Form) (mnemonic : Mnemonic) (operands : List Operand) : Prop where
  mem_table : form ∈ table
  mnemonic_eq : form.mnemonic = mnemonic
  slots_accept : List.Forall₂ (fun slot operand => slot.accepts operand = true) form.slots operands

theorem applies_iff_mem_candidates :
    form.Applies mnemonic operands ↔ form ∈ candidates mnemonic operands := by
  rw [mem_candidates_iff, accepts_iff]
  exact ⟨fun h => ⟨h.mem_table, h.mnemonic_eq, h.slots_accept⟩, fun h => ⟨h.1, h.2.1, h.2.2⟩⟩

theorem Applies.accepts (h : form.Applies mnemonic operands) : form.accepts operands = true :=
  accepts_iff.mpr h.slots_accept

/-- Forms that apply a mnemonic to the same operands have slots of the same kinds. -/
theorem Applies.widened_slots_eq (h : form.Applies mnemonic operands)
    (hother : other.Applies mnemonic operands) :
    form.slots.map Slot.widened = other.slots.map Slot.widened :=
  (widened_slots_of_accepts h.accepts).trans (widened_slots_of_accepts hother.accepts).symm

/-- So their lengths tell them apart. -/
theorem Applies.eq_of_length_eq (h : form.Applies mnemonic operands)
    (hother : other.Applies mnemonic operands) (hlength : form.length = other.length) :
    form = other := by
  have hshape : form.shape = other.shape := by
    rw [shape, shape, h.mnemonic_eq, hother.mnemonic_eq, h.widened_slots_eq hother, hlength]
  exact List.inj_on_of_nodup_map nodup_shapes h.mem_table hother.mem_table hshape

/-- A form that is shorter than all others of a list is found wherever it stands. -/
theorem shortest?_eq_some_of_forall_lt (hmem : form ∈ forms)
    (hlt : ∀ other ∈ forms, other ≠ form → form.length < other.length) :
    shortest? forms = some form := by
  cases hshortest : shortest? forms with
  | none =>
      rw [shortest?_eq_none_iff.mp hshortest] at hmem
      exact absurd hmem List.not_mem_nil
  | some best =>
      have hle : best.length ≤ form.length :=
        length_le_of_shortest?_eq_some hshortest form hmem
      by_contra hne
      have hbest : form.length < best.length :=
        hlt best (mem_of_shortest?_eq_some hshortest) fun h => hne (congrArg some h)
      exact absurd hle (Nat.not_le_of_lt hbest)

/-- The form that is found is shorter than every other one that applies the mnemonic. -/
theorem length_lt_of_shortest?_candidates (h : shortest? (candidates mnemonic operands) = some form)
    (hother : other.Applies mnemonic operands) (hne : other ≠ form) : form.length < other.length := by
  have happlies : form.Applies mnemonic operands :=
    applies_iff_mem_candidates.mpr (mem_of_shortest?_eq_some h)
  have hle : form.length ≤ other.length :=
    length_le_of_shortest?_eq_some h other (applies_iff_mem_candidates.mp hother)
  exact Nat.lt_of_le_of_ne hle fun hlength => hne (hother.eq_of_length_eq happlies hlength.symm)

/-- The order of the opcode table does not matter. -/
theorem shortest?_filter_of_perm {reordered : List Form} (h : reordered.Perm table)
    (mnemonic : Mnemonic) (operands : List Operand) :
    shortest? (reordered.filter fun form => form.mnemonic == mnemonic && form.accepts operands) =
      shortest? (candidates mnemonic operands) := by
  have hperm : (reordered.filter fun form =>
      form.mnemonic == mnemonic && form.accepts operands).Perm (candidates mnemonic operands) :=
    h.filter _
  cases hshortest : shortest? (candidates mnemonic operands) with
  | none =>
      rw [shortest?_eq_none_iff] at hshortest ⊢
      rw [hshortest] at hperm
      exact hperm.eq_nil
  | some form =>
      apply shortest?_eq_some_of_forall_lt
      · exact hperm.mem_iff.mpr (mem_of_shortest?_eq_some hshortest)
      · intro other hother hne
        have happlies := applies_iff_mem_candidates.mpr (hperm.mem_iff.mp hother)
        exact length_lt_of_shortest?_candidates hshortest happlies hne

end Form

/-! ## Executing an instruction with wider immediates -/

@[simp] theorem Operand.widened_register (r : Register) : (register r).widened = register r :=
  rfl

namespace Board

variable (board : Board) (operand : Operand) (throughPointer : Bool) (width : Width)

@[simp] theorem operandValue_widened :
    board.operandValue operand.widened = board.operandValue operand := by
  cases operand <;> rfl

@[simp] theorem load_widened :
    board.load width throughPointer operand.widened = board.load width throughPointer operand := by
  cases operand <;> rfl

@[simp] theorem store_widened (value : Word) :
    board.store width throughPointer operand.widened value =
      board.store width throughPointer operand value := by
  cases operand <;> rfl

@[simp] theorem move_widened (destination source : Operand) :
    board.move width throughPointer destination.widened source.widened =
      board.move width throughPointer destination source := by
  simp only [move, load_widened, store_widened]

/-- The width of an immediate does not matter to what an instruction does. -/
theorem execute_widened {form : Form} {operands : List Operand}
    (htakes : form.mnemonic.Takes operands) (pc : Word) :
    board.execute pc ⟨form, operands.map Operand.widened⟩ = board.execute pc ⟨form, operands⟩ := by
  obtain ⟨opcode, mnemonic, slots⟩ := form
  cases htakes <;>
    simp only [execute, Instruction.mnemonic, List.map_cons, List.map_nil, Operand.widened_register,
      operandValue_widened, move_widened]

/-- With the operands that it takes, a mnemonic does what it does whatever the rest of the form is,
except that a form says where stores go. -/
theorem execute_form_congr {form other : Form} {operands : List Operand}
    (htakes : form.mnemonic.Takes operands) (hmnemonic : other.mnemonic = form.mnemonic)
    (hstores : other.storesThroughPointer = form.storesThroughPointer) (pc : Word) :
    board.execute pc ⟨other, operands⟩ = board.execute pc ⟨form, operands⟩ := by
  generalize hname : form.mnemonic = mnemonic at htakes hmnemonic
  cases htakes <;> simp only [execute, Instruction.mnemonic, hname, hmnemonic, hstores]

end Board

namespace Form

variable {form other : Form} {mnemonic : Mnemonic} {operands : List Operand}

/-- An instruction of a form that applies the mnemonic is well-formed. -/
theorem Applies.wellFormed (h : form.Applies mnemonic operands) :
    (Instruction.mk form (form.fit operands)).WellFormed := by
  have hkept := widened_fit h.accepts
  have haccepts : form.accepts (form.fit operands) = true := accepts_congr hkept ▸ h.accepts
  exact ⟨h.mem_table, haccepts, fit_congr hkept haccepts⟩

/-- All forms that apply a mnemonic to the same operands do the same on every board. -/
theorem Applies.execute_eq (h : form.Applies mnemonic operands)
    (hother : other.Applies mnemonic operands) (board : Board) (pc : Word) :
    board.execute pc ⟨form, form.fit operands⟩ = board.execute pc ⟨other, other.fit operands⟩ := by
  have htakes : form.mnemonic.Takes (form.fit operands) := h.wellFormed.takes
  have htakesOther : other.mnemonic.Takes (other.fit operands) := hother.wellFormed.takes
  have hmnemonic : form.mnemonic = other.mnemonic := h.mnemonic_eq.trans hother.mnemonic_eq.symm
  have hstores := storesThroughPointer_congr (h.widened_slots_eq hother)
  have hwidened :
      (form.fit operands).map Operand.widened = (other.fit operands).map Operand.widened :=
    (widened_fit h.accepts).trans (widened_fit hother.accepts).symm
  calc board.execute pc ⟨form, form.fit operands⟩
      = board.execute pc ⟨other, form.fit operands⟩ :=
        (board.execute_form_congr htakes hmnemonic.symm hstores.symm pc).symm
    _ = board.execute pc ⟨other, (form.fit operands).map Operand.widened⟩ :=
        (board.execute_widened (hmnemonic ▸ htakes) pc).symm
    _ = board.execute pc ⟨other, (other.fit operands).map Operand.widened⟩ := by rw [hwidened]
    _ = board.execute pc ⟨other, other.fit operands⟩ := board.execute_widened htakesOther pc

end Form

/-! ## Selection -/

namespace Instruction

variable {mnemonic : Mnemonic} {operands : List Operand} {selected : Instruction}

theorem exists_select?_iff :
    (∃ selected, select? mnemonic operands = some selected) ↔
      ∃ form : Form, form.Applies mnemonic operands := by
  constructor
  · rintro ⟨selected, h⟩
    have hselected := selected_of_select? h
    exact ⟨selected.form, hselected.mem_table, hselected.mnemonic_eq,
      Form.accepts_iff.mp hselected.accepts⟩
  · rintro ⟨form, h⟩
    cases hselect : select? mnemonic operands with
    | some selected => exact ⟨selected, rfl⟩
    | none =>
        have hnil := Form.shortest?_eq_none_iff.mp (Option.map_eq_none_iff.mp hselect)
        have hmem := Form.applies_iff_mem_candidates.mp h
        exact absurd (hnil ▸ hmem) List.not_mem_nil

/-- Selection takes the one shortest of the forms that apply the mnemonic, which is found in every order
of the opcode table, and there is an error when there is no such form. What is selected names the same
as the operands and is selected again from its own. The choice does not matter to what is executed. -/
theorem select_takes_shortest_form (mnemonic : Mnemonic) (operands : List Operand) :
    ((∃ selected, select mnemonic operands = .ok selected) ↔
      ∃ form : Form, form.Applies mnemonic operands) ∧
    ((¬ ∃ form : Form, form.Applies mnemonic operands) →
      select mnemonic operands = .error (.noMatchingForm mnemonic operands)) ∧
    (∀ selected, select mnemonic operands = .ok selected →
      selected.form.Applies mnemonic operands ∧
      selected.operands = selected.form.fit operands ∧
      (∀ other : Form, other.Applies mnemonic operands → other ≠ selected.form →
        selected.form.length < other.length) ∧
      (∀ reordered : List Form, reordered.Perm Form.table →
        Form.shortest? (reordered.filter fun form =>
          form.mnemonic == mnemonic && form.accepts operands) = some selected.form) ∧
      selected.WellFormed ∧
      selected.operands.map Operand.widened = operands.map Operand.widened ∧
      select mnemonic selected.operands = .ok selected) ∧
    (∀ form other : Form, form.Applies mnemonic operands → other.Applies mnemonic operands →
      ∀ (board : Board) (pc : Word),
        board.execute pc ⟨form, form.fit operands⟩ =
          board.execute pc ⟨other, other.fit operands⟩) := by
  simp only [select_eq_ok_iff]
  refine ⟨exists_select?_iff, ?_, ?_, fun form other h hother => h.execute_eq hother⟩
  · intro hnone
    rw [← exists_select?_iff] at hnone
    cases hselect : select? mnemonic operands with
    | none => rw [select, hselect]
    | some selected => exact absurd ⟨selected, hselect⟩ hnone
  · intro selected h
    have hselected := selected_of_select? h
    obtain ⟨form, hform, rfl⟩ := Option.map_eq_some_iff.mp h
    have happlies := Form.applies_iff_mem_candidates.mpr (Form.mem_of_shortest?_eq_some hform)
    refine ⟨happlies, rfl, ?_, ?_, happlies.wellFormed, hselected.widened_operands, ?_⟩
    · exact fun other hother hne => Form.length_lt_of_shortest?_candidates hform hother hne
    · exact fun reordered hperm => (Form.shortest?_filter_of_perm hperm mnemonic operands).trans hform
    · exact hselected.mnemonic_eq ▸ select?_self h

/-- A jump to an address of one byte takes the short form, and the long form does the same. There is no
form to shift by more than a byte. -/
theorem select_takes_shortest_form_beside_the_byte_bound :
    (∃ selected, select .mov [.register .pc, .immediate 0xFF .w32] = .ok selected ∧
      selected.length = 3 ∧
      select .mov [.register .pc, .immediate 0xFF .w8] = .ok selected ∧
      ∀ (board : Board) (pc : Word),
        board.execute pc selected =
          board.execute pc ⟨⟨0x04, .mov, [.register, .immediate .w32]⟩,
            [.register .pc, .immediate 0xFF .w32]⟩) ∧
    select (.arithmetic .shl) [.register .a, .immediate 0x100 .w16] =
      .error (.noMatchingForm (.arithmetic .shl) [.register .a, .immediate 0x100 .w16]) := by
  constructor
  · have hlong : Form.Applies ⟨0x04, .mov, [.register, .immediate .w32]⟩ .mov
        [.register .pc, .immediate 0xFF .w32] :=
      ⟨by decide +kernel, rfl, .cons rfl (.cons rfl .nil)⟩
    obtain ⟨hok, _, hselected, hexecute⟩ :=
      select_takes_shortest_form .mov [.register .pc, .immediate 0xFF .w32]
    obtain ⟨selected, hselect⟩ := hok.mpr ⟨_, hlong⟩
    obtain ⟨happlies, hoperands, _, _, _, _, hagain⟩ := hselected selected hselect
    have hshort : selected = ⟨⟨0x02, .mov, [.register, .immediate .w8]⟩,
        [.register .pc, .immediate 0xFF .w8]⟩ := by
      have hrun : select .mov [.register .pc, .immediate 0xFF .w32] =
          .ok ⟨⟨0x02, .mov, [.register, .immediate .w8]⟩,
            [.register .pc, .immediate 0xFF .w8]⟩ := by
        decide +kernel
      exact Except.ok.inj (hselect.symm.trans hrun)
    refine ⟨selected, hselect, hshort ▸ rfl, hshort ▸ hagain, fun board pc => ?_⟩
    have hsame := hexecute selected.form _ happlies hlong board pc
    rwa [← hoperands] at hsame
  · have hnone : ¬ ∃ form : Form,
        form.Applies (.arithmetic .shl) [.register .a, .immediate 0x100 .w16] := by
      rintro ⟨form, h⟩
      have hnil : Form.candidates (.arithmetic .shl) [.register .a, .immediate 0x100 .w16] = [] := by
        decide +kernel
      exact absurd (hnil ▸ Form.applies_iff_mem_candidates.mp h) List.not_mem_nil
    exact (select_takes_shortest_form _ _).2.1 hnone

end Instruction

end TinyComputer
