import TinyComputer.Instruction.Basic

/-!
# Choosing the form of an instruction

A mnemonic has one form for each shape of operands. Of the forms that accept the operands at hand
the shortest is taken, which is the one with the narrowest immediate that still holds the value.
-/

namespace TinyComputer

namespace Form

/-- The forms of a mnemonic that accept the given operands, in table order. -/
def candidates (mnemonic : Mnemonic) (operands : List Operand) : List Form :=
  table.filter fun form => form.mnemonic == mnemonic && form.accepts operands

/-- The shortest form of a list, the first one if several are equally short. -/
def shortest? : List Form → Option Form
  | [] => none
  | form :: rest =>
      match shortest? rest with
      | none => some form
      | some best => if best.length < form.length then some best else some form

theorem shortest?_eq_none_iff {forms : List Form} : shortest? forms = none ↔ forms = [] := by
  cases forms with
  | nil => simp [shortest?]
  | cons form rest =>
      simp only [shortest?, reduceCtorEq, iff_false]
      split
      · simp
      · split <;> simp

theorem mem_of_shortest?_eq_some {forms : List Form} {form : Form}
    (h : shortest? forms = some form) : form ∈ forms := by
  induction forms with
  | nil => simp [shortest?] at h
  | cons first rest ih =>
      rw [shortest?] at h
      split at h
      · exact Option.some.inj h ▸ List.mem_cons_self
      next best hbest =>
        split at h
        · exact List.mem_cons_of_mem _ (ih (hbest.trans h))
        · exact Option.some.inj h ▸ List.mem_cons_self

theorem length_le_of_shortest?_eq_some {forms : List Form} {form : Form}
    (h : shortest? forms = some form) : ∀ other ∈ forms, form.length ≤ other.length := by
  induction forms generalizing form with
  | nil => simp
  | cons first rest ih =>
      rw [shortest?] at h
      split at h
      next hnone =>
        obtain rfl := Option.some.inj h
        rw [shortest?_eq_none_iff] at hnone
        simp [hnone]
      next best hbest =>
        have hrest := ih hbest
        split at h
        next hlt =>
          obtain rfl := Option.some.inj h
          exact List.forall_mem_cons.mpr ⟨Nat.le_of_lt hlt, hrest⟩
        next hge =>
          obtain rfl := Option.some.inj h
          refine List.forall_mem_cons.mpr ⟨Nat.le_refl _, fun other hother => ?_⟩
          exact Nat.le_trans (Nat.le_of_not_lt hge) (hrest other hother)

end Form

namespace Instruction

/-- The shortest instruction that applies a mnemonic to the given operands. -/
def select? (mnemonic : Mnemonic) (operands : List Operand) : Option Instruction :=
  (Form.shortest? (Form.candidates mnemonic operands)).map fun form =>
    ⟨form, form.fit operands⟩

end Instruction

end TinyComputer
