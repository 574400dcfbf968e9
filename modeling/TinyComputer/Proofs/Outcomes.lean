import Mathlib.Data.List.Forall2

/-!
# Outcomes

A computation that may fail ends with a value or with an error. Where it is put together of others, its
outcome is told by theirs: a value needs a value of every part, and an error comes from one of them.
-/

namespace TinyComputer

section Except

variable {ε ε' α β : Type} {result : Except ε α}

theorem except_map_eq_ok_iff {f : α → β} {value : β} :
    result.map f = .ok value ↔ ∃ inner, result = .ok inner ∧ f inner = value := by
  cases result <;> simp [Except.map]

theorem except_map_eq_error_iff {f : α → β} {error : ε} :
    result.map f = .error error ↔ result = .error error := by
  cases result <;> simp [Except.map]

theorem except_mapError_map {f : α → β} {g : ε → ε'} (result : Except ε α) :
    (result.map f).mapError g = (result.mapError g).map f := by
  cases result <;> rfl

theorem except_mapError_eq_ok_iff {g : ε → ε'} {value : α} :
    result.mapError g = .ok value ↔ result = .ok value := by
  cases result <;> simp [Except.mapError]

theorem except_mapError_eq_error_iff {g : ε → ε'} {error : ε'} :
    result.mapError g = .error error ↔ ∃ cause, result = .error cause ∧ g cause = error := by
  cases result <;> simp [Except.mapError]

/-- A computation that goes on succeeds if both of its parts do. -/
theorem except_bind_eq_ok_iff {f : α → Except ε β} {value : β} :
    (result >>= f) = .ok value ↔ ∃ inner, result = .ok inner ∧ f inner = .ok value := by
  cases result <;> simp [bind, Except.bind]

/-- A list is read when each of its elements is. -/
theorem except_mapM_cons_eq_ok_iff {f : α → Except ε β} {first : α} {rest : List α}
    {values : List β} :
    (first :: rest).mapM f = .ok values ↔
      ∃ value others, f first = .ok value ∧ rest.mapM f = .ok others ∧ value :: others = values := by
  rw [List.mapM_cons]
  cases f first with
  | error error => simp [bind, Except.bind]
  | ok value => cases rest.mapM f <;> simp [bind, Except.bind, pure, Except.pure]

end Except

theorem option_mapM_eq_some_iff {α β : Type} {f : α → Option β} {elements : List α}
    {values : List β} :
    elements.mapM f = some values ↔
      List.Forall₂ (fun element value => f element = some value) elements values := by
  induction elements generalizing values with
  | nil => cases values <;> simp
  | cons first rest ih =>
      rw [List.mapM_cons, List.forall₂_cons_left_iff]
      simp only [Option.bind_eq_bind, Option.bind_eq_some_iff, ih, Option.pure_def,
        Option.some.injEq]
      constructor
      · rintro ⟨value, hvalue, others, hothers, rfl⟩
        exact ⟨value, others, hvalue, hothers, rfl⟩
      · rintro ⟨value, others, hvalue, hothers, rfl⟩
        exact ⟨value, hvalue, others, hothers, rfl⟩

end TinyComputer
