import TinyComputer.Machine.Basic

/-!
# Runs

A run is a row of steps that completes an instruction each. It stops where the condition on the
program counter holds after a step for the first time, so the place where it stops and the count of
its steps are told by the boards that the steps lead through.
-/

namespace TinyComputer

namespace Board

/-- The board after a count of steps. -/
def after (board : Board) : (count : Nat) → Board
  | 0 => board
  | count + 1 => (board.after count).step.2

theorem after_succ (board : Board) (count : Nat) :
    board.after (count + 1) = (board.after count).step.2 := rfl

/-- The first step may be taken apart as well as the last one. -/
theorem after_step (board : Board) (count : Nat) :
    board.step.2.after count = board.after (count + 1) := by
  induction count with
  | zero => rfl
  | succ count ih => exact congrArg (fun reached => reached.step.2) ih

/-- A run stops after a count of steps: the condition holds after the last of them and after none
before it. -/
structure StopsAfter (stop : Word → Bool) (board : Board) (count : Nat) : Prop where
  count_pos : 0 < count
  completes : ∀ k < count, (board.after k).step.1 = none
  stop_eq : stop ((board.after count).register .pc) = true
  stop_before_eq : ∀ k, 0 < k → k < count → stop ((board.after k).register .pc) = false

theorem stopsAfter_one {stop : Word → Bool} {board : Board} (hstep : board.step.1 = none)
    (hstop : stop (board.step.2.register .pc) = true) : board.StopsAfter stop 1 where
  count_pos := Nat.one_pos
  completes := fun k hk => by rwa [Nat.lt_one_iff.mp hk]
  stop_eq := hstop
  stop_before_eq := fun k hpos hk => absurd hk (Nat.not_lt.mpr hpos)

/-- A run that does not stop after its first step goes on as a run from there. -/
theorem StopsAfter.cons {stop : Word → Bool} {board : Board} {count : Nat}
    (h : board.step.2.StopsAfter stop count) (hstep : board.step.1 = none)
    (hstop : stop (board.step.2.register .pc) = false) : board.StopsAfter stop (count + 1) := by
  refine ⟨Nat.succ_pos count, ?_, ?_, ?_⟩
  · intro k hk
    cases k with
    | zero => exact hstep
    | succ k =>
        rw [← after_step]
        exact h.completes k (Nat.lt_of_succ_lt_succ hk)
  · rw [← after_step]
    exact h.stop_eq
  · intro k _ hk
    cases k with
    | zero => contradiction
    | succ k =>
        rw [← after_step]
        cases k with
        | zero => exact hstop
        | succ k => exact h.stop_before_eq (k + 1) (Nat.succ_pos k) (Nat.lt_of_succ_lt_succ hk)

end Board

namespace Machine

theorem step_eq (machine : Machine) :
    machine.step = (machine.board.step.1, ⟨machine.board.step.2, machine.symbols⟩) := by
  rfl

theorem runUntil_zero (stop : Word → Bool) (machine : Machine) :
    machine.runUntil stop 0 = (.exhausted, machine) := rfl

theorem runUntil_succ (stop : Word → Bool) (machine : Machine) (limit : Nat) :
    machine.runUntil stop (limit + 1) =
      match machine.step with
      | (some fault, machine) => (.faulted fault, machine)
      | (none, machine) =>
          if stop machine.pc then (.stopped machine.pc, machine)
          else machine.runUntil stop limit := by
  rfl

/-- A run that stops has taken its steps within the limit. -/
theorem exists_stopsAfter_of_runUntil {stop : Word → Bool} {machine final : Machine} {limit : Nat}
    {pc : Word} (h : machine.runUntil stop limit = (.stopped pc, final)) :
    ∃ count ≤ limit, machine.board.StopsAfter stop count ∧
      final = ⟨machine.board.after count, machine.symbols⟩ ∧ pc = final.pc := by
  induction limit generalizing machine with
  | zero =>
      rw [runUntil_zero] at h
      cases h
  | succ limit ih =>
      rw [runUntil_succ, step_eq] at h
      cases hstep : machine.board.step.1 with
      | some fault =>
          simp only [hstep] at h
          cases h
      | none =>
          simp only [hstep] at h
          split at h
          next hstop =>
            obtain ⟨rfl, rfl⟩ : _ ∧ _ := by simpa using h
            exact ⟨1, Nat.succ_pos limit, Board.stopsAfter_one hstep hstop, rfl, rfl⟩
          next hgoes =>
            obtain ⟨count, hcount, hstops, hfinal, hpc⟩ := ih h
            refine ⟨count + 1, Nat.succ_le_succ hcount, ?_, ?_, hpc⟩
            · exact hstops.cons hstep (Bool.eq_false_iff.mpr hgoes)
            · rw [hfinal, ← Board.after_step]

end Machine

end TinyComputer
