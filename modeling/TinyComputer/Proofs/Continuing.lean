import TinyComputer.Proofs.Inspection
import TinyComputer.Proofs.Reset
import TinyComputer.Proofs.Runs

/-!
# Continuing from breakpoint to breakpoint

A run with a limit goes on where a run with a smaller limit was cut off. A command that continues is such
a run: it takes the machine along the boards that single steps lead through, up to the next of them at a
breakpoint, or as far as the limit allows. So commands that continue, one after the other, stop at every
breakpoint that the machine comes to, once for each time that it comes there.
-/

namespace TinyComputer

namespace Board

theorem after_add (board : Board) (first second : Nat) :
    (board.after first).after second = board.after (first + second) := by
  induction second with
  | zero => rfl
  | succ second ih => exact congrArg (fun reached => reached.step.2) ih

theorem config_after (board : Board) (count : Nat) : (board.after count).config = board.config := by
  induction count with
  | zero => rfl
  | succ count ih =>
      have hblank : (board.after (count + 1)).blank.config = (board.after count).blank.config :=
        congrArg config ((blank_kept (board.after count)).step rfl)
      exact hblank.trans ih

end Board

namespace Machine

variable {machine : Machine} {stop : Word → Bool} {count limit : Nat}

/-- The machine after a count of steps. -/
def after (machine : Machine) (count : Nat) : Machine :=
  ⟨machine.board.after count, machine.symbols⟩

theorem runUntil_succ_of_completes (hstep : machine.board.step.1 = none) :
    machine.runUntil stop (limit + 1) =
      if stop (machine.after 1).pc then (.stopped (machine.after 1).pc, machine.after 1)
      else (machine.after 1).runUntil stop limit := by
  rw [runUntil_succ, step_eq, hstep]
  rfl

/-- A run is a run with a part of the limit, and if that is used up, a run with the rest of it from
where the first one came to. -/
theorem runUntil_add (stop : Word → Bool) (machine : Machine) (first second : Nat) :
    machine.runUntil stop (first + second) =
      match machine.runUntil stop first with
      | (.exhausted, reached) => reached.runUntil stop second
      | ended => ended := by
  induction first generalizing machine with
  | zero => rw [Nat.zero_add, runUntil_zero]
  | succ first ih =>
      rw [Nat.add_right_comm, runUntil_succ, runUntil_succ]
      cases machine.step with
      | mk fault reached =>
          cases fault with
          | some fault => rfl
          | none =>
              simp only
              split
              · rfl
              · exact ih reached

/-- A run that meets the condition nowhere takes all of its steps. -/
theorem runUntil_of_never (hcompletes : ∀ k < limit, (machine.board.after k).step.1 = none)
    (hgoes : ∀ k, 0 < k → k ≤ limit → stop (machine.after k).pc = false) :
    machine.runUntil stop limit = (.exhausted, machine.after limit) := by
  induction limit with
  | zero => rfl
  | succ limit ih =>
      have hstep : (machine.after limit).board.step.1 = none := hcompletes limit (Nat.lt_succ_self _)
      have hlast : stop ((machine.after limit).after 1).pc = false :=
        hgoes (limit + 1) (Nat.succ_pos _) (Nat.le_refl _)
      have hfirst := ih (fun k hk => hcompletes k (Nat.lt_succ_of_lt hk))
        (fun k hpos hk => hgoes k hpos (Nat.le_succ_of_le hk))
      rw [runUntil_add, hfirst]
      simp only
      rw [runUntil_succ_of_completes hstep, hlast, if_neg Bool.false_ne_true]
      rfl

/-- A run stops where the condition holds for the first time, if the limit allows for it. -/
theorem runUntil_of_stopsAfter (h : machine.board.StopsAfter stop count) (hcount : count ≤ limit) :
    machine.runUntil stop limit = (.stopped (machine.after count).pc, machine.after count) := by
  obtain ⟨last, rfl⟩ := Nat.exists_eq_succ_of_ne_zero (Nat.ne_of_gt h.count_pos)
  obtain ⟨rest, rfl⟩ := Nat.exists_eq_add_of_le hcount
  have hstep : (machine.after last).board.step.1 = none := h.completes last (Nat.lt_succ_self _)
  have hlast : stop ((machine.after last).after 1).pc = true := h.stop_eq
  have hfirst : machine.runUntil stop last = (.exhausted, machine.after last) := by
    apply runUntil_of_never
    · exact fun k hk => h.completes k (Nat.lt_succ_of_lt hk)
    · exact fun k hpos hk => h.stop_before_eq k hpos (Nat.lt_succ_of_le hk)
  rw [Nat.succ_add_eq_add_succ, runUntil_add, hfirst]
  simp only
  rw [runUntil_succ_of_completes hstep, hlast, if_pos rfl]
  rfl

end Machine

namespace Debugger

variable {debugger : Debugger} {count : Nat}

/-- The debugger after its machine made a count of steps. -/
def after (debugger : Debugger) (count : Nat) : Debugger :=
  ⟨debugger.machine.after count, debugger.breakpoints⟩

theorem after_add (debugger : Debugger) (first second : Nat) :
    (debugger.after first).after second = debugger.after (first + second) := by
  simp only [after, Machine.after, Board.after_add]

def atBreakpoint (debugger : Debugger) : Bool :=
  debugger.breakpoints.contains debugger.machine.pc

/-- The most steps that a command takes. -/
def limit (debugger : Debugger) : Nat :=
  debugger.machine.board.config.runLimit

theorem limit_after (debugger : Debugger) (count : Nat) :
    (debugger.after count).limit = debugger.limit :=
  congrArg Config.runLimit (debugger.machine.board.config_after count)

/-- The answer of a command that leaves the machine as it is now, with the current instruction. -/
def shown (text : String) (debugger : Debugger) : Answer × Debugger :=
  (.ok (text.toList ++ debugger.currentInstruction.1), debugger)

theorem withCurrent_of_quiet (h : debugger.Quiet debugger.currentReads) (text : String) :
    debugger.withCurrent text.toList = debugger.shown text := by
  have hsame := (debugger_withCurrent text.toList debugger).trans h.touchAll_eq
  exact Prod.ext rfl hsame

/-- To continue is to run until the machine is at a breakpoint, and to report where it came to. -/
theorem interpret_continue {outcome : RunOutcome} {reached : Machine}
    (h : debugger.machine.runUntil debugger.breakpoints.contains debugger.limit =
      (outcome, reached)) :
    debugger.interpret ['c'] = report outcome ⟨reached, debugger.breakpoints⟩ := by
  have hreads : debugger.interpret ['c'] = debugger.continueRun := rfl
  obtain ⟨machine, breakpoints⟩ := debugger
  simp only [limit] at h
  simp only [hreads, continueRun, run, withMachine, h]

/-- A command that continues stops at the next breakpoint, if the limit allows for it. -/
theorem continue_of_breakpoint (hpos : 0 < count) (hlimit : count ≤ debugger.limit)
    (hcompletes : ∀ k < count, (debugger.machine.board.after k).step.1 = none)
    (hbetween : ∀ k, 0 < k → k < count → (debugger.after k).atBreakpoint = false)
    (hthere : (debugger.after count).atBreakpoint = true)
    (hquiet : (debugger.after count).Quiet (debugger.after count).currentReads) :
    debugger.interpret ['c'] = (debugger.after count).shown "breakpoint reached\n" := by
  have hstops : debugger.machine.board.StopsAfter debugger.breakpoints.contains count :=
    ⟨hpos, hcompletes, hthere, hbetween⟩
  rw [interpret_continue (Machine.runUntil_of_stopsAfter hstops hlimit),
    ← withCurrent_of_quiet hquiet]
  exact if_pos hthere

/-- Where there is no breakpoint within the limit, it takes as many steps as the limit says. -/
theorem continue_of_no_breakpoint (debugger : Debugger)
    (hcompletes : ∀ k < debugger.limit, (debugger.machine.board.after k).step.1 = none)
    (hbetween : ∀ k, 0 < k → k ≤ debugger.limit → (debugger.after k).atBreakpoint = false)
    (hquiet : (debugger.after debugger.limit).Quiet (debugger.after debugger.limit).currentReads) :
    debugger.interpret ['c'] = (debugger.after debugger.limit).shown
      ("stopped after " ++ toString debugger.limit ++ " steps\n") := by
  have hreport : report .exhausted (debugger.after debugger.limit) =
      (debugger.after debugger.limit).withCurrent
        ("stopped after " ++ toString (debugger.after debugger.limit).limit ++ " steps\n").toList := rfl
  rw [limit_after] at hreport
  rw [interpret_continue (Machine.runUntil_of_never hcompletes hbetween),
    ← withCurrent_of_quiet hquiet]
  exact hreport

/-! ## Commands one after the other -/

/-- The counts of steps, after a first one and up to a last one, that bring the machine to a breakpoint. -/
def hits (debugger : Debugger) (first last : Nat) : List Nat :=
  (List.range' (first + 1) (last - first)).filter fun count => (debugger.after count).atBreakpoint

/-- Continue a count of times. -/
def continues (debugger : Debugger) : (count : Nat) → List (Answer × Debugger)
  | 0 => []
  | count + 1 =>
      let answered := debugger.interpret ['c']
      answered :: answered.2.continues count

variable {first last hit : Nat} {rest : List Nat}

theorem hits_eq_nil_iff :
    debugger.hits first last = [] ↔
      ∀ count, first < count → count ≤ last → (debugger.after count).atBreakpoint = false := by
  simp only [hits, List.filter_eq_nil_iff, List.mem_range'_1, Bool.not_eq_true]
  constructor
  · intro h count hfirst hlast
    exact h count ⟨hfirst, by omega⟩
  · intro h count hcount
    exact h count (by omega) (by omega)

/-- Behind the first breakpoint come those that are after it. -/
theorem hits_eq_cons (h : debugger.hits first last = hit :: rest) :
    first < hit ∧ hit ≤ last ∧ (debugger.after hit).atBreakpoint = true ∧
      (∀ count, first < count → count < hit → (debugger.after count).atBreakpoint = false) ∧
      debugger.hits hit last = rest := by
  obtain ⟨before, behind, hrange, hbefore, hthere, hrest⟩ := List.filter_eq_cons_iff.mp h
  obtain ⟨skipped, hle, rfl, hbehind⟩ := List.range'_eq_append_iff.mp hrange
  obtain ⟨hhit, hroom, rfl⟩ := List.range'_eq_cons_iff.mp hbehind.symm
  have hlast : last - first - skipped - 1 = last - hit := by omega
  refine ⟨by omega, by omega, hthere, ?_, ?_⟩
  · intro count hfirst hcount
    exact Bool.eq_false_iff.mpr (hbefore count (List.mem_range'_1.mpr (by omega)))
  · rw [hits, ← hlast]
    exact hrest

/-- All steps that a machine makes complete an instruction, and to show the current instruction takes no
event wherever it comes to, as far as a count of steps. -/
structure GoesThrough (debugger : Debugger) (steps : Nat) : Prop where
  completes : ∀ count < steps, (debugger.after count).machine.board.step.1 = none
  quiet : ∀ count ≤ steps, (debugger.after count).Quiet (debugger.after count).currentReads

namespace GoesThrough

variable {steps : Nat}

theorem step_eq_none (h : debugger.GoesThrough steps) (hle : first + count ≤ steps) :
    ∀ k < count, ((debugger.after first).machine.board.after k).step.1 = none := by
  intro k hk
  have hcompletes := h.completes (first + k) (by omega)
  rwa [← after_add] at hcompletes

/-- From wherever the machine came to, the next command that continues stops at the first breakpoint
after it. -/
theorem interpret_of_hit (h : debugger.GoesThrough steps)
    (hhits : debugger.hits first steps = hit :: rest) (hlimit : hit ≤ first + debugger.limit) :
    (debugger.after first).interpret ['c'] = (debugger.after hit).shown "breakpoint reached\n" := by
  obtain ⟨hfirst, hlast, hthere, hbetween, _⟩ := hits_eq_cons hhits
  obtain ⟨count, rfl⟩ := Nat.exists_eq_add_of_lt hfirst
  rw [Nat.add_assoc] at hthere hlast hlimit hbetween ⊢
  rw [← after_add] at hthere ⊢
  apply continue_of_breakpoint (Nat.succ_pos count)
  · rw [limit_after]
    omega
  · exact h.step_eq_none hlast
  · intro k hpos hk
    rw [after_add]
    exact hbetween (first + k) (by omega) (by omega)
  · exact hthere
  · rw [after_add]
    exact h.quiet _ hlast

theorem interpret_of_no_hit (h : debugger.GoesThrough steps)
    (hlimit : first + debugger.limit ≤ steps)
    (hhits : debugger.hits first (first + debugger.limit) = []) :
    (debugger.after first).interpret ['c'] = (debugger.after (first + debugger.limit)).shown
      ("stopped after " ++ toString debugger.limit ++ " steps\n") := by
  have hcontinue := (debugger.after first).continue_of_no_breakpoint
  rw [limit_after, after_add] at hcontinue
  apply hcontinue
  · exact h.step_eq_none hlimit
  · intro k hpos hk
    rw [after_add]
    exact hits_eq_nil_iff.mp hhits (first + k) (by omega) (by omega)
  · exact h.quiet _ hlimit

/-- As long as the limit reaches from each breakpoint to the next one, commands that continue stop at
each of them in turn. -/
theorem continues_eq (h : debugger.GoesThrough steps)
    (hgaps : List.IsChain (fun earlier later => later ≤ earlier + debugger.limit)
      (first :: debugger.hits first steps)) :
    (debugger.after first).continues (debugger.hits first steps).length =
      (debugger.hits first steps).map fun hit =>
        (debugger.after hit).shown "breakpoint reached\n" := by
  generalize hhits : debugger.hits first steps = found at hgaps
  induction found generalizing first with
  | nil => rfl
  | cons hit rest ih =>
      obtain ⟨hgap, hrest⟩ := List.isChain_cons_cons.mp hgaps
      have hbehind := (hits_eq_cons hhits).2.2.2.2
      rw [List.length_cons, continues, h.interpret_of_hit hhits hgap, List.map_cons]
      exact congrArg (_ :: ·) (ih hbehind hrest)

end GoesThrough

/-- Continuing visits each breakpoint that the machine comes to, each time that it comes there, and stops
nowhere else. Take a machine whose next steps complete their instructions, and where showing the current
instruction takes no event. From after any of these steps, as many commands that continue as there are
later steps that lead to a breakpoint leave the machine after these steps, in their order, as long as
none of them is farther from the one before it than the limit allows. Where the next one is farther away,
the command reports the limit, and leaves the machine after exactly as many steps, so that the next one
goes on from there. In general a run is a run with a part of its limit, and if it is not over then, a run
with the rest of the limit from where that one came to. -/
theorem continuing_visits_breakpoints {steps : Nat} (h : debugger.GoesThrough steps) :
    (∀ first, List.IsChain (fun earlier later => later ≤ earlier + debugger.limit)
        (first :: debugger.hits first steps) →
      (debugger.after first).continues (debugger.hits first steps).length =
        (debugger.hits first steps).map fun hit =>
          (debugger.after hit).shown "breakpoint reached\n") ∧
    (∀ first, first + debugger.limit ≤ steps →
      debugger.hits first (first + debugger.limit) = [] →
      (debugger.after first).interpret ['c'] = (debugger.after (first + debugger.limit)).shown
        ("stopped after " ++ toString debugger.limit ++ " steps\n")) ∧
    ∀ (machine : Machine) (stop : Word → Bool) (part rest : Nat),
      machine.runUntil stop (part + rest) =
        match machine.runUntil stop part with
        | (.exhausted, reached) => reached.runUntil stop rest
        | ended => ended := by
  refine ⟨fun first hgaps => h.continues_eq hgaps, ?_, ?_⟩
  · intro first hlimit hhits
    exact h.interpret_of_no_hit hlimit hhits
  · intro machine stop part rest
    exact machine.runUntil_add stop part rest

/-- A loop of two instructions and a jump back, with breakpoints at the two and a limit of two steps. -/
def loop : Debugger :=
  let board : Board :=
    { Board.empty { runLimit := 2 } with bindings := #[⟨⟨0, 8⟩, .memory (.zeros 8)⟩] }
  ⟨⟨board.writeBytes 0 [0x87, 0x87, 0x71, 0, 0, 0, 0], .empty⟩, (Breakpoints.empty.insert 0).insert 1⟩

/-- Continuing goes round in the loop and stops at both breakpoints each time, although it starts at the
first of them. Without breakpoints in the loop it takes two steps. -/
theorem continuing_visits_breakpoints_in_loop :
    let free : Debugger := ⟨loop.machine, Breakpoints.empty.insert 5⟩
    loop.GoesThrough 7 ∧ loop.hits 0 7 = [1, 3, 4, 6, 7] ∧
      loop.continues 5 =
        [1, 3, 4, 6, 7].map (fun hit => (loop.after hit).shown "breakpoint reached\n") ∧
      (loop.continues 5).map (·.2.machine.pc) = [1, 0, 1, 0, 1] ∧
      free.GoesThrough 4 ∧ free.hits 0 2 = [] ∧
      free.interpret ['c'] = (free.after 2).shown "stopped after 2 steps\n" := by
  intro free
  have hloop : loop.GoesThrough 7 := ⟨by decide +kernel, by decide +kernel⟩
  have hfree : free.GoesThrough 4 := ⟨by decide +kernel, by decide +kernel⟩
  have hhits : loop.hits 0 7 = [1, 3, 4, 6, 7] := by decide +kernel
  have hnone : free.hits 0 2 = [] := by decide +kernel
  have hvisits := (continuing_visits_breakpoints hloop).1 0
  have hlimit := (continuing_visits_breakpoints hfree).2.1 0
  have htwo : loop.limit = 2 := by decide +kernel
  have htwo' : free.limit = 2 := by decide +kernel
  have htext : "stopped after " ++ toString 2 ++ " steps\n" = "stopped after 2 steps\n" := by decide
  rw [hhits, htwo] at hvisits
  rw [htwo', htext] at hlimit
  exact ⟨hloop, hhits, hvisits (by decide), by decide +kernel, hfree, hnone,
    hlimit (by decide) hnone⟩

end Debugger

end TinyComputer
