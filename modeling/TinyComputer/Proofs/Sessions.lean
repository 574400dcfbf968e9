import TinyComputer.Proofs.FailedCommands
import TinyComputer.Proofs.Inspection

/-!
# Sessions

A session is a row of command lines. Lines that only look at the machine may be put in anywhere, as long
as they take no event from a keyboard: the machines that the lines of the session lead to stay the same.
Only the breakpoints that were set in between can be told, and only by commands that run up to them.
-/

namespace TinyComputer

/-- What happens in a session: a command line of its own is read, or something is put in to look at the
machine, which is another command line or the greeting. -/
inductive SessionEntry where
  | own (line : List Char)
  | inserted (line : List Char)
  | greeting
  deriving DecidableEq, Repr

namespace SessionEntry

/-- The command lines that belong to a session. -/
def ownLines : List SessionEntry → List (List Char)
  | [] => []
  | own line :: rest => line :: ownLines rest
  | _ :: rest => ownLines rest

theorem ownLines_map_own (lines : List (List Char)) : ownLines (lines.map own) = lines := by
  induction lines with
  | nil => rfl
  | cons line rest ih => exact congrArg (line :: ·) ih

end SessionEntry

namespace Debugger

variable {debugger : Debugger} {machine : Machine} {line : List Char}
  {entries : List SessionEntry}

/-- The own lines of a session, each with the debugger that reads it. -/
def visits (debugger : Debugger) : List SessionEntry → List (List Char × Debugger)
  | [] => []
  | .own line :: rest => (line, debugger) :: (debugger.interpret line).2.visits rest
  | .inserted line :: rest => (debugger.interpret line).2.visits rest
  | .greeting :: rest => debugger.welcome.2.visits rest

/-- The machines that the own lines of a session lead to. -/
def reached (debugger : Debugger) (entries : List SessionEntry) : List Machine :=
  (debugger.visits entries).map fun visit => (visit.2.interpret visit.1).2.machine

/-- The own lines of a session, each with the breakpoints that it finds. -/
def foundBreakpoints (debugger : Debugger) (entries : List SessionEntry) :
    List (List Char × Breakpoints) :=
  (debugger.visits entries).map fun visit => (visit.1, visit.2.breakpoints)

/-- The breakpoints that those own lines find which run the machine up to them. -/
def runBreakpoints (debugger : Debugger) (entries : List SessionEntry) : List Breakpoints :=
  ((debugger.foundBreakpoints entries).filter (calls runNames ·.1)).map Prod.snd

/-- All that was put into a session shows the machine, and takes no event from a keyboard when it is its
turn. -/
def LooksOnly (debugger : Debugger) : List SessionEntry → Prop
  | [] => True
  | .own line :: rest => (debugger.interpret line).2.LooksOnly rest
  | .inserted line :: rest =>
      calls inspectingNames line = true ∧ debugger.Quiet (debugger.lineReads line) ∧
        (debugger.interpret line).2.LooksOnly rest
  | .greeting :: rest => debugger.Quiet debugger.currentReads ∧ debugger.welcome.2.LooksOnly rest

instance decidableLooksOnly (debugger : Debugger) :
    (entries : List SessionEntry) → Decidable (debugger.LooksOnly entries)
  | [] => .isTrue trivial
  | .own line :: rest => (debugger.interpret line).2.decidableLooksOnly rest
  | .inserted line :: rest =>
      have := (debugger.interpret line).2.decidableLooksOnly rest
      inferInstanceAs (Decidable (_ ∧ _ ∧ _))
  | .greeting :: rest =>
      have := debugger.welcome.2.decidableLooksOnly rest
      inferInstanceAs (Decidable (_ ∧ _))

/-- The machines that command lines lead to when each of them is read with breakpoints that are given
with it. -/
def replay (machine : Machine) : List (List Char × Breakpoints) → List Machine
  | [] => []
  | (line, breakpoints) :: rest =>
      let after := (interpret line ⟨machine, breakpoints⟩).2.machine
      after :: replay after rest

/-! ## One entry -/

/-- A line that shows the machine and takes no event leaves the machine as it was, and the breakpoints
too unless it is about them. -/
theorem interpret_of_quiet (h : calls inspectingNames line = true)
    (hquiet : debugger.Quiet (debugger.lineReads line)) :
    (debugger.interpret line).2.machine = debugger.machine ∧
    (calls breakpointNames line = false → (debugger.interpret line).2 = debugger) := by
  have hsame := hquiet.touchAll_eq
  refine ⟨?_, ?_⟩
  · rw [machine_interpret h, hsame]
  · intro hkeeps
    rw [debugger_interpret h hkeeps, hsame]

theorem welcome_of_quiet (hquiet : debugger.Quiet debugger.currentReads) :
    debugger.welcome.2 = debugger := by
  rw [debugger_welcome, hquiet.touchAll_eq]

/-! ## Whole sessions -/

/-- Lines lead to the same machines if those of them that run the machine find the same breakpoints. -/
theorem replay_congr {first second : List (List Char × Breakpoints)}
    (hlines : first.map Prod.fst = second.map Prod.fst)
    (hruns : (first.filter (calls runNames ·.1)).map Prod.snd =
      (second.filter (calls runNames ·.1)).map Prod.snd) (machine : Machine) :
    replay machine first = replay machine second := by
  induction first generalizing second machine with
  | nil =>
      rw [List.map_nil, eq_comm, List.map_eq_nil_iff] at hlines
      rw [hlines]
  | cons found rest ih =>
      obtain ⟨line, breakpoints⟩ := found
      cases second with
      | nil => contradiction
      | cons other others =>
          obtain ⟨_, breakpoints'⟩ := other
          obtain ⟨rfl, hrest⟩ := List.cons_eq_cons.mp hlines
          rw [List.filter_cons, List.filter_cons] at hruns
          cases hcalls : calls runNames line with
          | true =>
              rw [if_pos hcalls, if_pos hcalls] at hruns
              obtain ⟨rfl, htail⟩ := List.cons_eq_cons.mp hruns
              simp only [replay, ih hrest htail]
          | false =>
              have hnot : ¬ calls runNames line = true := Bool.eq_false_iff.mp hcalls
              rw [if_neg hnot, if_neg hnot] at hruns
              simp only [replay, ih hrest hruns, machine_interpret_congr hcalls breakpoints breakpoints']

/-- What was put in is forgotten, except for the breakpoints that the own lines find. -/
theorem LooksOnly.reached_eq (h : debugger.LooksOnly entries) :
    debugger.reached entries = replay debugger.machine (debugger.foundBreakpoints entries) := by
  induction entries generalizing debugger with
  | nil => rfl
  | cons entry rest ih =>
      cases entry with
      | own line => exact congrArg (_ :: ·) (ih h)
      | inserted line =>
          obtain ⟨hinspects, hquiet, hrest⟩ := h
          rw [← (interpret_of_quiet hinspects hquiet).1]
          exact ih hrest
      | greeting =>
          obtain ⟨hquiet, hrest⟩ := h
          have hsame := welcome_of_quiet hquiet
          rw [hsame] at hrest
          simp only [reached, foundBreakpoints, visits, hsame] at ih ⊢
          exact ih hrest

theorem map_fst_foundBreakpoints (debugger : Debugger) (entries : List SessionEntry) :
    (debugger.foundBreakpoints entries).map Prod.fst = SessionEntry.ownLines entries := by
  induction entries generalizing debugger with
  | nil => rfl
  | cons entry rest ih =>
      cases entry with
      | own line => exact congrArg (line :: ·) (ih _)
      | inserted line => exact ih _
      | greeting => exact ih _

theorem looksOnly_map_own (debugger : Debugger) (lines : List (List Char)) :
    debugger.LooksOnly (lines.map .own) := by
  induction lines generalizing debugger with
  | nil => trivial
  | cons line rest ih => exact ih _

/-- Without changes to the breakpoints, nothing of what was put in can be told. -/
theorem LooksOnly.visits_eq (h : debugger.LooksOnly entries)
    (hkeeps : ∀ line, .inserted line ∈ entries → calls breakpointNames line = false) :
    debugger.visits entries = debugger.visits ((SessionEntry.ownLines entries).map .own) := by
  induction entries generalizing debugger with
  | nil => rfl
  | cons entry rest ih =>
      have hrest : ∀ line, .inserted line ∈ rest → calls breakpointNames line = false :=
        fun line hmem => hkeeps line (List.mem_cons_of_mem _ hmem)
      cases entry with
      | own line => exact congrArg (_ :: ·) (ih h hrest)
      | inserted line =>
          obtain ⟨hinspects, hquiet, hlooks⟩ := h
          have hsame := (interpret_of_quiet hinspects hquiet).2 (hkeeps line List.mem_cons_self)
          rw [hsame] at hlooks
          rw [visits, hsame]
          exact ih hlooks hrest
      | greeting =>
          obtain ⟨hquiet, hlooks⟩ := h
          have hsame := welcome_of_quiet hquiet
          rw [hsame] at hlooks
          rw [visits, hsame]
          exact ih hlooks hrest

/-- Two sessions with the same own lines lead to the same machines if their runs find the same
breakpoints. -/
theorem LooksOnly.reached_congr {others : List SessionEntry} (h : debugger.LooksOnly entries)
    (h' : debugger.LooksOnly others)
    (hlines : SessionEntry.ownLines entries = SessionEntry.ownLines others)
    (hruns : debugger.runBreakpoints entries = debugger.runBreakpoints others) :
    debugger.reached entries = debugger.reached others := by
  rw [h.reached_eq, h'.reached_eq]
  apply replay_congr
  · rw [map_fst_foundBreakpoints, map_fst_foundBreakpoints, hlines]
  · exact hruns

/-- Looking at the machine does not disturb it. A line that shows the machine, whatever its arguments
are, does to it what the bytes do that it reads. It leaves the machine as it was if none of them is taken
from the queue of a keyboard, and leaves the breakpoints unless it is about them; so does the greeting.
Such lines may be put into a session anywhere. Its own lines then lead to the machines that they lead to
when they are read one after the other with the breakpoints that they find. These are the machines of the
session without what was put in, as long as the lines that run up to breakpoints find the same of them;
and if nothing that was put in is about breakpoints, each line is read by the same debugger as without
it. -/
theorem inspection_leaves_machine (debugger : Debugger) :
    (∀ line, calls inspectingNames line = true →
      (debugger.interpret line).2.machine =
        (debugger.touchAll (debugger.lineReads line)).machine ∧
      (debugger.Quiet (debugger.lineReads line) →
        (debugger.interpret line).2.machine = debugger.machine ∧
        (calls breakpointNames line = false → (debugger.interpret line).2 = debugger))) ∧
    (debugger.Quiet debugger.currentReads → debugger.welcome.2 = debugger) ∧
    ∀ entries, debugger.LooksOnly entries →
      let alone : List SessionEntry := (SessionEntry.ownLines entries).map .own
      debugger.reached entries = replay debugger.machine (debugger.foundBreakpoints entries) ∧
      debugger.reached alone = replay debugger.machine (debugger.foundBreakpoints alone) ∧
      (debugger.runBreakpoints entries = debugger.runBreakpoints alone →
        debugger.reached entries = debugger.reached alone) ∧
      ((∀ line, .inserted line ∈ entries → calls breakpointNames line = false) →
        debugger.visits entries = debugger.visits alone) := by
  refine ⟨fun line hcalls => ⟨machine_interpret hcalls, interpret_of_quiet hcalls⟩,
    welcome_of_quiet, ?_⟩
  intro entries hlooks alone
  have halone := debugger.looksOnly_map_own (SessionEntry.ownLines entries)
  refine ⟨hlooks.reached_eq, halone.reached_eq, ?_, hlooks.visits_eq⟩
  exact hlooks.reached_congr halone (SessionEntry.ownLines_map_own _).symm

/-- A session takes the event of a keyboard and runs up to a breakpoint. Bytes next to the queue are
looked at in between, and a breakpoint is set and removed again. The machines stay the same; but a look
at the queue itself would have taken the event. -/
theorem inspection_leaves_machine_next_to_queue :
    let entries : List SessionEntry :=
      [.greeting, .own "e 0 0x87 0x87 0x87 0x87".toList, .inserted "d KBD_QUEUE_FULL 1".toList,
        .inserted "b".toList, .own "s".toList, .inserted "p 0x87 0x87".toList, .inserted "u 0".toList,
        .own "d KBD_DEQUEUE 4".toList, .inserted "r".toList, .own "c".toList]
    let alone : List SessionEntry := (SessionEntry.ownLines entries).map .own
    let look := "d KBD_QUEUE_FULL 1".toList
    let take := "d KBD_DEQUEUE 1".toList
    keyWaiting.LooksOnly entries ∧
      keyWaiting.runBreakpoints entries = keyWaiting.runBreakpoints alone ∧
      keyWaiting.reached entries = keyWaiting.reached alone ∧
      (keyWaiting.reached entries).getLast?.map Machine.pc = some 3 ∧
      calls inspectingNames look = true ∧ keyWaiting.Quiet (keyWaiting.lineReads look) ∧
      (keyWaiting.interpret look).2.machine = keyWaiting.machine ∧
      ¬ keyWaiting.Quiet (keyWaiting.lineReads take) ∧
      (keyWaiting.interpret take).2.machine ≠ keyWaiting.machine := by
  intro entries alone look take
  obtain ⟨hline, _, hsession⟩ := inspection_leaves_machine keyWaiting
  have hlooks : keyWaiting.LooksOnly entries := by decide +kernel
  have hruns : keyWaiting.runBreakpoints entries = keyWaiting.runBreakpoints alone := by
    decide +kernel
  have hcalls : calls inspectingNames look = true := by decide +kernel
  have hquiet : keyWaiting.Quiet (keyWaiting.lineReads look) := by decide +kernel
  exact ⟨hlooks, hruns, (hsession entries hlooks).2.2.1 hruns, by decide +kernel, hcalls, hquiet,
    ((hline look hcalls).2 hquiet).1, by decide +kernel, by decide +kernel⟩

end Debugger

end TinyComputer
