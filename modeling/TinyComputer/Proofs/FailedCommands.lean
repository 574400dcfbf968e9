import Mathlib.Data.List.Basic
import TinyComputer.Debugger.Basic

/-!
# Commands that fail

Reading a command line comes before anything is done, so a line that cannot be read changes nothing.
Of the commands that were read, only those that step the machine can fail after they changed something,
and what they fail with is a fault; the others always succeed, except that a breakpoint can be removed
only where there is one.
-/

namespace TinyComputer.Debugger

variable {debugger : Debugger} {command : Command} {error : CommandError}

/-! ## Errors of commands that run the machine -/

/-- Showing the current instruction does not fail. -/
theorem withCurrent_ne_error (text : List Char) (debugger : Debugger) (error : CommandError) :
    (debugger.withCurrent text).1 ≠ .error error := by
  simp [withCurrent]

theorem exists_fault_of_step (h : debugger.step.1 = .error error) : ∃ fault, error = .fault fault := by
  unfold step at h
  split at h
  next fault _ _ => exact ⟨fault, (Except.error.inj h).symm⟩
  next => exact absurd h (withCurrent_ne_error _ _ _)

theorem exists_fault_of_report {outcome : RunOutcome}
    (h : (debugger.report outcome).1 = .error error) : ∃ fault, error = .fault fault := by
  cases outcome with
  | faulted fault => exact ⟨fault, (Except.error.inj h).symm⟩
  | exhausted => exact absurd h (withCurrent_ne_error _ _ _)
  | stopped pc =>
      unfold report at h
      simp only at h
      split at h
      · exact absurd h (withCurrent_ne_error _ _ _)
      · exact absurd h (withCurrent_ne_error _ _ _)

theorem exists_fault_of_run {stop : Word → Bool} (h : (debugger.run stop).1 = .error error) :
    ∃ fault, error = .fault fault :=
  exists_fault_of_report h

theorem exists_fault_of_stepOver (h : debugger.stepOver.1 = .error error) :
    ∃ fault, error = .fault fault := by
  unfold stepOver at h
  simp only at h
  split at h
  · split at h
    · exact exists_fault_of_run h
    · exact exists_fault_of_step h
  · exact exists_fault_of_step h

/-! ## Errors of all commands -/

/-- Of the commands that were read, one fails with something else than a fault: the removal of a
breakpoint that is not there. -/
theorem execute_eq_error_iff (hfault : ∀ fault, error ≠ .fault fault) :
    (debugger.execute command).1 = .error error ↔
      ∃ address, command = .clearBreakpoint address ∧
        debugger.breakpoints.contains address = false ∧ error = .noBreakpoint address := by
  constructor
  · intro h
    have hruns : ¬ ∃ fault, error = .fault fault := fun ⟨fault, heq⟩ => hfault fault heq
    cases command with
    | step => exact absurd (exists_fault_of_step h) hruns
    | stepOver => exact absurd (exists_fault_of_stepOver h) hruns
    | continueRun => exact absurd (exists_fault_of_run h) hruns
    | registers => exact absurd h (withCurrent_ne_error _ _ _)
    | clearBreakpoint address =>
        simp only [execute, clearBreakpoint] at h
        split at h
        next => contradiction
        next hcontains =>
          exact ⟨address, rfl, Bool.eq_false_iff.mpr hcontains, (Except.error.inj h).symm⟩
    | search pattern =>
        simp only [execute, search] at h
        split at h <;> contradiction
    | _ => simp [execute, setBreakpoint, list, assemble, dump, enter, fill, copy] at h
  · rintro ⟨address, rfl, hcontains, rfl⟩
    simp [execute, clearBreakpoint, hcontains]

/-! ## Errors of command lines -/

/-- A line is refused with an error: it cannot be read, or it asks to remove a breakpoint that is not
there. -/
def Refuses (debugger : Debugger) (line : List Char) (error : CommandError) : Prop :=
  ∃ name arguments, Text.words line = name :: arguments ∧
    (Command.parse debugger.context name arguments = .error error ∨
      ∃ address, Command.parse debugger.context name arguments = .ok (.clearBreakpoint address) ∧
        debugger.breakpoints.contains address = false ∧ error = .noBreakpoint address)

theorem interpret_eq_error_iff {line : List Char} (hfault : ∀ fault, error ≠ .fault fault) :
    (debugger.interpret line).1 = .error error ↔ debugger.Refuses line error := by
  unfold interpret Refuses
  cases hwords : Text.words line with
  | nil => simp
  | cons name arguments =>
      simp only [List.cons.injEq, and_assoc, exists_and_left, exists_eq_left']
      cases hparse : Command.parse debugger.context name arguments with
      | error cause => simp
      | ok command => simp [execute_eq_error_iff hfault]

theorem interpret_of_refuses {line : List Char} (h : debugger.Refuses line error) :
    debugger.interpret line = (.error error, debugger) := by
  obtain ⟨name, arguments, hwords, hparse | ⟨address, hparse, hcontains, rfl⟩⟩ := h
  · simp only [interpret, hwords, hparse]
  · simp only [interpret, hwords, hparse, execute, clearBreakpoint, hcontains]
    rfl

/-- A command line that fails, and not with a fault, changes nothing: neither the machine with its
registers, memory and devices nor the breakpoints. It is answered by the text of the error. So fail
exactly the lines that are refused when they are read, whichever argument of whichever command is
missing or wrong, and removals of breakpoints that are not there. -/
theorem interpret_failed_unchanged (debugger : Debugger) (line : List Char)
    (hfault : ∀ fault, error ≠ .fault fault) :
    ((debugger.interpret line).1 = .error error →
      (debugger.interpret line).2 = debugger ∧
      debugger.respond line = (error.reply.toList, debugger)) ∧
    ((debugger.interpret line).1 = .error error ↔ debugger.Refuses line error) := by
  refine ⟨?_, interpret_eq_error_iff hfault⟩
  intro h
  have hanswer := interpret_of_refuses ((interpret_eq_error_iff hfault).mp h)
  refine ⟨by rw [hanswer], ?_⟩
  simp only [respond, hanswer]

/-- A machine with 64 bytes of memory and a keyboard whose program has not read its only event. -/
def keyWaiting : Debugger :=
  let board : Board :=
    { Board.empty { ramSize := 0x40 } with
      bindings :=
        #[⟨⟨0, 0x40⟩, .memory (.zeros 0x40)⟩, ⟨⟨0x1000, 0x100⟩, .keyboard { queue := [7] }⟩] }
  ⟨⟨board, .ofBoard board⟩, Breakpoints.empty.insert 3⟩

/-- A copy from the queue of the keyboard is too large by one byte. It has read both of its addresses
by then, but nothing of the block, so the event waits on. -/
theorem interpret_failed_unchanged_of_large_copy :
    let line := "y KBD_DEQUEUE 0x10 0x41".toList
    (∀ fault, CommandError.sizeTooLarge 0x41 0x40 ≠ .fault fault) ∧
      (keyWaiting.interpret line).1 = .error (.sizeTooLarge 0x41 0x40) ∧
      (keyWaiting.interpret line).2 = keyWaiting ∧
      (keyWaiting.respond line).1 = "error: block size 0x41 is larger than 0x40".toList ∧
      keyWaiting.Refuses line (.sizeTooLarge 0x41 0x40) := by
  intro line
  have hfault : ∀ fault, CommandError.sizeTooLarge 0x41 0x40 ≠ .fault fault := by simp
  have herror : (keyWaiting.interpret line).1 = .error (.sizeTooLarge 0x41 0x40) := by
    decide +kernel
  obtain ⟨hunchanged, hrefuses⟩ := keyWaiting.interpret_failed_unchanged line hfault
  obtain ⟨hsame, hanswer⟩ := hunchanged herror
  exact ⟨hfault, herror, hsame, by rw [hanswer]; decide +kernel, hrefuses.mp herror⟩

end TinyComputer.Debugger
