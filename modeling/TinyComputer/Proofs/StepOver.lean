import TinyComputer.Debugger.Basic
import TinyComputer.Proofs.Calls

/-!
# Stepping over a call

Stepping over a call runs until the program counter is behind the call. The run sees places and no
calls. Where returns find the saved addresses and nothing else leads behind the call, it ends with the
return of the call that it steps over, unless a call within this one is made from the same place, which
then ends it.
-/

namespace TinyComputer

namespace Board

/-- The board after looking at the instruction at the program counter, which may take events from
a keyboard that the instruction is fetched from. -/
def looked (board : Board) : Board :=
  (board.fetch (board.register .pc)).2

theorem registers_disassemble (board : Board) (symbols : Symbols) (address : Word) :
    (board.disassemble symbols address).2.registers = board.registers := by
  have hfetch := (board.agreeButQueues_fetch address).registers_eq
  unfold disassemble
  split
  next instruction fetched heq =>
    rw [heq] at hfetch
    exact hfetch
  next error fetched heq =>
    rw [heq] at hfetch
    exact ((fetched.agreeButQueues_touch address).registers_eq).trans hfetch

end Board

namespace Debugger

variable {debugger : Debugger} {text : List Char}

theorem registers_withCurrent (debugger : Debugger) :
    (debugger.withCurrent text).2.machine.board.registers = debugger.machine.board.registers :=
  debugger.machine.board.registers_disassemble debugger.machine.symbols debugger.machine.pc

/-- An answer that begins with the instruction at the program counter says that the run stopped, and
not at a breakpoint. -/
theorem report_eq {outcome : RunOutcome}
    (h : (debugger.report outcome).1 = .ok (':' :: text)) :
    ∃ pc, outcome = .stopped pc ∧ debugger.breakpoints.contains pc = false ∧
      (debugger.report outcome).2.machine.board.registers = debugger.machine.board.registers := by
  cases outcome with
  | faulted fault => simp [report] at h
  | exhausted => simp [report, withCurrent] at h
  | stopped pc =>
      cases hcontains : debugger.breakpoints.contains pc with
      | true => simp [report, withCurrent, hcontains] at h
      | false =>
          refine ⟨pc, rfl, hcontains, ?_⟩
          simp only [report, hcontains, if_neg Bool.false_ne_true, registers_withCurrent]

/-- Such a run has taken its steps within the limit. -/
theorem run_eq {stop : Word → Bool} (h : (debugger.run stop).1 = .ok (':' :: text)) :
    ∃ count ≤ debugger.machine.board.config.runLimit,
      debugger.machine.board.StopsAfter stop count ∧
      debugger.breakpoints.contains ((debugger.machine.board.after count).register .pc) = false ∧
      (debugger.run stop).2.machine.board.registers =
        (debugger.machine.board.after count).registers := by
  obtain ⟨machine, breakpoints⟩ := debugger
  cases hrun : machine.runUntil stop machine.board.config.runLimit with
  | mk outcome final =>
      simp only [run, withMachine, hrun] at h ⊢
      obtain ⟨pc, rfl, hbreakpoint, hregisters⟩ := report_eq h
      obtain ⟨count, hcount, hstops, rfl, rfl⟩ := Machine.exists_stopsAfter_of_runUntil hrun
      exact ⟨count, hcount, hstops, hbreakpoint, hregisters⟩

/-- Stepping over a call is a run from the board that was looked at. -/
theorem stepOver_of_executes (h : debugger.machine.board.executes .jsr = true) :
    debugger.stepOver =
      Debugger.run (fun pc => pc == debugger.machine.board.behind ||
          debugger.breakpoints.contains pc)
        ⟨⟨debugger.machine.board.looked, debugger.machine.symbols⟩, debugger.breakpoints⟩ := by
  obtain ⟨⟨board, symbols⟩, breakpoints⟩ := debugger
  obtain ⟨instruction, hinstruction, hmnemonic⟩ := Board.executes_iff.mp h
  have hlooked : board.looked = (board.fetch (board.register .pc)).2 := rfl
  cases hfetch : board.fetch (board.register .pc) with
  | mk result fetched =>
      rw [Board.instruction?, hfetch] at hinstruction
      rw [hfetch] at hlooked
      cases result with
      | error error => contradiction
      | ok found =>
          obtain rfl : found = instruction := Option.some.inj hinstruction
          rw [Board.behind, Board.instruction?, hfetch, hlooked]
          simp only [stepOver, withBoard, withMachine, Machine.withBoard, Machine.pc, hfetch,
            hmnemonic, if_true, Except.toOption, Option.elim_some]

/-- Stepping over a call that is answered by the instruction at the program counter has come to the
place behind the call for the first time, from the registers that the call began with. -/
theorem stepOver_comes_back (hjsr : debugger.machine.board.executes .jsr = true)
    (hanswer : debugger.stepOver.1 = .ok (':' :: text)) :
    debugger.machine.board.looked.registers = debugger.machine.board.registers ∧
    ∃ last < debugger.machine.board.config.runLimit,
      Board.CameTo debugger.machine.board.behind debugger.machine.board.looked
        debugger.stepOver.2.machine.board last := by
  have hlooked := debugger.machine.board.agreeButQueues_fetch (debugger.machine.board.register .pc)
  refine ⟨hlooked.registers_eq, ?_⟩
  rw [stepOver_of_executes hjsr] at hanswer ⊢
  obtain ⟨count, hcount, hstops, hbreakpoint, hregisters⟩ := run_eq hanswer
  obtain ⟨last, rfl⟩ := Nat.exists_eq_add_of_lt hstops.count_pos
  rw [Nat.zero_add] at *
  refine ⟨last, hlooked.config_eq ▸ hcount, Board.cameTo_of_registers_eq hregisters ?_ ?_⟩
  · rw [Board.register, hregisters]
    have hstop := hstops.stop_eq
    rw [hbreakpoint, Bool.or_false, beq_iff_eq] at hstop
    exact hstop
  · intro k hpos hk
    have hgoes := hstops.stop_before_eq k hpos hk
    rw [Bool.or_eq_false_iff, beq_eq_false_iff_ne] at hgoes
    exact hgoes.1

/-- A machine with a program at the start of its 64 bytes of memory and the stack at their end. -/
def loaded (program : List Byte) (a pc : Word) : Debugger :=
  let board : Board :=
    { Board.empty {} with
      registers := ((RegisterFile.zero.write .a a).write .sp 0x40).write .pc pc
      bindings := #[⟨⟨0, 0x40⟩, .memory (.zeros 0x40)⟩] }
  .ofMachine ⟨board.writeBytes 0 program, .empty⟩

/-- A subroutine that calls another one. -/
def nestedCall : Debugger :=
  loaded [0x73, 0x06, 0, 0, 0, 0x87, 0x73, 0x0C, 0, 0, 0, 0x74, 0x74] 0 0

/-- A subroutine that counts down and calls itself until it comes to zero. -/
def recursion : Debugger :=
  loaded [0x5B, 0, 0x5D, 0x0D, 0, 0, 0, 0x73, 0, 0, 0, 0, 0x74, 0x74] 2 7

/-- Stepping over the outer call runs both calls and comes back. -/
theorem stepOver_comes_back_from_nested_call :
    nestedCall.machine.board.executes .jsr = true ∧
    (∃ text, nestedCall.stepOver.1 = .ok (':' :: text)) ∧
    Board.CallsFrom 5 nestedCall.machine.board.looked 4 ∧
    Board.CallsOnceFrom 5 nestedCall.machine.board.looked 4 ∧
    nestedCall.machine.board.looked.executed .jsr 4 =
      nestedCall.machine.board.looked.executed .ret 4 ∧
    nestedCall.stepOver.2.machine.board.register .sp =
      nestedCall.machine.board.looked.register .sp := by
  have hjsr : nestedCall.machine.board.executes .jsr = true := by decide +kernel
  have hanswer : nestedCall.stepOver.1 = .ok (':' :: ": PC 0x00000005 -> nop".toList) := by
    decide +kernel
  have hplace : nestedCall.machine.board.behind = 5 := by decide +kernel
  have hcalls : Board.CallsFrom 5 nestedCall.machine.board.looked 4 :=
    ⟨by decide +kernel, by decide +kernel, by decide +kernel, by decide +kernel, by decide +kernel⟩
  have honce : Board.CallsOnceFrom 5 nestedCall.machine.board.looked 4 := by
    unfold Board.CallsOnceFrom
    decide +kernel
  obtain ⟨_, last, _, hcame⟩ := stepOver_comes_back hjsr hanswer
  rw [hplace] at hcame
  obtain rfl : last = 3 := hcame.last_eq (by decide +kernel) (by decide +kernel)
  exact ⟨hjsr, ⟨_, hanswer⟩, hcalls, honce, hcame.returned hcalls honce⟩

/-- A subroutine that jumps behind its call and does not return. -/
def jumpBehind : Debugger :=
  loaded [0x73, 0x06, 0, 0, 0, 0x87, 0x71, 0x05, 0, 0, 0] 0 0

/-- A subroutine that calls another one, which overwrites the address that it was called from. -/
def overwriting : Debugger :=
  loaded [0x73, 0x06, 0, 0, 0, 0x87, 0x73, 0x0C, 0, 0, 0, 0x74, 0x1E, 0x0D, 0x05, 0, 0, 0, 0x74] 0 0

/-- Stepping over a call stops after a count of steps with an answer, while the call is open, although
the stack pointer was moved by calls and returns only. -/
structure StopsInside (debugger : Debugger) (answer : String) (count : Nat) : Prop where
  executes_jsr : debugger.machine.board.executes .jsr = true
  answer_eq : debugger.stepOver.1 = .ok answer.toList
  board_eq : debugger.stepOver.2.machine.board = debugger.machine.board.looked.after count
  moves : ∀ k < count, (debugger.machine.board.looked.after k).MovesStackByCalls
  executed_eq : debugger.machine.board.looked.executed .jsr count =
    debugger.machine.board.looked.executed .ret count + 1
  sp_eq : debugger.stepOver.2.machine.board.register .sp + 4 = debugger.machine.board.register .sp

/-- Stepping over the first call of a recursion stops behind it when the second call returns, while
the first one is still open. The place behind a call can also be reached without a return, or by a
return that does not find the address that its call saved. -/
theorem stepOver_stops_inside_call :
    recursion.StopsInside ":: PC 0x0000000C -> ret" 7 ∧
    jumpBehind.StopsInside ":: PC 0x00000005 -> nop" 2 ∧
    overwriting.StopsInside ":: PC 0x00000005 -> nop" 4 := by
  refine ⟨⟨?_, ?_, ?_, ?_, ?_, ?_⟩, ⟨?_, ?_, ?_, ?_, ?_, ?_⟩, ⟨?_, ?_, ?_, ?_, ?_, ?_⟩⟩ <;>
    decide +kernel

end Debugger

end TinyComputer
