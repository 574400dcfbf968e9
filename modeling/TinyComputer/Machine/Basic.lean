import TinyComputer.Board.Attachment
import TinyComputer.Disassembly
import TinyComputer.Processor.Execute

/-!
# Machines

A machine is a complete computer: a board with RAM at address zero, the register bank in the first
device slot and the peripherals in the slots after it, together with the symbols of all of them. It
runs step by step, or until the program counter meets a condition.
-/

namespace TinyComputer

/-- A computer and the symbols of its devices. -/
structure Machine where
  board : Board
  symbols : Symbols
  deriving Repr

deriving noncomputable instance DecidableEq for Machine

inductive RunOutcome where
  | stopped (pc : Word)
  | exhausted
  | faulted (fault : Fault)
  deriving DecidableEq, Repr

namespace Machine

/-- Build a machine from its peripherals. -/
def build (config : Config) (peripherals : List Device) : Except AttachError Machine :=
  let ram := Device.memory (.zeros config.ramSize.toNat)
  match (Board.empty config).attach ram ⟨0, config.ramSize⟩ with
  | (.error error, _) => .error error
  | (.ok _, board) =>
      match board.addDevices (.registerBank :: peripherals) with
      | .error error => .error error
      | .ok board => .ok ⟨board, .ofBoard board⟩

def pc (machine : Machine) : Word :=
  machine.board.register .pc

def mapBoard (f : Board → Board) : Machine → Machine
  | ⟨board, symbols⟩ => ⟨f board, symbols⟩

/-- Ask something of the board of a machine that may change it. -/
def withBoard (f : Board → α × Board) : Machine → α × Machine
  | ⟨board, symbols⟩ =>
      let (answer, board) := f board
      (answer, ⟨board, symbols⟩)

/-- Execute one instruction and take at most one interrupt request. -/
def step (machine : Machine) : Option Fault × Machine :=
  machine.withBoard Board.step

/-- Reset every device, which clears RAM and the registers. -/
def reset (machine : Machine) : Machine :=
  machine.mapBoard Board.reset

/-- Disassemble what is at an address. -/
def disassemble (machine : Machine) (address : Word) : DisassemblyRow × Machine :=
  match machine with
  | ⟨board, symbols⟩ =>
      let (row, board) := board.disassemble symbols address
      (row, ⟨board, symbols⟩)

/-- Execute steps until `stop` holds for the program counter after a step, the steps run out, or one
of them faults. The condition is not asked before the first step, so that a run that starts where it
holds moves on. -/
def runUntil (stop : Word → Bool) (machine : Machine) : (limit : Nat) → RunOutcome × Machine
  | 0 => (.exhausted, machine)
  | limit + 1 =>
      match machine.step with
      | (some fault, machine) => (.faulted fault, machine)
      | (none, machine) =>
          let pc := machine.pc
          if stop pc then (.stopped pc, machine) else machine.runUntil stop limit

end Machine

end TinyComputer
