import TinyComputer.Board.Interrupts
import TinyComputer.Processor.Arithmetic
import TinyComputer.Processor.Fault
import TinyComputer.Processor.Fetch
import TinyComputer.Processor.Operands

/-!
# Executing instructions

A step fetches the instruction at the program counter, advances the counter past it, executes it,
and then takes at most one interrupt request. An instruction that faults changes nothing: the
program counter is set back to it, and no other register and no memory has been written.
-/

namespace TinyComputer.Board

/-- Enter the handler of an interrupt line: save the return address and the flags on the stack,
disable interrupts, and jump to the vector of the line. -/
def enterInterrupt (board : Board) (returnAddress : Word) (line : Byte) : Board :=
  let board := board.push .w32 returnAddress
  -- The saved flags still have interrupts enabled, so that the return enables them again.
  let board := board.push .w32 (board.register .fl)
  let board := board.setFlags (board.flags.set .interrupts false)
  let (handler, board) := board.readValue (board.config.vectorAddress line) 4
  board.setRegister .pc handler

/-- Take one interrupt request, if interrupts are enabled and there is one. -/
def serviceInterrupt (board : Board) : Board :=
  if board.flags.get .interrupts then
    match board.takeInterrupt with
    | (none, board) => board
    | (some line, board) => board.enterInterrupt (board.register .pc) line
  else board

/-- Return from an interrupt handler: restore the flags and the program counter. -/
def leaveInterrupt (board : Board) : Board :=
  let (bits, board) := board.pop .w32
  let (target, board) := board.pop .w32
  (board.setFlags ⟨bits⟩).setRegister .pc target

/-- Replace a register by a result and describe the result in the flags, which are written first. -/
def setResult (board : Board) (r : Register) (result : ArithmeticResult) : Board :=
  (board.setResultFlags result.value result.carry result.overflow).setRegister r result.value

/-- Compare two words: the flags describe their difference and their order. -/
def compare (board : Board) (a b : Word) : Board :=
  let result := ArithmeticResult.difference a b
  let flags := board.flags.setResult result.value result.carry result.overflow
  board.setFlags (flags.setComparison (b < a) (a < b))

def pushRegister (board : Board) (r : Register) : Board :=
  board.push .w32 (board.register r)

def popInto (board : Board) (width : Width) (r : Register) : Board :=
  let (value, board) := board.pop width
  board.setRegister r value

/-- Execute a decoded instruction that was fetched at `pc`. The program counter already holds the
address of the next one. -/
def execute (board : Board) (pc : Word) (instruction : Instruction) : Option Fault × Board :=
  let width := instruction.mnemonic.accessWidth
  match instruction.mnemonic, instruction.operands with
  | .mov, [destination, source]
  | .movSized _, [destination, source] =>
      (none, board.move width instruction.form.storesThroughPointer destination source)
  | .cmp, [.register r, source] =>
      (none, board.compare (board.register r) (board.operandValue source))
  | .arithmetic op, [.register r, source] =>
      match op.result? (board.register r) (board.operandValue source) with
      | some result => (none, board.setResult r result)
      | none => (some (.divisionByZero pc), board)
  | .not, [.register r] => (none, board.setResult r { value := ~~~board.register r })
  | .inc, [.register r] => (none, board.setResult r (.sum (board.register r) 1))
  | .dec, [.register r] => (none, board.setResult r (.difference (board.register r) 1))
  | .jsr, [target] =>
      let address := board.operandValue target
      (none, (board.push .w32 (board.register .pc)).setRegister .pc address)
  | .ret, [] => (none, board.popInto .w32 .pc)
  | .sys, [line] =>
      (none, board.enterInterrupt (board.register .pc) (board.operandValue line).toUInt8)
  | .iret, [] => (none, board.leaveInterrupt)
  | .sret, [] => (none, board.leaveInterrupt)
  | .branch condition, [target] =>
      if condition.holds board.flags then
        (none, board.setRegister .pc (board.operandValue target))
      else (none, board)
  | .push _, [source] => (none, board.push width (board.operandValue source &&& width.mask))
  | .pop _, [.register r] => (none, board.popInto width r)
  | .pushAll, [] =>
      (none, Register.generalPurpose.foldl pushRegister board)
  | .popAll, [] => (none, Register.generalPurpose.reverse.foldl (popInto · .w32 ·) board)
  | .popx, [count] =>
      (none, board.setRegister .sp (board.register .sp + board.operandValue count))
  | .nop, [] => (none, board)
  | _, _ => (some (.invalidOpcode pc instruction.form.opcode), board)

/-- Execute the instruction at the program counter and take at most one interrupt request. -/
def step (board : Board) : Option Fault × Board :=
  let pc := board.register .pc
  match board.fetch pc with
  | (.error error, board) => (some (.ofDecodeError pc error), board)
  | (.ok instruction, board) =>
      let next := pc + UInt32.ofNat instruction.length
      match (board.setRegister .pc next).execute pc instruction with
      -- The counter goes back to the instruction at fault.
      | (some fault, board) => (some fault, board.setRegister .pc pc)
      | (none, board) => (none, board.serviceInterrupt)

end TinyComputer.Board
