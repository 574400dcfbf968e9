import TinyComputer.Board.Access
import TinyComputer.Instruction.Operand

/-!
# Stack and operands

How instructions reach registers and memory. The stack grows downwards from the stack pointer, with
entries of one, two or four bytes. Indirect operands stand for memory; in a store to a fixed
address, every fixed address is the place of a pointer to that memory.
-/

namespace TinyComputer.Board

/-- Push the low bytes of a value on the stack. -/
def push (board : Board) (width : Width) (value : Word) : Board :=
  let sp := board.register .sp - UInt32.ofNat width.bytes
  (board.setRegister .sp sp).writeValue sp width.bytes value

def pop (board : Board) (width : Width) : Word × Board :=
  let sp := board.register .sp
  let (value, board) := board.readValue sp width.bytes
  (value, board.setRegister .sp (sp + UInt32.ofNat width.bytes))

def setResultFlags (board : Board) (result : Word) (carry overflow : Bool) : Board :=
  board.setFlags (board.flags.setResult result carry overflow)

/-- The word that an operand holds: the contents of its register, or its value or address. -/
def operandValue (board : Board) : Operand → Word
  | .register r => board.register r
  | .immediate value _ => value
  | .indirectRegister r => board.register r
  | .indirectImmediate address => address

/-- The address that an indirect operand refers to. -/
def operandAddress (board : Board) (throughPointer : Bool) : Operand → Word × Board
  | .indirectImmediate address =>
      if throughPointer then board.readValue address 4 else (address, board)
  | operand => (board.operandValue operand, board)

/-- Read a value of the given width from an operand. -/
def load (board : Board) (width : Width) (throughPointer : Bool) (operand : Operand) :
    Word × Board :=
  match operand with
  | .register r => (board.register r &&& width.mask, board)
  | .immediate value _ => (value &&& width.mask, board)
  | .indirectRegister _ | .indirectImmediate _ =>
      let (address, board) := board.operandAddress throughPointer operand
      board.readValue address width.bytes

/-- Write a value of the given width to an operand. Writing to a register sets the flags first;
immediates are never written to. -/
def store (board : Board) (width : Width) (throughPointer : Bool) (operand : Operand)
    (value : Word) : Board :=
  match operand with
  | .register r => (board.setResultFlags value false false).setRegister r value
  | .immediate _ _ => board
  | .indirectRegister _ | .indirectImmediate _ =>
      let (address, board) := board.operandAddress throughPointer operand
      board.writeValue address width.bytes value

/-- Copy a value of the given width. The source is read before the destination is looked up. -/
def move (board : Board) (width : Width) (throughPointer : Bool) (destination source : Operand) :
    Board :=
  -- The load may take a key event, so its board is the one that the store works on.
  let (value, board) := board.load width throughPointer source
  board.store width throughPointer destination value

end TinyComputer.Board
