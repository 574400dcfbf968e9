import TinyComputer.Board.Access
import TinyComputer.Instruction.Codec

/-!
# Fetching instructions

An instruction is fetched by reading its opcode, which decides its length, and then all of its
bytes. The reads are reads like any other: they may straddle devices, and they take key events from
a keyboard whose queue lies in their way.
-/

namespace TinyComputer.Board

def fetch (board : Board) (address : Word) : Except DecodeError Instruction × Board :=
  let (opcode, board) := board.read address
  -- The opcode is read once more, together with its operands.
  let (bytes, board) := board.readBytes address (instructionLength opcode)
  (Instruction.decode bytes, board)

end TinyComputer.Board
