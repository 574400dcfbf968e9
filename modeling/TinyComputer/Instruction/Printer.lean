import TinyComputer.Instruction.Basic
import TinyComputer.Text.Hexadecimal
import TinyComputer.Text.Padding
import TinyComputer.Text.Pieces

/-!
# Instructions as text

An instruction is written as its mnemonic, padded to a column of eight characters, and its operands
separated by commas. The count of hexadecimal digits of an immediate shows its width.
-/

namespace TinyComputer

open Text

namespace Width

/-- The count of hexadecimal digits in which a value of this width is written. -/
def hexDigits (width : Width) : Nat :=
  2 * width.bytes

end Width

namespace Operand

def render : Operand → List Char
  | register r => r.name.toList
  | immediate value width => ['0', 'x'] ++ hexFixed width.hexDigits value.toNat
  | indirectRegister r => ['['] ++ r.name.toList ++ [']']
  | indirectImmediate address => ['[', '0', 'x'] ++ hexFixed 8 address.toNat ++ [']']

end Operand

namespace Instruction

/-- An instruction in assembly text, each operand as `renderOperand` shows it. -/
def renderWith (renderOperand : Operand → List Char) (instruction : Instruction) : List Char :=
  let name := instruction.mnemonic.name.toList
  if instruction.operands.isEmpty then name
  else padRight 8 name ++ join [',', ' '] (instruction.operands.map renderOperand)

def render (instruction : Instruction) : List Char :=
  instruction.renderWith Operand.render

end Instruction

end TinyComputer
