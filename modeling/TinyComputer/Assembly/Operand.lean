import TinyComputer.Assembly.Literal

/-!
# Operands in assembly text

An operand is a register name or a literal, either of them bare or between one pair of square
brackets. What is between brackets is an address.
-/

namespace TinyComputer

/-- What an operand names, brackets aside. -/
inductive Atom where
  | register (register : Register)
  | literal (value : Word)
  deriving DecidableEq, Repr

namespace Atom

def isBracket (c : Char) : Bool :=
  c == '[' || c == ']'

/-- Read a register name or a literal. The first character decides which of them is meant. -/
def parse (text : List Char) : Except AssemblyError Atom :=
  if text.any isBracket then .error (.unbalancedBracket text)
  else
    match text with
    | [] => .error (.invalidSyntax text)
    | first :: _ =>
        if first.isDigit then (Literal.parse text).map .literal
        else if first.isAlpha && text.all Char.isAlphanum then
          match Register.ofName? text with
          | some r => .ok (.register r)
          | none => .error (.unknownRegister text)
        else .error (.invalidSyntax text)

/-- The operand that an atom is by itself. -/
def toOperand : Atom → Operand
  | register r => .register r
  | literal value => .immediate value (Width.minimal value)

/-- The operand that an atom is between brackets. -/
def toIndirect : Atom → Operand
  | register r => .indirectRegister r
  | literal address => .indirectImmediate address

end Atom

namespace Operand

def parse (token : List Char) : Except AssemblyError Operand :=
  let opens := token.head? == some '['
  let closes := token.getLast? == some ']'
  if opens && closes then
    let inner := token.tail.dropLast
    if inner.isEmpty then .error (.invalidSyntax token)
    else (Atom.parse inner).map Atom.toIndirect
  else if opens || closes then .error (.unbalancedBracket token)
  else (Atom.parse token).map Atom.toOperand

end Operand

end TinyComputer
