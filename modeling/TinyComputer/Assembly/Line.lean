import TinyComputer.Assembly.Operand
import TinyComputer.Instruction.Codec
import TinyComputer.Instruction.Selection
import TinyComputer.Text.Blank

/-!
# Lines of assembly text

A line is a mnemonic, followed by up to two operands after a gap of spaces and tabs; a comma, with
optional gaps around it, divides the operands. Reading an instruction cuts the line into these
tokens, looks up the mnemonic in any case, reads the operands from left to right, and selects the
shortest form. The first step that fails decides the error.
-/

namespace TinyComputer

structure Line where
  mnemonic : List Char
  operands : List (List Char)
  deriving DecidableEq, Repr

namespace Line

/-- Whether a character belongs to the gaps between tokens. -/
def isGap (c : Char) : Bool :=
  c == ' ' || c == '\t'

/-- Whether a character can be part of a mnemonic. -/
def isMnemonicChar (c : Char) : Bool :=
  c.isAlphanum || c == '.'

/-- Whether a character can be part of an operand. -/
def isOperandChar (c : Char) : Bool :=
  !(c == ',' || isGap c)

/-- Cut off the operand at the start of a text, together with the gap after it. -/
def nextOperand (text : List Char) : List Char × List Char :=
  (text.takeWhile isOperandChar, (text.dropWhile isOperandChar).dropWhile isGap)

/-- Cut a text that starts at its first operand into one or two operands. -/
def operands? (text : List Char) : Option (List (List Char)) :=
  match nextOperand text with
  | ([], _) => none
  | (first, []) => some [first]
  | (first, ',' :: rest) =>
      match nextOperand (rest.dropWhile isGap) with
      | ([], _) => none
      | (second, []) => some [first, second]
      | _ => none
  | _ => none

/-- Cut a trimmed text into the tokens of a line. -/
def parse? (text : List Char) : Option Line :=
  match text.takeWhile isMnemonicChar, text.dropWhile isMnemonicChar with
  | [], _ => none
  | mnemonic, [] => some ⟨mnemonic, []⟩
  | mnemonic, c :: rest =>
      if isGap c then (operands? (rest.dropWhile isGap)).map (Line.mk mnemonic) else none

end Line

namespace Operand

/-- Read operands from left to right, up to the first error. -/
def parseAll : List (List Char) → Except AssemblyError (List Operand)
  | [] => .ok []
  | token :: tokens =>
      match parse token with
      | .error error => .error error
      | .ok operand => (parseAll tokens).map (operand :: ·)

end Operand

namespace Instruction

/-- The shortest instruction that applies a mnemonic to the given operands, or the error that there
is none. -/
def select (mnemonic : Mnemonic) (operands : List Operand) : Except AssemblyError Instruction :=
  match select? mnemonic operands with
  | some instruction => .ok instruction
  | none => .error (.noMatchingForm mnemonic operands)

def parse (text : List Char) : Except AssemblyError Instruction :=
  let trimmed := Text.trim text
  match Line.parse? trimmed with
  | none => .error (.invalidSyntax trimmed)
  | some line =>
      match Mnemonic.ofName? (line.mnemonic.map Char.toLower) with
      | none => .error (.unknownMnemonic line.mnemonic)
      | some mnemonic =>
          match Operand.parseAll line.operands with
          | .error error => .error error
          | .ok operands => select mnemonic operands

def assemble (text : List Char) : Except AssemblyError (List Byte) :=
  (parse text).map encode

end Instruction

end TinyComputer
