import TinyComputer.Instruction.Operand
import TinyComputer.Instruction.Mnemonic

/-!
# Errors in assembly text

One constructor for each cause, with the piece of text to blame.
-/

namespace TinyComputer

/-- Why a line of assembly text is no instruction. -/
inductive AssemblyError where
  /-- The text does not have the shape of a line or of an operand. -/
  | invalidSyntax (text : List Char)
  | unknownMnemonic (name : List Char)
  | unknownRegister (name : List Char)
  | unbalancedBracket (token : List Char)
  /-- The text is no numeral, or its value needs more than 32 bits. -/
  | invalidLiteral (text : List Char)
  /-- No form of the mnemonic accepts the operands. -/
  | noMatchingForm (mnemonic : Mnemonic) (operands : List Operand)
  deriving DecidableEq, Repr

/-- An error in a program text, with the number of its line. Lines count from one. -/
structure ProgramError where
  line : Nat
  cause : AssemblyError
  deriving DecidableEq, Repr

namespace AssemblyError

def message : AssemblyError → String
  | invalidSyntax text => "Invalid command `" ++ String.ofList text ++ "`"
  | unknownMnemonic name => "Unknown instruction `" ++ String.ofList name ++ "`"
  | unknownRegister name => "Invalid register `" ++ String.ofList name ++ "`"
  | unbalancedBracket token => "Unbalanced bracket in `" ++ String.ofList token ++ "`"
  | invalidLiteral text => "Invalid literal `" ++ String.ofList text ++ "`"
  | noMatchingForm mnemonic operands =>
      "No form of `" ++ mnemonic.name ++ "` takes operands (" ++
        ", ".intercalate (operands.map Operand.describe) ++ ")"

end AssemblyError

namespace ProgramError

def message (error : ProgramError) : String :=
  "line " ++ toString error.line ++ ": " ++ error.cause.message

end ProgramError

end TinyComputer
