import TinyComputer.Assembly.Line

/-!
# Programs in assembly text

A program has one instruction on each line. A semicolon starts a comment, and lines without an
instruction are skipped, but counted. The machine code of a program is the code of its instructions,
one after the other.
-/

namespace TinyComputer.Program

/-- What is left of a line without its comment and the blanks around it. -/
def code (line : List Char) : List Char :=
  Text.trim (line.takeWhile (· != ';'))

/-- Read the instructions of consecutive lines, the first of which has the given number. -/
def parseLines : (number : Nat) → List (List Char) → Except ProgramError (List Instruction)
  | _, [] => .ok []
  | number, line :: lines =>
      if (code line).isEmpty then parseLines (number + 1) lines
      else
        match Instruction.parse (code line) with
        | .error cause => .error ⟨number, cause⟩
        | .ok instruction => (parseLines (number + 1) lines).map (instruction :: ·)

def parse (text : List Char) : Except ProgramError (List Instruction) :=
  parseLines 1 (Text.lines text)

def assemble (text : List Char) : Except ProgramError (List Byte) :=
  (parse text).map fun instructions => instructions.flatMap Instruction.encode

end TinyComputer.Program
