import TinyComputer.Assembly.Line
import TinyComputer.Debugger.Error
import TinyComputer.Symbols

/-!
# Debugger commands

A command line is a letter and its arguments, separated by blanks. Addresses are literals or
symbols, bytes are literals, and the sizes of blocks are capped at the size of RAM. Reading a
command depends on what the debugger knows at that moment, but changes nothing.
-/

namespace TinyComputer

inductive Command where
  | help
  | registers
  | step
  /-- Step, but run a subroutine as a whole. -/
  | stepOver
  | continueRun
  | setBreakpoint (address : Word)
  | clearBreakpoint (address : Word)
  | list (address : Word)
  | assemble (address : Word) (instruction : Instruction)
  | dump (address size : Word)
  | enter (address : Word) (bytes : List Byte)
  | fill (address size : Word) (value : Byte)
  | copy (source destination size : Word)
  | search (pattern : List Byte)
  deriving DecidableEq, Repr

/-- What reading a command depends on. -/
structure CommandContext where
  symbols : Symbols
  /-- The program counter, which some commands take for a missing address. -/
  pc : Word
  /-- The largest size of a block. -/
  ramSize : Word

namespace CommandContext

def address (context : CommandContext) (token : List Char) : Except CommandError Word :=
  match Literal.parse token with
  | .ok value => .ok value
  | .error _ =>
      match context.symbols.address? token with
      | some value => .ok value
      | none => .error (.invalidAddress token)

/-- Read the address in front of the arguments, which must be there. -/
def requiredAddress (context : CommandContext) (name : String) :
    Option (List Char) → Except CommandError Word
  | some token => context.address token
  | none => .error (.missingArgument name)

/-- Read an optional address. The program counter stands in for a missing one. -/
def addressOrPc (context : CommandContext) : Option (List Char) → Except CommandError Word
  | some token => context.address token
  | none => .ok context.pc

def blockSize (context : CommandContext) (token : List Char) : Except CommandError Word :=
  match context.address token with
  | .error error => .error error
  | .ok size =>
      if context.ramSize < size then .error (.sizeTooLarge size context.ramSize) else .ok size

/-- Read the size of a block, which must be there. -/
def requiredSize (context : CommandContext) : Option (List Char) → Except CommandError Word
  | some token => context.blockSize token
  | none => .error (.missingArgument "size")

end CommandContext

namespace Command

/-- The size of a dump when none is given. -/
def defaultDumpSize : Word := 0x100

def parseByte (token : List Char) : Except CommandError Byte :=
  match Literal.parse token with
  | .ok value => if value ≤ 0xFF then .ok value.toUInt8 else .error (.invalidByte token)
  | .error _ => .error (.invalidByte token)

/-- Read bytes from left to right, up to the first error. -/
def parseBytes : List (List Char) → Except CommandError (List Byte)
  | [] => .ok []
  | token :: tokens =>
      match parseByte token with
      | .error error => .error error
      | .ok byte => (parseBytes tokens).map (byte :: ·)

/-- Read bytes, of which there must be one. -/
def parseSomeBytes (name : String) (tokens : List (List Char)) :
    Except CommandError (List Byte) :=
  match parseBytes tokens with
  | .error error => .error error
  | .ok [] => .error (.missingArgument name)
  | .ok bytes => .ok bytes

/-- Read an instruction from its words, of which there must be one. -/
def parseInstruction : List (List Char) → Except CommandError Instruction
  | [] => .error (.missingArgument "instruction")
  | tokens =>
      match Instruction.parse (Text.join [' '] tokens) with
      | .error cause => .error (.assembly cause)
      | .ok instruction => .ok instruction

/-- Read the value that fills a block, which must be there. -/
def parseValue : Option (List Char) → Except CommandError Byte
  | some token => parseByte token
  | none => .error (.missingArgument "value")

/-- Read a command from its name and its arguments. Arguments are read from left to right, and
superfluous ones are ignored. -/
def parse (context : CommandContext) (name : List Char) (arguments : List (List Char)) :
    Except CommandError Command :=
  match name with
  | ['?'] | ['h'] => .ok .help
  | ['r'] => .ok .registers
  | ['s'] => .ok .step
  | ['o'] => .ok .stepOver
  | ['c'] => .ok .continueRun
  | ['b'] => (context.addressOrPc arguments.head?).map setBreakpoint
  | ['u'] => (context.addressOrPc arguments.head?).map clearBreakpoint
  | ['l'] => (context.addressOrPc arguments.head?).map list
  | ['a'] => do
      let address ← context.requiredAddress "address" arguments.head?
      let instruction ← parseInstruction arguments.tail
      return assemble address instruction
  | ['d'] => do
      let address ← context.requiredAddress "address" arguments.head?
      match arguments[1]? with
      | some token => return dump address (← context.blockSize token)
      | none => return dump address defaultDumpSize
  | ['e'] => do
      let address ← context.requiredAddress "address" arguments.head?
      let bytes ← parseSomeBytes "data" arguments.tail
      return enter address bytes
  | ['f'] => do
      let address ← context.requiredAddress "address" arguments.head?
      let size ← context.requiredSize arguments[1]?
      let value ← parseValue arguments[2]?
      return fill address size value
  | ['y'] => do
      let source ← context.requiredAddress "origin" arguments.head?
      let destination ← context.requiredAddress "destination" arguments[1]?
      let size ← context.requiredSize arguments[2]?
      return copy source destination size
  | ['p'] => (parseSomeBytes "pattern" arguments).map search
  | _ => .error .unknownCommand

end Command

end TinyComputer
