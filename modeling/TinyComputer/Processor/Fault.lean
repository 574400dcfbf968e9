import TinyComputer.Instruction.Codec

/-!
# Faults

What keeps the processor from completing an instruction, with the address of the instruction.
-/

namespace TinyComputer

inductive Fault where
  | divisionByZero (pc : Word)
  | invalidRegister (pc : Word) (index : Byte)
  | invalidOpcode (pc : Word) (opcode : Byte)
  deriving DecidableEq, Repr

namespace Fault

/-- The fault that a failure to decode the instruction at `pc` is. -/
def ofDecodeError (pc : Word) : DecodeError → Fault
  | .unknownOpcode opcode => invalidOpcode pc opcode
  | .invalidRegister index => invalidRegister pc index

def message : Fault → String
  | divisionByZero pc => "division by zero at 0x" ++ String.ofList (Text.hexFixed 8 pc.toNat)
  | invalidRegister pc index =>
      "invalid register index 0x" ++ String.ofList (Text.hexFixed 2 index.toNat) ++ " at 0x" ++
        String.ofList (Text.hexFixed 8 pc.toNat)
  | invalidOpcode pc opcode =>
      "invalid opcode 0x" ++ String.ofList (Text.hexFixed 2 opcode.toNat) ++ " at 0x" ++
        String.ofList (Text.hexFixed 8 pc.toNat)

end Fault

end TinyComputer
