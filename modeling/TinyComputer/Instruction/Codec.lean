import TinyComputer.Instruction.Basic
import TinyComputer.Text.Hexadecimal

/-!
# Machine code

An instruction is encoded as its opcode, followed by its operands with no padding: registers as one
byte, immediates and addresses least significant byte first. Decoding reads the opcode, looks up the
slots and reads one operand for each. Bytes that are missing at the end count as zero.
-/

namespace TinyComputer

inductive DecodeError where
  | unknownOpcode (opcode : Byte)
  /-- A register slot holds an index of sixteen or more. -/
  | invalidRegister (index : Byte)
  deriving DecidableEq, Repr

namespace DecodeError

def message : DecodeError → String
  | unknownOpcode opcode => "unknown opcode 0x" ++ String.ofList (Text.hexFixed 2 opcode.toNat)
  | invalidRegister index =>
      "invalid register index 0x" ++ String.ofList (Text.hexFixed 2 index.toNat)

end DecodeError

namespace Operand

def encode : Operand → List Byte
  | register r => [r.toByte]
  | immediate value width => Word.toBytes width.bytes value
  | indirectRegister r => [r.toByte]
  | indirectImmediate address => Word.toBytes 4 address

end Operand

/-- Read the register whose index is the first byte. -/
def Register.decode (bytes : List Byte) : Except DecodeError Register :=
  let index := bytes.headD 0
  match ofByte? index with
  | some r => .ok r
  | none => .error (.invalidRegister index)

namespace Slot

/-- Read the operand of a slot from the start of `bytes`. -/
def decode (bytes : List Byte) : Slot → Except DecodeError Operand
  | register => (Register.decode bytes).map .register
  | immediate width => .ok (.immediate (Word.ofBytes (bytes.take width.bytes)) width)
  | indirectRegister => (Register.decode bytes).map .indirectRegister
  | indirectImmediate => .ok (.indirectImmediate (Word.ofBytes (bytes.take 4)))

/-- Read one operand for each slot, in order. -/
def decodeAll : List Slot → List Byte → Except DecodeError (List Operand)
  | [], _ => .ok []
  | slot :: slots, bytes =>
      match slot.decode bytes with
      | .error error => .error error
      | .ok operand => (decodeAll slots (bytes.drop slot.size)).map (operand :: ·)

end Slot

namespace Instruction

def encode (instruction : Instruction) : List Byte :=
  instruction.form.opcode :: instruction.operands.flatMap Operand.encode

def decode (bytes : List Byte) : Except DecodeError Instruction :=
  let opcode := bytes.headD 0
  match Form.ofOpcode? opcode with
  | none => .error (.unknownOpcode opcode)
  | some form => (Slot.decodeAll form.slots bytes.tail).map (Instruction.mk form)

end Instruction

end TinyComputer
