import TinyComputer.Instruction.Mnemonic
import TinyComputer.Instruction.Operand

/-!
# Forms and instructions

A form is one row of the opcode table: an opcode, what it does, and the slots of its operands. An
instruction is a form with operands in its slots. The table lists every opcode; bytes that it does
not list are data. Main fact: no opcode is listed twice, so looking one up finds its only form.
-/

namespace TinyComputer

/-- One row of the opcode table. -/
structure Form where
  opcode : Byte
  mnemonic : Mnemonic
  slots : List Slot
  deriving DecidableEq, Repr

/-- A form together with its operands. -/
structure Instruction where
  form : Form
  operands : List Operand
  deriving DecidableEq, Repr

namespace Form

/-- The length of an encoded instruction in bytes, opcode included. -/
def length (form : Form) : Nat :=
  1 + Slot.totalSize form.slots

/-- Stores to a fixed address go through a pointer: every fixed address in the instruction is then
the place of the effective address instead of the address itself. -/
def storesThroughPointer (form : Form) : Bool :=
  form.slots.head? == some .indirectImmediate

/-- Whether there is one operand for each slot, and each slot accepts its operand. -/
def accepts (form : Form) (operands : List Operand) : Bool :=
  form.slots.length == operands.length && (form.slots.zip operands).all fun (slot, operand) =>
    slot.accepts operand

/-- Give every operand the shape of its slot. -/
def fit (form : Form) (operands : List Operand) : List Operand :=
  List.zipWith Slot.fit form.slots operands

def table : List Form :=
  let reg := Slot.register
  let imm8 := Slot.immediate .w8
  let imm16 := Slot.immediate .w16
  let imm32 := Slot.immediate .w32
  let atReg := Slot.indirectRegister
  let atImm := Slot.indirectImmediate
  [ ⟨0x01, .mov, [reg, reg]⟩,
    ⟨0x02, .mov, [reg, imm8]⟩,
    ⟨0x03, .mov, [reg, imm16]⟩,
    ⟨0x04, .mov, [reg, imm32]⟩,
    ⟨0x05, .movSized .w8, [reg, atReg]⟩,
    ⟨0x06, .movSized .w8, [reg, atImm]⟩,
    ⟨0x07, .movSized .w16, [reg, atReg]⟩,
    ⟨0x08, .movSized .w16, [reg, atImm]⟩,
    ⟨0x09, .movSized .w32, [reg, atReg]⟩,
    ⟨0x0A, .movSized .w32, [reg, atImm]⟩,
    ⟨0x0B, .movSized .w8, [atReg, reg]⟩,
    ⟨0x0C, .movSized .w8, [atReg, imm8]⟩,
    ⟨0x0D, .movSized .w8, [atReg, atReg]⟩,
    ⟨0x0E, .movSized .w8, [atReg, atImm]⟩,
    ⟨0x0F, .movSized .w16, [atReg, reg]⟩,
    ⟨0x1A, .movSized .w16, [atReg, imm16]⟩,
    ⟨0x1B, .movSized .w16, [atReg, atReg]⟩,
    ⟨0x1C, .movSized .w16, [atReg, atImm]⟩,
    ⟨0x1D, .movSized .w32, [atReg, reg]⟩,
    ⟨0x1E, .movSized .w32, [atReg, imm32]⟩,
    ⟨0x1F, .movSized .w32, [atReg, atReg]⟩,
    ⟨0x20, .movSized .w32, [atReg, atImm]⟩,
    ⟨0x21, .movSized .w8, [atImm, reg]⟩,
    ⟨0x22, .movSized .w8, [atImm, imm8]⟩,
    ⟨0x23, .movSized .w8, [atImm, atReg]⟩,
    ⟨0x24, .movSized .w8, [atImm, atImm]⟩,
    ⟨0x25, .movSized .w16, [atImm, reg]⟩,
    ⟨0x26, .movSized .w16, [atImm, imm16]⟩,
    ⟨0x27, .movSized .w16, [atImm, atReg]⟩,
    ⟨0x28, .movSized .w16, [atImm, atImm]⟩,
    ⟨0x29, .movSized .w32, [atImm, reg]⟩,
    ⟨0x2A, .movSized .w32, [atImm, imm32]⟩,
    ⟨0x2B, .movSized .w32, [atImm, atReg]⟩,
    ⟨0x2C, .movSized .w32, [atImm, atImm]⟩,
    ⟨0x2D, .arithmetic .or, [reg, reg]⟩,
    ⟨0x2E, .arithmetic .or, [reg, imm8]⟩,
    ⟨0x2F, .arithmetic .or, [reg, imm16]⟩,
    ⟨0x30, .arithmetic .or, [reg, imm32]⟩,
    ⟨0x31, .arithmetic .xor, [reg, reg]⟩,
    ⟨0x32, .arithmetic .xor, [reg, imm8]⟩,
    ⟨0x33, .arithmetic .xor, [reg, imm16]⟩,
    ⟨0x34, .arithmetic .xor, [reg, imm32]⟩,
    ⟨0x35, .arithmetic .and, [reg, reg]⟩,
    ⟨0x36, .arithmetic .and, [reg, imm8]⟩,
    ⟨0x37, .arithmetic .and, [reg, imm16]⟩,
    ⟨0x38, .arithmetic .and, [reg, imm32]⟩,
    ⟨0x39, .arithmetic .shl, [reg, reg]⟩,
    ⟨0x3A, .arithmetic .shl, [reg, imm8]⟩,
    ⟨0x3B, .arithmetic .shr, [reg, reg]⟩,
    ⟨0x3C, .arithmetic .shr, [reg, imm8]⟩,
    ⟨0x3D, .not, [reg]⟩,
    ⟨0x42, .arithmetic .add, [reg, reg]⟩,
    ⟨0x43, .arithmetic .add, [reg, imm8]⟩,
    ⟨0x44, .arithmetic .add, [reg, imm16]⟩,
    ⟨0x45, .arithmetic .add, [reg, imm32]⟩,
    ⟨0x46, .arithmetic .sub, [reg, reg]⟩,
    ⟨0x47, .arithmetic .sub, [reg, imm8]⟩,
    ⟨0x48, .arithmetic .sub, [reg, imm16]⟩,
    ⟨0x49, .arithmetic .sub, [reg, imm32]⟩,
    ⟨0x4A, .cmp, [reg, reg]⟩,
    ⟨0x4B, .cmp, [reg, imm8]⟩,
    ⟨0x4C, .cmp, [reg, imm16]⟩,
    ⟨0x4D, .cmp, [reg, imm32]⟩,
    ⟨0x4E, .arithmetic .mul, [reg, reg]⟩,
    ⟨0x4F, .arithmetic .mul, [reg, imm8]⟩,
    ⟨0x50, .arithmetic .mul, [reg, imm16]⟩,
    ⟨0x51, .arithmetic .mul, [reg, imm32]⟩,
    ⟨0x52, .arithmetic .idiv, [reg, reg]⟩,
    ⟨0x53, .arithmetic .idiv, [reg, imm8]⟩,
    ⟨0x54, .arithmetic .idiv, [reg, imm16]⟩,
    ⟨0x55, .arithmetic .idiv, [reg, imm32]⟩,
    ⟨0x56, .arithmetic .mod, [reg, reg]⟩,
    ⟨0x57, .arithmetic .mod, [reg, imm8]⟩,
    ⟨0x58, .arithmetic .mod, [reg, imm16]⟩,
    ⟨0x59, .arithmetic .mod, [reg, imm32]⟩,
    ⟨0x5A, .inc, [reg]⟩,
    ⟨0x5B, .dec, [reg]⟩,
    ⟨0x5C, .branch .zero, [reg]⟩,
    ⟨0x5D, .branch .zero, [imm32]⟩,
    ⟨0x5E, .branch .notZero, [reg]⟩,
    ⟨0x5F, .branch .notZero, [imm32]⟩,
    ⟨0x60, .branch .negative, [reg]⟩,
    ⟨0x61, .branch .negative, [imm32]⟩,
    ⟨0x62, .branch .positive, [reg]⟩,
    ⟨0x63, .branch .positive, [imm32]⟩,
    ⟨0x64, .branch .greater, [reg]⟩,
    ⟨0x65, .branch .greater, [imm32]⟩,
    ⟨0x66, .branch .greaterOrEqual, [reg]⟩,
    ⟨0x67, .branch .greaterOrEqual, [imm32]⟩,
    ⟨0x68, .branch .less, [reg]⟩,
    ⟨0x69, .branch .less, [imm32]⟩,
    ⟨0x6A, .branch .lessOrEqual, [reg]⟩,
    ⟨0x6B, .branch .lessOrEqual, [imm32]⟩,
    ⟨0x6C, .branch .overflow, [reg]⟩,
    ⟨0x6D, .branch .overflow, [imm32]⟩,
    ⟨0x6E, .branch .noOverflow, [reg]⟩,
    ⟨0x6F, .branch .noOverflow, [imm32]⟩,
    ⟨0x70, .branch .always, [reg]⟩,
    ⟨0x71, .branch .always, [imm32]⟩,
    ⟨0x72, .jsr, [reg]⟩,
    ⟨0x73, .jsr, [imm32]⟩,
    ⟨0x74, .ret, []⟩,
    ⟨0x75, .sys, [reg]⟩,
    ⟨0x76, .sys, [imm8]⟩,
    ⟨0x77, .iret, []⟩,
    ⟨0x78, .push .w8, [reg]⟩,
    ⟨0x79, .push .w8, [imm8]⟩,
    ⟨0x7A, .push .w16, [reg]⟩,
    ⟨0x7B, .push .w16, [imm16]⟩,
    ⟨0x7C, .push .w32, [reg]⟩,
    ⟨0x7D, .push .w32, [imm32]⟩,
    ⟨0x7E, .pushAll, []⟩,
    ⟨0x7F, .pop .w8, [reg]⟩,
    ⟨0x80, .pop .w16, [reg]⟩,
    ⟨0x81, .pop .w32, [reg]⟩,
    ⟨0x82, .popAll, []⟩,
    ⟨0x83, .popx, [reg]⟩,
    ⟨0x84, .popx, [imm8]⟩,
    ⟨0x85, .popx, [imm16]⟩,
    ⟨0x86, .sret, []⟩,
    ⟨0x87, .nop, []⟩ ]

def ofOpcode? (opcode : Byte) : Option Form :=
  table.find? fun form => form.opcode == opcode

theorem mem_table_of_ofOpcode?_eq_some {opcode : Byte} {form : Form}
    (h : ofOpcode? opcode = some form) : form ∈ table ∧ form.opcode = opcode :=
  ⟨List.mem_of_find?_eq_some h, by simpa using List.find?_some h⟩

/-- Looking up the opcode of a form finds the form. -/
theorem ofOpcode?_opcode : ∀ form ∈ table, ofOpcode? form.opcode = some form := by
  decide +kernel

theorem length_pos (form : Form) : 0 < form.length := by
  unfold length
  omega

end Form

namespace Instruction

def length (instruction : Instruction) : Nat :=
  instruction.form.length

def mnemonic (instruction : Instruction) : Mnemonic :=
  instruction.form.mnemonic

/-- The instructions that machine code can express: the form is in the table, and every operand has
the shape of its slot. -/
def WellFormed (instruction : Instruction) : Prop :=
  instruction.form ∈ Form.table ∧
    instruction.form.accepts instruction.operands = true ∧
    instruction.form.fit instruction.operands = instruction.operands

instance (instruction : Instruction) : Decidable instruction.WellFormed :=
  inferInstanceAs (Decidable (_ ∧ _ ∧ _))

end Instruction

/-- The length of the instruction that starts with `opcode`. Unknown opcodes are one byte of data.
-/
def instructionLength (opcode : Byte) : Nat :=
  match Form.ofOpcode? opcode with
  | some form => form.length
  | none => 1

end TinyComputer
