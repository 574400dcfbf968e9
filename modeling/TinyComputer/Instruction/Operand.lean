import TinyComputer.Instruction.Width
import TinyComputer.Register

/-!
# Operands and slots

An operand is what an instruction is given; a slot is the place for one in an opcode's layout. A
slot has a fixed size in bytes, so that an opcode alone decides the length of its instruction.
-/

namespace TinyComputer

inductive Operand where
  | register (register : Register)
  | immediate (value : Word) (width : Width)
  /-- The memory at the address that a register holds. -/
  | indirectRegister (register : Register)
  /-- The memory at a fixed address. -/
  | indirectImmediate (address : Word)
  deriving DecidableEq, Repr

/-- The place of one operand in the layout of an opcode. -/
inductive Slot where
  /-- A register index in one byte. -/
  | register
  /-- A little-endian value of the given width. -/
  | immediate (width : Width)
  /-- The index of a register that holds an address, in one byte. -/
  | indirectRegister
  /-- A little-endian 32-bit address. -/
  | indirectImmediate
  deriving DecidableEq, Repr

namespace Operand

def describe : Operand → String
  | register _ => "register"
  | immediate _ _ => "value"
  | indirectRegister _ => "indirect register"
  | indirectImmediate _ => "indirect value"

end Operand

namespace Slot

/-- The count of bytes that a slot takes. -/
def size : Slot → Nat
  | register => 1
  | immediate width => width.bytes
  | indirectRegister => 1
  | indirectImmediate => 4

/-- The count of bytes that consecutive slots take. -/
def totalSize : List Slot → Nat
  | [] => 0
  | slot :: rest => slot.size + totalSize rest

/-- Whether a slot can hold an operand. -/
def accepts : Slot → Operand → Bool
  | register, .register _ => true
  | immediate width, .immediate value _ => width.fits value
  | indirectRegister, .indirectRegister _ => true
  | indirectImmediate, .indirectImmediate _ => true
  | _, _ => false

/-- Give an accepted immediate the width of its slot. Other operands stay as they are. -/
def fit : Slot → Operand → Operand
  | immediate width, .immediate value _ => .immediate value width
  | _, operand => operand

theorem size_pos (slot : Slot) : 0 < slot.size := by
  cases slot with
  | immediate width => exact width.bytes_pos
  | _ => decide

@[simp] theorem accepts_fit (slot : Slot) (operand : Operand) :
    slot.accepts (slot.fit operand) = slot.accepts operand := by
  cases slot <;> cases operand <;> rfl

@[simp] theorem fit_fit (slot : Slot) (operand : Operand) :
    slot.fit (slot.fit operand) = slot.fit operand := by
  cases slot <;> cases operand <;> rfl

end Slot

end TinyComputer
