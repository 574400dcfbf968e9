import TinyComputer.Proofs.CheckedAccesses
import TinyComputer.Proofs.FetchOnce

/-!
# Checked fetches

What a fetch does, with its sums and shifts checked: the length of an instruction is summed up from the
sizes of its slots, each operand is looked for where those before it end, and its value is put together
from bytes. Instructions of the table are short, so none of this traps, and a fetch gives what it gives
without the checks.
-/

namespace TinyComputer

/-! ## Lengths -/

/-- The length of an instruction, summed up as a word. -/
def Form.checkedLength (form : Form) : Checked Word := do
  let size ← form.slots.foldlM (fun total slot => Checked.add total (UInt32.ofNat slot.size)) 0
  Checked.add 1 size

def checkedInstructionLength (opcode : Byte) : Checked Word :=
  match Form.ofOpcode? opcode with
  | some form => form.checkedLength
  | none => return 1

theorem Form.checkedLength_eq_ok :
    ∀ form ∈ Form.table, form.checkedLength = .ok (UInt32.ofNat form.length) := by
  decide +kernel

theorem checkedInstructionLength_eq_ok (opcode : Byte) :
    checkedInstructionLength opcode = .ok (UInt32.ofNat (instructionLength opcode)) := by
  unfold checkedInstructionLength instructionLength
  cases hform : Form.ofOpcode? opcode with
  | none => rfl
  | some form => exact form.checkedLength_eq_ok (Form.mem_table_of_ofOpcode?_eq_some hform).1

/-! ## Operands -/

namespace Word

theorem ofBytes_replicate_zero (count : Nat) : ofBytes (List.replicate count 0) = 0 := by
  induction count with
  | zero => rfl
  | succ count ih =>
      rw [List.replicate_succ, ofBytes, ih]
      rfl

/-- Bytes that are missing count as zero. -/
theorem ofBytes_takeD (count : Nat) (bytes : List Byte) :
    ofBytes (bytes.takeD count 0) = ofBytes (bytes.take count) := by
  induction count generalizing bytes with
  | zero => rfl
  | succ count ih =>
      cases bytes with
      | nil => rw [List.takeD_nil, List.take_nil, ofBytes_replicate_zero, ofBytes]
      | cons byte rest =>
          rw [List.takeD_succ, List.take_succ_cons, ofBytes, ofBytes, List.head?_cons, List.tail_cons, ih]
          rfl

/-- The number that the next bytes make, each of which is shifted to its place. -/
def checkedLittleEndian (bytes : List Byte) (count : Nat) : Checked Word :=
  checkedJoin 0 0 (bytes.takeD count 0)

theorem checkedLittleEndian_eq_ok (bytes : List Byte) {count : Nat} (h : count ≤ 4) :
    checkedLittleEndian bytes count = .ok (ofBytes (bytes.take count)) := by
  rw [checkedLittleEndian, checkedJoin_zero (by rwa [List.takeD_length]), ofBytes_takeD]

end Word

namespace Slot

/-- Read the operand of a slot from the start of `bytes`. -/
def checkedDecode (bytes : List Byte) : Slot → Checked (Except DecodeError Operand)
  | immediate width => do
      let value ← Word.checkedLittleEndian bytes width.bytes
      return .ok (.immediate value width)
  | indirectImmediate => do
      let address ← Word.checkedLittleEndian bytes 4
      return .ok (.indirectImmediate address)
  | slot => return slot.decode bytes

/-- Read one operand for each slot, the first one at a position of `bytes`. -/
def checkedDecodeAll (bytes : List Byte) :
    List Slot → (position : UInt64) → Checked (Except DecodeError (List Operand))
  | [], _ => return .ok []
  | slot :: slots, position => do
      match ← slot.checkedDecode (bytes.drop position.toNat) with
      | .error error => return .error error
      | .ok operand => do
          let next ← Checked.addDouble position (UInt64.ofNat slot.size)
          let operands ← checkedDecodeAll bytes slots next
          return operands.map (operand :: ·)

theorem checkedDecode_eq_ok (bytes : List Byte) (slot : Slot) :
    slot.checkedDecode bytes = .ok (slot.decode bytes) := by
  cases slot with
  | immediate width =>
      rw [checkedDecode, Word.checkedLittleEndian_eq_ok _ width.bytes_le]
      rfl
  | indirectImmediate =>
      rw [checkedDecode, Word.checkedLittleEndian_eq_ok _ (Nat.le_refl 4)]
      rfl
  | _ => rfl

theorem checkedDecodeAll_eq_ok (bytes : List Byte) (slots : List Slot) (position : UInt64)
    (h : position.toNat + totalSize slots < 2 ^ 64) :
    checkedDecodeAll bytes slots position = .ok (decodeAll slots (bytes.drop position.toNat)) := by
  induction slots generalizing position with
  | nil => rfl
  | cons slot slots ih =>
      rw [totalSize] at h
      obtain ⟨hadd, hnext⟩ := Checked.addDouble_ofNat
        (show position.toNat + slot.size < 2 ^ 64 by omega)
      rw [checkedDecodeAll, checkedDecode_eq_ok, Checked.ok_bind, decodeAll]
      cases slot.decode (bytes.drop position.toNat) with
      | error error => rfl
      | ok operand =>
          dsimp only
          rw [hadd, Checked.ok_bind, ih _ (by omega), hnext, List.drop_drop]
          rfl

end Slot

namespace Instruction

def checkedDecode (bytes : List Byte) : Checked (Except DecodeError Instruction) :=
  let opcode := bytes.headD 0
  match Form.ofOpcode? opcode with
  | none => return .error (.unknownOpcode opcode)
  | some form => do
      let operands ← Slot.checkedDecodeAll bytes form.slots 1
      return operands.map (Instruction.mk form)

theorem checkedDecode_eq_ok (bytes : List Byte) : checkedDecode bytes = .ok (decode bytes) := by
  unfold checkedDecode decode
  dsimp only
  cases hform : Form.ofOpcode? (bytes.headD 0) with
  | none => rfl
  | some form =>
      have hlength := Form.length_le form (Form.mem_table_of_ofOpcode?_eq_some hform).1
      have hone : (1 : UInt64).toNat = 1 := rfl
      rw [Form.length] at hlength
      dsimp only
      rw [Slot.checkedDecodeAll_eq_ok _ _ _ (by omega), hone, List.drop_one]
      rfl

theorem checkedLength_of_decode {bytes : List Byte} {instruction : Instruction}
    (h : decode bytes = .ok instruction) :
    instruction.form.checkedLength = .ok (UInt32.ofNat instruction.length) :=
  instruction.form.checkedLength_eq_ok (decode_eq_ok_iff.mp h).1.1

end Instruction

namespace Board

variable {board : Board}

/-- Fetch the instruction at an address. -/
def checkedFetch (board : Board) (address : Word) :
    Checked (Except DecodeError Instruction × Board) := do
  let (opcode, next) ← board.checkedRead address
  let length ← checkedInstructionLength opcode
  let (bytes, last) ← next.checkedReadBytes address length.toNat
  let decoded ← Instruction.checkedDecode bytes
  return (decoded, last)

theorem checkedFetch_eq_ok (h : board.Countable) (address : Word) :
    board.checkedFetch address = .ok (board.fetch address) := by
  have hlength : (UInt32.ofNat (instructionLength (board.read address).1)).toNat =
      instructionLength (board.read address).1 :=
    UInt32.toNat_ofNat_of_lt' (Nat.lt_of_le_of_lt (instructionLength_le _) (by decide))
  have hread : (board.read address).2.Countable := countable_kept.touch address h
  rw [checkedFetch, checkedRead_eq_ok h, Checked.ok_bind]
  dsimp only
  rw [checkedInstructionLength_eq_ok, Checked.ok_bind, hlength,
    checkedReadBytes_eq_ok hread, Checked.ok_bind, Instruction.checkedDecode_eq_ok]
  rfl

end Board

end TinyComputer
