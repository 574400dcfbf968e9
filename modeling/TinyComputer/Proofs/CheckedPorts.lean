import Mathlib.Tactic.SplitIfs
import TinyComputer.Device.Basic
import TinyComputer.Proofs.CheckedArithmetic

/-!
# Checked ports

What headers, the register bank and keyboards do at an offset of their window, with every index,
difference and shift checked. The offset is any word, so that nothing keeps it within the device but the
device's own comparisons. None of them traps, and each does what its total definition does.
-/

namespace TinyComputer

variable {offset : Word}

/-! ## Headers -/

namespace Header

/-- The byte at an offset of the header. Offsets from 3 on count from the start of the name. -/
def checkedByte (kind : DeviceKind) (line : Option Byte) (offset : Word) : Checked Byte :=
  if offset.toNat = 0 then return kind.code
  else if offset.toNat = 1 then return 0
  else if offset.toNat = 2 then return line.getD noLine
  else do
    let place ← Checked.sub offset 3
    return (kind.name.toList.map fun c => c.toNat.toUInt8).getD place.toNat 0

variable (kind : DeviceKind) (line : Option Byte)

/-- The name is reached with offsets from 3 on only, also by offsets that are not in the header. -/
theorem exists_checkedByte (offset : Word) : ∃ byte, checkedByte kind line offset = .ok byte := by
  have hthree : (3 : Word).toNat = 3 := rfl
  unfold checkedByte
  split_ifs
  · exact ⟨_, rfl⟩
  · exact ⟨_, rfl⟩
  · exact ⟨_, rfl⟩
  · rw [(Checked.sub_eq_ok (by omega)).1]
    exact ⟨_, rfl⟩

theorem checkedByte_eq_ok (h : offset.toNat < size) :
    checkedByte kind line offset = .ok (byte kind line ⟨offset.toNat, h⟩) := by
  have hthree : (3 : Word).toNat = 3 := rfl
  unfold checkedByte byte
  split_ifs with hzero hone htwo
  · simp only [hzero]
    rfl
  · simp only [hone]
    rfl
  · simp only [htwo]
    rfl
  · obtain ⟨place, hplace⟩ : ∃ place, offset.toNat = place + 3 := ⟨offset.toNat - 3, by omega⟩
    obtain ⟨hsub, hnat⟩ := Checked.sub_eq_ok (show (3 : Word).toNat ≤ offset.toNat by omega)
    rw [hsub, Checked.ok_bind, hnat, hthree]
    simp only [hplace]
    rfl

end Header

/-! ## The register bank -/

namespace RegisterBank

/-- The index of a register and the lane of its byte, for offsets that fall on a register. -/
def locate? (offset : Word) : Checked (Option (Nat × Word)) :=
  if 0x10 ≤ offset.toNat ∧ offset.toNat < 0x50 then do
    let located ← Checked.locate 0x10 offset
    return some located
  else return none

def checkedRead (registers : RegisterFile) (offset : Word) : Checked Byte :=
  if offset.toNat < 0x10 then Header.checkedByte .processor none offset
  else do
    match ← locate? offset with
    | some located => Checked.laneByte registers.words located
    | none => return 0

def checkedWrite (registers : RegisterFile) (offset : Word) (value : Byte) : Checked RegisterFile := do
  match ← locate? offset with
  | some located =>
      let words ← Checked.setLaneByte registers.words located value
      return ⟨words⟩
  | none => return registers

theorem locate?_of_register (hle : 0x10 ≤ offset.toNat) (hlt : offset.toNat < 0x50) :
    locate? offset = .ok (some ((offset.toNat - 0x10) / 4, (offset - 0x10) % 4)) := by
  have hbase : (0x10 : Word).toNat = 0x10 := rfl
  rw [locate?, if_pos ⟨hle, hlt⟩, Checked.locate_eq_ok (hbase ▸ hle), hbase]
  rfl

theorem locate?_of_not_register (h : ¬ (0x10 ≤ offset.toNat ∧ offset.toNat < 0x50)) :
    locate? offset = .ok none := if_neg h

/-- Offsets fall on no register, or on one of the sixteen and on one of its four lanes. -/
theorem locate?_cases (offset : Word) :
    locate? offset = .ok none ∨
      ∃ index lane, locate? offset = .ok (some (index, lane)) ∧ index < 16 ∧ lane.toNat < 4 := by
  by_cases h : 0x10 ≤ offset.toNat ∧ offset.toNat < 0x50
  · have hbase : (0x10 : Word).toNat ≤ offset.toNat := h.1
    refine .inr ⟨_, _, locate?_of_register h.1 h.2, by omega, ?_⟩
    rw [(Checked.toNat_relative hbase).2]
    exact Nat.mod_lt _ (by decide)
  · exact .inl (locate?_of_not_register h)

theorem checkedRead_eq_ok (registers : RegisterFile) (offset : Word) :
    checkedRead registers offset = .ok (read registers offset) := by
  have hheader : Header.size = 16 := rfl
  unfold read BankRegister.ofOffset checkedRead
  dsimp only
  split_ifs with hlow hregister
  · exact Header.checkedByte_eq_ok .processor none hlow
  · have hbase : (0x10 : Word).toNat ≤ offset.toNat := Nat.le_of_not_lt hlow
    have hread := Checked.laneByte_eq_ok registers.words hbase (Nat.div_lt_of_lt_mul hregister)
    rw [Checked.locate_eq_ok hbase, Checked.ok_bind] at hread
    rw [locate?_of_register hbase (by omega), Checked.ok_bind]
    simp only [RegisterFile.read, Register.index_ofIndex]
    exact hread (Nat.mod_lt _ (by decide))
  · rw [locate?_of_not_register (by omega)]
    rfl

theorem checkedWrite_eq_ok (registers : RegisterFile) (offset : Word) (value : Byte) :
    checkedWrite registers offset value = .ok (write registers offset value) := by
  have hheader : Header.size = 16 := rfl
  unfold write BankRegister.ofOffset checkedWrite
  dsimp only
  split_ifs with hlow hregister
  · rw [locate?_of_not_register (by omega)]
    rfl
  · have hbase : (0x10 : Word).toNat ≤ offset.toNat := Nat.le_of_not_lt hlow
    have hwrite := Checked.setLaneByte_eq_ok registers.words value hbase (Nat.div_lt_of_lt_mul hregister)
      (Nat.mod_lt _ (by decide))
    rw [Checked.locate_eq_ok hbase, Checked.ok_bind] at hwrite
    rw [locate?_of_register hbase (by omega), Checked.ok_bind]
    simp only [RegisterFile.read, RegisterFile.write, Register.index_ofIndex]
    exact congrArg (Except.map RegisterFile.mk) hwrite
  · rw [locate?_of_not_register (by omega)]
    rfl

end RegisterBank

/-! ## Keyboards -/

/-- The registers of a keyboard, in the order of their offsets. -/
theorem KeyboardRegister.ofOffset_cases (offset : Word) :
    (∃ h : offset.toNat < Header.size, ofOffset offset = .header ⟨offset.toNat, h⟩) ∨
    (offset = 0x10 ∧ ofOffset offset = .mode) ∨ (offset = 0x11 ∧ ofOffset offset = .queueFull) ∨
    (∃ lane : Fin 4, offset.toNat = 0x12 + lane ∧ ofOffset offset = .dequeue lane) ∨
    (0x16 ≤ offset.toNat ∧ ofOffset offset = .unused) := by
  have hsize : Header.size = 16 := rfl
  generalize hregister : ofOffset offset = register
  unfold ofOffset at hregister
  dsimp only at hregister
  split_ifs at hregister with hheader hmode hfull hdequeue <;> subst hregister
  · exact .inl ⟨hheader, rfl⟩
  · exact .inr (.inl ⟨UInt32.toNat_inj.mp hmode, rfl⟩)
  · exact .inr (.inr (.inl ⟨UInt32.toNat_inj.mp hfull, rfl⟩))
  · exact .inr (.inr (.inr (.inl ⟨⟨offset.toNat - 0x12, hdequeue⟩, by simp only; omega, rfl⟩)))
  · exact .inr (.inr (.inr (.inr ⟨by omega, rfl⟩)))

namespace Keyboard

variable (keyboard : Keyboard)

/-- Read the byte at an offset. The lowest byte of `DEQUEUE` is read after the event was taken. -/
def checkedRead (offset : Word) : Checked (Byte × Keyboard) :=
  if offset.toNat < 0x10 then do
    let byte ← Header.checkedByte .keyboard keyboard.line offset
    return (byte, keyboard)
  else if offset.toNat = 0x10 then return (keyboard.mode.toByte, keyboard)
  else if offset.toNat = 0x11 then return (if keyboard.full then 1 else 0, keyboard)
  else if offset.toNat = 0x12 then do
    let taken := { keyboard with queue := keyboard.queue.tail, latch := keyboard.queue.headD 0 }
    let byte ← taken.latch.checkedByte 0
    return (byte, taken)
  else if offset.toNat < 0x16 then do
    let lane ← Checked.sub offset 0x12
    let byte ← keyboard.latch.checkedByte lane
    return (byte, keyboard)
  else return (0, keyboard)

/-- Withdraw a request, if there is one. -/
def checkedAcknowledge : Checked Keyboard :=
  match keyboard.pending with
  | 0 => return keyboard
  | pending => do
      let remaining ← Checked.pred pending
      return { keyboard with pending := remaining }

theorem checkedRead_eq_ok (offset : Word) :
    keyboard.checkedRead offset = .ok (keyboard.read offset, keyboard.afterRead offset) := by
  have hbase : (0x12 : Word).toNat = 0x12 := rfl
  rcases KeyboardRegister.ofOffset_cases offset with
    ⟨hheader, hregister⟩ | ⟨rfl, _⟩ | ⟨rfl, _⟩ | ⟨lane, hlane, hregister⟩ | ⟨hle, hregister⟩
  · rw [checkedRead, if_pos hheader, Header.checkedByte_eq_ok _ _ hheader, read, afterRead, takesEvent,
      hregister]
    rfl
  · rfl
  · rfl
  · by_cases hzero : lane = 0
    · subst hzero
      obtain rfl : offset = 0x12 := UInt32.toNat_inj.mp hlane
      rfl
    · have hpos : (lane : Nat) ≠ 0 := fun h => hzero (Fin.ext h)
      obtain ⟨hsub, hnat⟩ := Checked.sub_eq_ok (show (0x12 : Word).toNat ≤ offset.toNat by omega)
      have hlane' : (offset - 0x12).toNat = lane := by omega
      have htakes : (KeyboardRegister.dequeue lane == .dequeue 0) = false := by
        simpa using hzero
      rw [checkedRead, if_neg (by omega), if_neg (by omega), if_neg (by omega), if_neg (by omega),
        if_pos (by omega), hsub, Checked.ok_bind, Word.checkedByte_eq_ok _ (hlane' ▸ lane.isLt), read,
        afterRead, takesEvent, hregister, htakes]
      simp only [hlane', hzero]
      rfl
  · rw [checkedRead, if_neg (by omega), if_neg (by omega), if_neg (by omega), if_neg (by omega),
      if_neg (by omega), read, afterRead, takesEvent, hregister]
    rfl

theorem checkedAcknowledge_eq_ok : keyboard.checkedAcknowledge = .ok keyboard.acknowledge := by
  obtain ⟨queue, latch, mode, line, pending⟩ := keyboard
  cases pending with
  | zero => rfl
  | succ pending => rfl

end Keyboard

end TinyComputer
