import Mathlib.Tactic.IntervalCases
import TinyComputer.Proofs.CheckedPorts
import TinyComputer.Proofs.StorageTransfers

/-!
# Checked storage devices

What a storage device does at an offset of its window, with every index, range, difference, sum and shift
checked: those of its registers, those of the buffer, and those of the units that keep their bytes in
memory. A device with at most four units whose sizes a double word holds never traps, and does what its
total definition does. A transfer is checked once, by comparing where its range ends; that is enough for
every later access.
-/

namespace TinyComputer

variable {offset : Word}

/-! ## Storage units -/

namespace StorageUnit

/-- Units whose sizes are numbers that a double word holds. A storage device has at most four. -/
def Countable (units : List StorageUnit) : Prop :=
  units.length ≤ Storage.maxUnits ∧ ∀ unit ∈ units, unit.size < 2 ^ 64

instance (units : List StorageUnit) : Decidable (Countable units) :=
  inferInstanceAs (Decidable (_ ∧ _))

/-- Read as many bytes as there is room for. Media of the host answer as they do; bytes in memory are
looked for where the range ends, and fill the room exactly. -/
def checkedRead (position : UInt64) (room : Nat) :
    StorageUnit → Checked (Except MediumError (List Byte))
  | memory bytes => do
      let bound ← Checked.addDouble position (UInt64.ofNat room)
      if bound.toNat ≤ bytes.size then do
        let source ← Checked.exactly room (bytes.extract position.toNat bound.toNat).toList
        return .ok source
      else return .error (.readPastEnd position.toNat)
  | unit => return unit.read position.toNat room

/-- Write bytes from a position on. -/
def checkedWrite (position : UInt64) (data : List Byte) :
    StorageUnit → Checked (Except MediumError StorageUnit)
  | memory bytes => do
      let bound ← Checked.addDouble position (UInt64.ofNat data.length)
      if bound.toNat ≤ bytes.size then do
        let source ← Checked.exactly (bound.toNat - position.toNat) data
        return .ok (memory (overwrite bytes position.toNat source))
      else return .error (.writePastEnd position.toNat)
  | unit => return unit.write position.toNat data

variable {position : UInt64}

/-- Ranges that lie within a unit are read without a trap. -/
theorem checkedRead_eq_ok {room : Nat} (unit : StorageUnit) (hsize : unit.size < 2 ^ 64)
    (h : position.toNat + room ≤ unit.size) :
    unit.checkedRead position room = .ok (unit.read position.toNat room) := by
  obtain ⟨hadd, hbound⟩ := Checked.addDouble_ofNat (Nat.lt_of_le_of_lt h hsize)
  cases unit with
  | memory bytes =>
      have hlength : (bytes.extract position.toNat (position.toNat + room)).toList.length = room := by
        rw [size] at h
        simp
        omega
      rw [size] at h
      rw [checkedRead, hadd, Checked.ok_bind, hbound, if_pos h, Checked.exactly, if_pos hlength, read,
        if_pos h]
      rfl
  | _ => rfl

/-- Ranges that end beyond the double words trap, so they have to be refused before they are read. -/
example (bytes : Array Byte) :
    (memory bytes).checkedRead 0xFFFFFFFFFFFFFFFC 4 = .error .overflow := rfl

theorem checkedWrite_eq_ok {data : List Byte} (unit : StorageUnit) (hsize : unit.size < 2 ^ 64)
    (h : position.toNat + data.length ≤ unit.size) :
    unit.checkedWrite position data = .ok (unit.write position.toNat data) := by
  obtain ⟨hadd, hbound⟩ := Checked.addDouble_ofNat (Nat.lt_of_le_of_lt h hsize)
  cases unit with
  | memory bytes =>
      rw [size] at h
      rw [checkedWrite, hadd, Checked.ok_bind, hbound, if_pos h, Nat.add_sub_cancel_left, Checked.exactly,
        if_pos rfl, write, writeError?, if_pos h]
      rfl
  | _ => rfl

end StorageUnit

/-! ## Storage devices -/

/-- The registers of a storage device that a read distinguishes, in the order of their offsets. -/
theorem StorageRegister.ofOffset_cases (offset : Word) :
    (∃ h : offset.toNat < Header.size, ofOffset offset = .header ⟨offset.toNat, h⟩) ∨
    (offset = 0x10 ∧ ofOffset offset = .mode) ∨ (offset = 0x11 ∧ ofOffset offset = .status) ∨
    (offset = 0x12 ∧ ofOffset offset = .unitList) ∨ (offset = 0x13 ∧ ofOffset offset = .operation) ∨
    (∃ h : (offset.toNat - 0x14) / 4 < 8, 0x14 ≤ offset.toNat ∧ offset.toNat < 0x34 ∧
      ofOffset offset = .parameter ⟨(offset.toNat - 0x14) / 4, h⟩
        ⟨(offset.toNat - 0x14) % 4, Nat.mod_lt _ (by decide)⟩) ∨
    (∃ h : (offset.toNat - 0x34) / 4 < 2, 0x34 ≤ offset.toNat ∧ offset.toNat < 0x3C ∧
      ofOffset offset = .result ⟨(offset.toNat - 0x34) / 4, h⟩
        ⟨(offset.toNat - 0x34) % 4, Nat.mod_lt _ (by decide)⟩) ∨
    (∃ h : offset.toNat - 0x200 < 512, 0x200 ≤ offset.toNat ∧
      ofOffset offset = .buffer ⟨offset.toNat - 0x200, h⟩) ∨
    ((0x3C ≤ offset.toNat ∧ offset.toNat < 0x200 ∨ 0x400 ≤ offset.toNat) ∧
      ofOffset offset = .unused) := by
  have hsize : Header.size = 16 := rfl
  -- With a name for the register the comparisons of the offset are taken apart only once.
  generalize hregister : ofOffset offset = register
  unfold ofOffset at hregister
  dsimp only at hregister
  split_ifs at hregister with hheader hmode hstatus hunits hoperation hparameter hresult hbuffer <;>
    subst hregister
  · exact .inl ⟨hheader, rfl⟩
  · exact .inr (.inl ⟨UInt32.toNat_inj.mp hmode, rfl⟩)
  · exact .inr (.inr (.inl ⟨UInt32.toNat_inj.mp hstatus, rfl⟩))
  · exact .inr (.inr (.inr (.inl ⟨UInt32.toNat_inj.mp hunits, rfl⟩)))
  · exact .inr (.inr (.inr (.inr (.inl ⟨UInt32.toNat_inj.mp hoperation, rfl⟩))))
  · exact .inr (.inr (.inr (.inr (.inr (.inl ⟨by omega, by omega, by omega, rfl⟩)))))
  · exact .inr (.inr (.inr (.inr (.inr (.inr (.inl ⟨by omega, by omega, by omega, rfl⟩))))))
  · exact .inr (.inr (.inr (.inr (.inr (.inr (.inr (.inl ⟨by omega, hbuffer.1, rfl⟩)))))))
  · exact .inr (.inr (.inr (.inr (.inr (.inr (.inr (.inr ⟨by omega, rfl⟩)))))))

namespace Storage

variable (storage : Storage)

/-- The position that the parameters select, as a double word. -/
def checkedPosition : Checked UInt64 := do
  let low ← Checked.element storage.parameters 1
  let high ← Checked.element storage.parameters 2
  let shifted ← Checked.shiftLeftDouble high.toUInt64 32
  return low.toUInt64 ||| shifted

/-- Whether a range is aligned and lies within the buffer and within a unit. A range that would end
beyond all double words lies within no unit. -/
def fitsRange (position count unitSize : UInt64) : Bool :=
  position % 4 == 0 && count % 4 == 0 && count.toNat ≤ bufferSize &&
    ((Checked.addDouble position count).toOption.map fun bound => decide (bound ≤ unitSize)).getD false

/-- Copy the selected range of a unit into the start of the buffer. -/
def checkedReadUnit : Checked (StorageStatus × Storage) := do
  let count ← Checked.element storage.parameters 3
  let position ← storage.checkedPosition
  let place ← Checked.element storage.parameters 0
  match storage.units[place.toNat]? with
  | none => return (.unavailable, storage)
  | some unit =>
      if fitsRange position count.toUInt64 (UInt64.ofNat unit.size) then do
        let target ← Checked.prefixTo storage.buffer count.toNat
        let asked := unit.asked (.read position.toNat target.length)
        let units := storage.units.set place.toNat asked
        match ← unit.checkedRead position target.length with
        | .error _ =>
            let residue := unit.residue position.toNat target.length
            return (.physicalError, { storage with units, buffer := fill storage.buffer 0 residue })
        | .ok bytes => do
            let results ← Checked.replace storage.results 0 count
            return (.done, { storage with units, buffer := fill storage.buffer 0 bytes, results })
      else return (.addressError, storage)

/-- Copy the start of the buffer into the selected range of a unit. -/
def checkedWriteUnit : Checked (StorageStatus × Storage) := do
  let count ← Checked.element storage.parameters 3
  let position ← storage.checkedPosition
  let place ← Checked.element storage.parameters 0
  match storage.units[place.toNat]? with
  | none => return (.unavailable, storage)
  | some unit =>
      if fitsRange position count.toUInt64 (UInt64.ofNat unit.size) then do
        let data ← Checked.prefixTo storage.buffer count.toNat
        match ← unit.checkedWrite position data with
        | .error _ =>
            let asked := unit.asked (.write position.toNat data)
            return (.physicalError, { storage with units := storage.units.set place.toNat asked })
        | .ok written => do
            let results ← Checked.replace storage.results 0 count
            return (.done, { storage with units := storage.units.set place.toNat written, results })
      else return (.addressError, storage)

/-- Report the size of a unit, which is a double word. -/
def checkedSizeUnit : Checked (StorageStatus × Storage) := do
  let place ← Checked.element storage.parameters 0
  match storage.units[place.toNat]? with
  | none => return (.unavailable, storage)
  | some unit => do
      let size := UInt64.ofNat unit.size
      let high ← Checked.shiftRightDouble size 32
      return (.done, { storage with results := resultPair size.toUInt32 high.toUInt32 })

/-- What an operation does before its status is recorded. Unknown ones do nothing. -/
def checkedOperate : (operation : Byte) → Checked (StorageStatus × Storage)
  | 1 => storage.checkedReadUnit
  | 2 => storage.checkedWriteUnit
  | 3 => storage.checkedSizeUnit
  | _ => return (.done, storage)

def checkedExecute (operation : Byte) : Checked Storage := do
  let (status, after) ← storage.cleared.checkedOperate operation
  return after.raise status.code

def checkedRead (offset : Word) : Checked Byte :=
  if offset.toNat < 0x10 then Header.checkedByte .storage storage.line offset
  else if offset.toNat = 0x10 then return storage.mode.toByte
  else if offset.toNat = 0x11 then return storage.status
  else if offset.toNat = 0x12 then do
    -- A bit is set for each unit.
    let bit ← Checked.shiftLeft 1 storage.units.length
    let bits ← Checked.sub bit 1
    return bits.toUInt8
  else if 0x14 ≤ offset.toNat ∧ offset.toNat < 0x34 then
    Checked.locate 0x14 offset >>= Checked.laneByte storage.parameters
  else if 0x34 ≤ offset.toNat ∧ offset.toNat < 0x3C then
    Checked.locate 0x34 offset >>= Checked.laneByte storage.results
  else if 0x200 ≤ offset.toNat then do
    let place ← Checked.sub offset 0x200
    if place.toNat < bufferSize then Checked.element storage.buffer place.toNat else return 0
  else return 0

def checkedWrite (offset : Word) (value : Byte) : Checked Storage :=
  if offset.toNat = 0x10 then return { storage with mode := .ofByte value }
  else if offset.toNat = 0x13 then storage.checkedExecute value
  else if 0x14 ≤ offset.toNat ∧ offset.toNat < 0x34 then do
    let parameters ← Checked.locate 0x14 offset >>= (Checked.setLaneByte storage.parameters · value)
    return { storage with parameters }
  else if 0x200 ≤ offset.toNat then do
    let place ← Checked.sub offset 0x200
    if place.toNat < bufferSize then do
      let buffer ← Checked.replace storage.buffer place.toNat value
      return { storage with buffer }
    else return storage
  else return storage

/-- The two halves of a position make a double word. -/
theorem position_lt : storage.position < 2 ^ 64 := by
  have hlow := storage.parameters[1].toNat_lt
  have hhigh := storage.parameters[2].toNat_lt
  have hbound : wordBound = 2 ^ 32 := rfl
  rw [position, hbound]
  omega

theorem toNat_position : (UInt64.ofNat storage.position).toNat = storage.position :=
  UInt64.toNat_ofNat_of_lt' storage.position_lt

theorem checkedPosition_eq_ok : storage.checkedPosition = .ok (UInt64.ofNat storage.position) := by
  have hlow := storage.parameters[1].toNat_lt
  have hhigh := storage.parameters[2].toNat_lt
  have hamount : (UInt64.ofNat 32).toNat % 64 = 32 := rfl
  have hshift : (storage.parameters[2].toUInt64 <<< UInt64.ofNat 32).toNat =
      storage.parameters[2].toNat <<< 32 := by
    rw [UInt64.toNat_shiftLeft, hamount, UInt32.toNat_toUInt64, Nat.shiftLeft_eq]
    exact Nat.mod_eq_of_lt (by omega)
  have hjoined : storage.parameters[1].toUInt64 ||| storage.parameters[2].toUInt64 <<< UInt64.ofNat 32 =
      UInt64.ofNat storage.position := by
    apply UInt64.toNat_inj.mp
    rw [toNat_position, UInt64.toNat_or, hshift, UInt32.toNat_toUInt64, Nat.or_comm,
      ← Nat.shiftLeft_add_eq_or_of_lt hlow, Nat.shiftLeft_eq, position, Nat.add_comm, Nat.mul_comm]
  rw [checkedPosition, Checked.element_eq_ok _ (by decide), Checked.ok_bind,
    Checked.element_eq_ok _ (by decide), Checked.ok_bind, Checked.shiftLeftDouble, if_pos (by decide),
    Checked.ok_bind, hjoined]
  rfl

/-- The comparisons on double words decide what the comparisons on numbers decide. -/
theorem fitsRange_eq {unitSize : Nat} (hsize : unitSize < 2 ^ 64) :
    fitsRange (UInt64.ofNat storage.position) storage.parameters[3].toUInt64 (UInt64.ofNat unitSize) =
      storage.validRange unitSize := by
  have hcount : storage.parameters[3].toUInt64.toNat = storage.count := UInt32.toNat_toUInt64 _
  have hunit : (UInt64.ofNat unitSize).toNat = unitSize := UInt64.toNat_ofNat_of_lt' hsize
  have hmod : ∀ number : UInt64, (number % 4 == 0) = (number.toNat % 4 == 0) := by
    intro number
    rw [Bool.eq_iff_iff, beq_iff_eq, beq_iff_eq, ← UInt64.toNat_inj, UInt64.toNat_mod]
    rfl
  have hbound : ((Checked.addDouble (UInt64.ofNat storage.position)
      storage.parameters[3].toUInt64).toOption.map fun bound =>
        decide (bound ≤ UInt64.ofNat unitSize)).getD false =
      decide (storage.position + storage.count ≤ unitSize) := by
    -- Where the sum overflows there is no bound to compare, and the range ends beyond every unit.
    rw [Checked.addDouble, Checked.doubleWord, toNat_position, hcount]
    by_cases hlt : storage.position + storage.count < 2 ^ 64
    · rw [if_pos hlt]
      simp only [Except.toOption, Option.map_some, Option.getD_some, UInt64.le_iff_toNat_le, hunit,
        UInt64.toNat_ofNat_of_lt' hlt]
    · rw [if_neg hlt, decide_eq_false (by omega)]
      rfl
  rw [fitsRange, hbound, hmod, hmod, toNat_position, hcount]
  rfl

variable {storage}

/-- Changing the selected unit is replacing it. -/
theorem set_eq_modifySelected {unit : StorageUnit}
    (hunit : storage.units[storage.unitIndex]? = some unit) (f : StorageUnit → StorageUnit) :
    storage.units.set storage.unitIndex (f unit) = storage.modifySelected f := by
  apply List.ext_getElem?
  intro i
  rw [List.getElem?_set, getElem?_modifySelected]
  split
  next heq =>
    obtain ⟨hlt, _⟩ := List.getElem?_eq_some_iff.mp hunit
    rw [if_pos hlt, ← heq, hunit]
    rfl
  next => rfl

/-- A range that passed the comparisons lies within the buffer and the unit. -/
theorem checkedReadUnit_eq_ok (hunits : StorageUnit.Countable storage.units) :
    storage.cleared.checkedReadUnit = .ok storage.cleared.readUnit := by
  rw [checkedReadUnit, Checked.element_eq_ok _ (by decide), Checked.ok_bind, checkedPosition_eq_ok,
    Checked.ok_bind, Checked.element_eq_ok _ (by decide), Checked.ok_bind, ← unitIndex, ← count, readUnit]
  cases hunit : storage.cleared.units[storage.cleared.unitIndex]? with
  | none => rfl
  | some unit =>
      have hsize : unit.size < 2 ^ 64 := hunits.2 unit (List.mem_of_getElem? hunit)
      dsimp only
      rw [fitsRange_eq _ hsize]
      split
      next hvalid =>
        obtain ⟨_, _, hcount, hbound⟩ := validRange_iff.mp hvalid
        have hlength : (storage.cleared.buffer.toList.take storage.cleared.count).length =
            storage.cleared.count := by
          simpa using hcount
        rw [Checked.prefixTo, if_pos hcount, Checked.ok_bind, hlength,
          unit.checkedRead_eq_ok hsize (by rwa [toNat_position]), Checked.ok_bind, toNat_position,
          set_eq_modifySelected hunit (·.asked (.read storage.cleared.position storage.cleared.count))]
        cases unit.read storage.cleared.position storage.cleared.count with
        | error error => rfl
        | ok bytes => rfl
      next => rfl

theorem checkedWriteUnit_eq_ok (hunits : StorageUnit.Countable storage.units) :
    storage.cleared.checkedWriteUnit = .ok storage.cleared.writeUnit := by
  rw [checkedWriteUnit, Checked.element_eq_ok _ (by decide), Checked.ok_bind, checkedPosition_eq_ok,
    Checked.ok_bind, Checked.element_eq_ok _ (by decide), Checked.ok_bind, ← unitIndex, ← count,
    writeUnit]
  cases hunit : storage.cleared.units[storage.cleared.unitIndex]? with
  | none => rfl
  | some unit =>
      have hsize : unit.size < 2 ^ 64 := hunits.2 unit (List.mem_of_getElem? hunit)
      dsimp only
      rw [fitsRange_eq _ hsize]
      split
      next hvalid =>
        obtain ⟨_, _, hcount, hbound⟩ := validRange_iff.mp hvalid
        have hlength : (storage.cleared.buffer.toList.take storage.cleared.count).length =
            storage.cleared.count := by
          simpa using hcount
        rw [Checked.prefixTo, if_pos hcount, Checked.ok_bind,
          unit.checkedWrite_eq_ok hsize (by rwa [toNat_position, hlength]), Checked.ok_bind,
          toNat_position, StorageUnit.write]
        generalize storage.cleared.buffer.toList.take storage.cleared.count = data
        cases unit.writeError? storage.cleared.position data with
        | some error =>
            dsimp only
            rw [set_eq_modifySelected hunit (·.asked (.write storage.cleared.position data))]
            rfl
        | none =>
            dsimp only
            rw [← set_eq_modifySelected hunit (·.store storage.cleared.position data)]
            rfl
      next => rfl

theorem checkedSizeUnit_eq_ok (hunits : StorageUnit.Countable storage.units) :
    storage.checkedSizeUnit = .ok storage.sizeUnit := by
  rw [checkedSizeUnit, Checked.element_eq_ok _ (by decide), Checked.ok_bind, ← unitIndex, sizeUnit]
  cases hunit : storage.units[storage.unitIndex]? with
  | none => rfl
  | some unit =>
      have hsize : unit.size < 2 ^ 64 := hunits.2 unit (List.mem_of_getElem? hunit)
      have hnat : (UInt64.ofNat unit.size).toNat = unit.size := UInt64.toNat_ofNat_of_lt' hsize
      have hlow : (UInt64.ofNat unit.size).toUInt32 = UInt32.ofNat unit.size := by
        rw [← UInt32.toNat_inj, UInt64.toNat_toUInt32, hnat, UInt32.toNat_ofNat']
      have hhigh : (UInt64.ofNat unit.size >>> UInt64.ofNat 32).toUInt32 =
          UInt32.ofNat (unit.size / wordBound) := by
        have hamount : (UInt64.ofNat 32).toNat % 64 = 32 := rfl
        rw [← UInt32.toNat_inj, UInt64.toNat_toUInt32, UInt64.toNat_shiftRight, hamount, hnat,
          UInt32.toNat_ofNat', Nat.shiftRight_eq_div_pow]
      dsimp only
      rw [Checked.shiftRightDouble, if_pos (by decide), Checked.ok_bind, hlow, hhigh]
      rfl

theorem checkedExecute_eq_ok (hunits : StorageUnit.Countable storage.units) (operation : Byte) :
    storage.checkedExecute operation = .ok (storage.execute operation) := by
  unfold checkedExecute checkedOperate execute
  rw [← cleared]
  dsimp only
  split
  next =>
    rw [checkedReadUnit_eq_ok hunits]
    rfl
  next =>
    rw [checkedWriteUnit_eq_ok hunits]
    rfl
  next =>
    have hsize : storage.cleared.checkedSizeUnit = _ := checkedSizeUnit_eq_ok hunits
    rw [hsize]
    rfl
  next => simp [pure, Except.pure]

/-- The list of units has a bit for each of the four units that there can be. -/
theorem checked_unitList {count : Nat} (h : count ≤ 4) :
    (Checked.shiftLeft 1 count >>= fun bit => Checked.sub bit 1 >>= fun bits =>
      Except.ok bits.toUInt8) = .ok (UInt8.ofNat ((1 <<< count) - 1)) := by
  interval_cases count <;> rfl

/-- Offsets from the start of the buffer on are places behind it. -/
theorem sub_bufferStart (h : 0x200 ≤ offset.toNat) :
    Checked.sub offset 0x200 = .ok (offset - 0x200) ∧
      (offset - 0x200).toNat = offset.toNat - 0x200 :=
  Checked.sub_eq_ok h

theorem checkedRead_eq_ok (hunits : StorageUnit.Countable storage.units) (offset : Word) :
    storage.checkedRead offset = .ok (storage.read offset) := by
  rcases StorageRegister.ofOffset_cases offset with
    ⟨hheader, hregister⟩ | ⟨rfl, _⟩ | ⟨rfl, _⟩ | ⟨rfl, _⟩ | ⟨rfl, _⟩ | ⟨hindex, hle, hlt, hregister⟩ |
    ⟨hindex, hle, hlt, hregister⟩ | ⟨hindex, hle, hregister⟩ | ⟨houtside, hregister⟩
  · rw [checkedRead, if_pos hheader, Header.checkedByte_eq_ok _ _ hheader, read, hregister]
  · rfl
  · rfl
  · exact checked_unitList hunits.1
  · rfl
  · have hbase : (0x14 : Word).toNat ≤ offset.toNat := hle
    rw [checkedRead, if_neg (by omega), if_neg (by omega), if_neg (by omega), if_neg (by omega),
      if_pos ⟨hle, hlt⟩, read, hregister]
    exact Checked.laneByte_eq_ok storage.parameters hbase hindex (Nat.mod_lt _ (by decide))
  · have hbase : (0x34 : Word).toNat ≤ offset.toNat := hle
    rw [checkedRead, if_neg (by omega), if_neg (by omega), if_neg (by omega), if_neg (by omega),
      if_neg (by omega), if_pos ⟨hle, hlt⟩, read, hregister]
    exact Checked.laneByte_eq_ok storage.results hbase hindex (Nat.mod_lt _ (by decide))
  · obtain ⟨hsub, hplace⟩ := sub_bufferStart hle
    rw [checkedRead, if_neg (by omega), if_neg (by omega), if_neg (by omega), if_neg (by omega),
      if_neg (by omega), if_neg (by omega), if_pos hle, hsub, Checked.ok_bind, hplace, if_pos hindex,
      Checked.element_eq_ok storage.buffer hindex, read, hregister]
    rfl
  · rw [checkedRead, if_neg (by omega), if_neg (by omega), if_neg (by omega), if_neg (by omega),
      if_neg (by omega), if_neg (by omega), read, hregister]
    split
    next hle =>
      have hbuffer : bufferSize = 512 := rfl
      obtain ⟨hsub, hplace⟩ := sub_bufferStart hle
      rw [hsub, Checked.ok_bind, hplace, if_neg (by omega)]
      rfl
    next => rfl

theorem checkedWrite_eq_ok (hunits : StorageUnit.Countable storage.units) (offset : Word)
    (value : Byte) : storage.checkedWrite offset value = .ok (storage.write offset value) := by
  have hsize : Header.size = 16 := rfl
  rcases StorageRegister.ofOffset_cases offset with
    ⟨hheader, hregister⟩ | ⟨rfl, _⟩ | ⟨rfl, _⟩ | ⟨rfl, _⟩ | ⟨rfl, _⟩ | ⟨hindex, hle, hlt, hregister⟩ |
    ⟨hindex, hle, hlt, hregister⟩ | ⟨hindex, hle, hregister⟩ | ⟨houtside, hregister⟩
  · rw [checkedWrite, if_neg (by omega), if_neg (by omega), if_neg (by omega), if_neg (by omega), write,
      hregister]
    rfl
  · rfl
  · rfl
  · rfl
  · exact checkedExecute_eq_ok hunits value
  · have hbase : (0x14 : Word).toNat ≤ offset.toNat := hle
    have hwrite := Checked.setLaneByte_eq_ok storage.parameters value hbase hindex
      (Nat.mod_lt _ (by decide))
    rw [checkedWrite, if_neg (by omega), if_neg (by omega), if_pos ⟨hle, hlt⟩, hwrite, write, hregister]
    rfl
  · rw [checkedWrite, if_neg (by omega), if_neg (by omega), if_neg (by omega), if_neg (by omega), write,
      hregister]
    rfl
  · obtain ⟨hsub, hplace⟩ := sub_bufferStart hle
    rw [checkedWrite, if_neg (by omega), if_neg (by omega), if_neg (by omega), if_pos hle, hsub,
      Checked.ok_bind, hplace, if_pos hindex, Checked.replace_eq_ok storage.buffer hindex, write,
      hregister]
    rfl
  · rw [checkedWrite, if_neg (by omega), if_neg (by omega), if_neg (by omega), write, hregister]
    split
    next hle =>
      have hbuffer : bufferSize = 512 := rfl
      obtain ⟨hsub, hplace⟩ := sub_bufferStart hle
      rw [hsub, Checked.ok_bind, hplace, if_neg (by omega)]
      rfl
    next => rfl

end Storage

end TinyComputer
