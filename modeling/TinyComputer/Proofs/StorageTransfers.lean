import Mathlib.Tactic.SplitIfs
import TinyComputer.Device.Storage
import TinyComputer.Proofs.ByteBlock
import TinyComputer.Proofs.LittleEndian

/-!
# Transfers of the storage device

A transfer that ends well moves exactly the bytes that the parameters select, between a unit in memory
and the start of the buffer, and leaves every other byte of the units and of the buffer. Nothing else
that a program does to the window changes such a unit, and an operation that does not end well changes
neither the units nor the buffer. So what was written to a unit comes back, whatever was put into the
buffer in the meantime. A medium of the host may answer otherwise, but no access asks it for more than
one transfer, and nothing but these transfers makes it another one.
-/

namespace TinyComputer

namespace StorageUnit

/-- Writing bytes within a unit replaces the bytes at their places and no others. -/
theorem getElem?_overwrite {bytes : Array Byte} {position : Nat} {data : List Byte}
    (h : position + data.length ≤ bytes.size) (place : Nat) :
    (overwrite bytes position data)[place]? =
      if position ≤ place ∧ place < position + data.length then data[place - position]?
      else bytes[place]? := by
  induction data generalizing bytes position with
  | nil => rw [overwrite, if_neg (by simp)]
  | cons byte rest ih =>
      rw [List.length_cons] at h ⊢
      rw [overwrite, ih (by simp; omega), Array.getElem?_setIfInBounds]
      -- Only a place behind the first byte is one of the remaining bytes.
      rcases Nat.lt_trichotomy place position with hlt | rfl | hgt
      · rw [if_neg (by omega), if_neg (by omega), if_neg (by omega)]
      · rw [if_neg (by omega), if_pos rfl, if_pos (by omega), if_pos (by omega)]
        simp
      · have hindex : place - position = place - (position + 1) + 1 := by omega
        rw [if_neg (Nat.ne_of_lt hgt), hindex, List.getElem?_cons_succ]
        apply if_congr _ rfl rfl
        omega

end StorageUnit

namespace StorageStatus

theorem code_eq_zero_iff {status : StorageStatus} : status.code = 0 ↔ status = done := by
  cases status <;> decide

end StorageStatus

namespace StorageRegister

theorem ofOffset_eq_operation_iff {offset : Word} : ofOffset offset = operation ↔ offset = 0x13 := by
  constructor
  · intro h
    apply UInt32.toNat_inj.mp
    change offset.toNat = 0x13
    dsimp only [ofOffset] at h
    split_ifs at h
    assumption
  · rintro rfl
    rfl

/-- A parameter byte is at the place of its register and its lane. -/
theorem ofOffset_eq_parameter_iff {offset : Word} {index : Fin 8} {lane : Fin 4} :
    ofOffset offset = parameter index lane ↔
      offset = 0x14 + 4 * UInt32.ofNat index + UInt32.ofNat lane := by
  constructor
  · intro h
    apply UInt32.toNat_inj.mp
    have hindex := index.isLt
    have hlane := lane.isLt
    dsimp only [ofOffset] at h
    split_ifs at h with hheader hmode hstatus hunits hoperation hparameter
    obtain ⟨hindex', hlane'⟩ := parameter.inj h
    have hindex' := congrArg Fin.val hindex'
    have hlane' := congrArg Fin.val hlane'
    have hsize : Header.size = 16 := rfl
    simp only [UInt32.toNat_add, UInt32.toNat_mul, UInt32.toNat_ofNat', UInt32.reduceToNat]
    simp only at hindex' hlane'
    omega
  · rintro rfl
    revert index lane
    decide

theorem exists_parameter {offset : Word} (hle : 0x14 ≤ offset.toNat) (hlt : offset.toNat < 0x34) :
    ∃ index lane, ofOffset offset = parameter index lane := by
  have hheader : Header.size = 16 := rfl
  dsimp only [ofOffset]
  rw [dif_neg (by omega), if_neg (by omega), if_neg (by omega), if_neg (by omega),
    if_neg (by omega), dif_pos (by omega)]
  exact ⟨_, _, rfl⟩

theorem ofOffset_buffer (index : Fin 512) :
    ofOffset (0x200 + UInt32.ofNat index) = buffer index := by
  have hindex := index.isLt
  have hoffset : (0x200 + UInt32.ofNat index).toNat = 0x200 + index := by
    simp only [UInt32.toNat_add, UInt32.toNat_ofNat', UInt32.reduceToNat]
    omega
  have hheader : Header.size = 16 := rfl
  -- The offset lies behind every other register.
  dsimp only [ofOffset]
  rw [dif_neg (by omega), if_neg (by omega), if_neg (by omega), if_neg (by omega),
    if_neg (by omega), dif_neg (by omega), dif_neg (by omega), dif_pos (by omega), buffer.injEq]
  apply Fin.ext
  change (0x200 + UInt32.ofNat index).toNat - 0x200 = index
  omega

end StorageRegister

namespace Storage

theorem fill_eq_store (buffer : Vector Byte 512) (index : Nat) (data : List Byte) :
    fill buffer index data = ByteBlock.store buffer index data := by
  induction data generalizing buffer index with
  | nil => rfl
  | cons byte rest ih => rw [fill, ih, ByteBlock.store_cons]

/-- Bytes that are put into the buffer replace those at their places and no others. -/
theorem getElem_fill (buffer : Vector Byte 512) (index : Nat) (data : List Byte) {i : Nat}
    (hi : i < 512) :
    (fill buffer index data)[i] =
      if index ≤ i then data[i - index]?.getD buffer[i] else buffer[i] := by
  simp only [fill_eq_store]
  exact ByteBlock.getElem_store buffer index data hi

/-! ## What a program sees of a storage device -/

/-- The word that a program reads at an offset. -/
def register (storage : Storage) (offset : Word) : Word :=
  Word.ofBytes (List.ofFn fun lane : Fin 4 => storage.read (offset + UInt32.ofNat lane))

/-- The byte that a program reads at a place of `DATA`. -/
def data (storage : Storage) (index : Nat) : Byte :=
  storage.read (0x200 + UInt32.ofNat index)

/-- The byte at a place of a unit that keeps its bytes in memory. -/
def byte? (storage : Storage) (unit place : Nat) : Option Byte :=
  match storage.units[unit]? with
  | some (.memory bytes) => bytes[place]?
  | _ => none

/-- Whether all units keep their bytes in memory. -/
def MemoryBacked (storage : Storage) : Prop :=
  ∀ unit ∈ storage.units, ∃ bytes, unit = .memory bytes

theorem register_eq {storage : Storage} {offset word : Word}
    (h : ∀ lane : Fin 4, storage.read (offset + UInt32.ofNat lane) = word.byte lane) :
    storage.register offset = word := by
  simp only [register, h]
  exact Word.ofBytes_lanes word

theorem register_parameter (storage : Storage) (index : Fin 8) :
    storage.register (0x14 + 4 * UInt32.ofNat index) = storage.parameters.get index := by
  apply register_eq
  intro lane
  rw [read, StorageRegister.ofOffset_eq_parameter_iff.mpr rfl]
  rfl

theorem register_result (storage : Storage) (index : Fin 2) :
    storage.register (0x34 + 4 * UInt32.ofNat index) = storage.results.get index := by
  have hregister : ∀ (index : Fin 2) (lane : Fin 4),
      StorageRegister.ofOffset (0x34 + 4 * UInt32.ofNat index + UInt32.ofNat lane) =
        .result index lane := by
    decide
  apply register_eq
  intro lane
  rw [read, hregister]
  rfl

theorem data_eq (storage : Storage) {index : Nat} (hindex : index < 512) :
    storage.data index = storage.buffer[index] := by
  rw [data, read, StorageRegister.ofOffset_buffer ⟨index, hindex⟩]
  rfl

theorem data_congr {first second : Storage} (h : first.buffer = second.buffer) {index : Nat}
    (hindex : index < 512) : first.data index = second.data index := by
  simp only [data_eq _ hindex, h]

theorem byte?_congr {first second : Storage} (h : first.units = second.units) (unit place : Nat) :
    first.byte? unit place = second.byte? unit place := by
  rw [byte?, byte?, h]

theorem byte?_of_memory {storage : Storage} {unit : Nat} {bytes : Array Byte}
    (h : storage.units[unit]? = some (.memory bytes)) (place : Nat) :
    storage.byte? unit place = bytes[place]? := by
  rw [byte?, h]

/-! ## Operations -/

/-- The parameters select a unit with the given bytes, and an aligned range that lies within the unit
and within the buffer. -/
structure Selects (storage : Storage) (bytes : Array Byte) : Prop where
  unit : storage.units[storage.unitIndex]? = some (.memory bytes)
  valid : storage.validRange bytes.size = true

/-- The bytes of the selected range. -/
def selected (storage : Storage) (bytes : Array Byte) : List Byte :=
  (bytes.toList.drop storage.position).take storage.count

variable {storage : Storage} {bytes : Array Byte}

theorem validRange_iff {size : Nat} :
    storage.validRange size = true ↔
      storage.position % 4 = 0 ∧ storage.count % 4 = 0 ∧ storage.count ≤ 512 ∧
        storage.position + storage.count ≤ size := by
  simp [validRange, bufferSize, alignment, and_assoc]

theorem selects_iff :
    storage.Selects bytes ↔ storage.units[storage.unitIndex]? = some (.memory bytes) ∧
      storage.position % 4 = 0 ∧ storage.count % 4 = 0 ∧ storage.count ≤ 512 ∧
        storage.position + storage.count ≤ bytes.size := by
  rw [← validRange_iff]
  exact ⟨fun h => ⟨h.unit, h.valid⟩, fun h => ⟨h.1, h.2⟩⟩

theorem Selects.count_le (h : storage.Selects bytes) : storage.count ≤ 512 :=
  (validRange_iff.mp h.valid).2.2.1

theorem Selects.bound_le (h : storage.Selects bytes) :
    storage.position + storage.count ≤ bytes.size :=
  (validRange_iff.mp h.valid).2.2.2

/-- The device after the selected range of a unit was copied into the buffer. -/
def loaded (storage : Storage) (bytes : Array Byte) : Storage :=
  { storage with
    buffer := fill storage.buffer 0 (storage.selected bytes)
    results := resultPair (storage.parameters.get 3) 0 }

/-- The device after the start of the buffer was copied into the selected range of a unit. -/
def stored (storage : Storage) : Storage :=
  { storage with
    units := storage.modifySelected
      (·.store storage.position (storage.buffer.toList.take storage.count))
    results := resultPair (storage.parameters.get 3) 0 }

/-- The device at the start of an operation: results of an earlier one are cleared. -/
def cleared (storage : Storage) : Storage :=
  { storage with results := resultPair 0 0 }

/-- A change that leaves the selected unit as it is leaves all units. -/
theorem modifySelected_eq_self {unit : StorageUnit} {f : StorageUnit → StorageUnit}
    (hunit : storage.units[storage.unitIndex]? = some unit) (hf : f unit = unit) :
    storage.modifySelected f = storage.units := by
  apply List.ext_getElem?
  intro i
  rw [getElem?_modifySelected]
  split
  next heq => rw [← heq, hunit, Option.map_some, hf]
  next => rfl

/-- A transfer goes through if the parameters select a range of a unit. Otherwise it fails, in both
directions with the same status, and moves nothing. -/
theorem transfer_cases (hmemory : storage.MemoryBacked) :
    (∃ bytes, storage.Selects bytes ∧
      storage.cleared.readUnit = (.done, storage.loaded bytes) ∧
      storage.cleared.writeUnit = (.done, storage.stored)) ∨
    ((∀ bytes, ¬ storage.Selects bytes) ∧ ∃ status, status ≠ .done ∧
      storage.cleared.readUnit = (status, storage.cleared) ∧
      storage.cleared.writeUnit = (status, storage.cleared)) := by
  -- Clearing the results does not change what the parameters select.
  cases hunit : storage.cleared.units[storage.cleared.unitIndex]? with
  | none =>
      right
      refine ⟨fun bytes h => ?_, .unavailable, by decide, ?_, ?_⟩
      · exact absurd (hunit.symm.trans h.unit) (by simp)
      · simp [readUnit, hunit]
      · simp [writeUnit, hunit]
  | some unit =>
      obtain ⟨bytes, rfl⟩ := hmemory unit (List.mem_of_getElem? hunit)
      cases hvalid : storage.cleared.validRange bytes.size with
      | true =>
          have hselects : storage.Selects bytes := ⟨hunit, hvalid⟩
          have hbound : storage.cleared.position + storage.cleared.count ≤ bytes.size :=
            hselects.bound_le
          have hlength : min storage.cleared.count 512 = storage.cleared.count :=
            Nat.min_eq_left hselects.count_le
          left
          refine ⟨bytes, hselects, ?_, ?_⟩
          · have hasked : storage.cleared.modifySelected
                (·.asked (.read storage.cleared.position storage.cleared.count)) = storage.units :=
              modifySelected_eq_self hunit rfl
            simp [readUnit, hunit, StorageUnit.size, hvalid, StorageUnit.read, hbound, hasked]
            rfl
          · simp [writeUnit, hunit, StorageUnit.size, hvalid, StorageUnit.writeError?, hlength, hbound]
            rfl
      | false =>
          right
          refine ⟨fun other h => ?_, .addressError, by decide, ?_, ?_⟩
          · obtain rfl : bytes = other := by simpa using hunit.symm.trans h.unit
            exact absurd (hvalid.symm.trans h.valid) (by decide)
          · simp [readUnit, hunit, StorageUnit.size, hvalid]
          · simp [writeUnit, hunit, StorageUnit.size, hvalid]

/-- What an operation leads to: it moves the selected range of a unit, or ends well without moving
anything, or fails. -/
inductive Executed (storage : Storage) : (operation : Byte) → (after : Storage) → Prop
  | loaded {bytes : Array Byte} : storage.Selects bytes →
      Executed storage 1 ((storage.loaded bytes).raise 0)
  | stored {bytes : Array Byte} : storage.Selects bytes →
      Executed storage 2 (storage.stored.raise 0)
  | answered {operation : Byte} (results : Vector Word 2) : operation ≠ 1 → operation ≠ 2 →
      Executed storage operation ({ storage with results }.raise 0)
  | failed {operation : Byte} {status : StorageStatus} : status ≠ .done →
      (operation = 1 ∨ operation = 2 → ∀ bytes, ¬ storage.Selects bytes) →
      Executed storage operation (storage.cleared.raise status.code)

theorem executed_execute (hmemory : storage.MemoryBacked) (operation : Byte) :
    storage.Executed operation (storage.execute operation) := by
  unfold execute
  rw [← cleared]
  dsimp only
  split
  next =>
    rcases transfer_cases hmemory with
      ⟨bytes, hselects, hread, _⟩ | ⟨hselects, status, hstatus, hread, _⟩
    · rw [hread]
      exact .loaded hselects
    · rw [hread]
      exact .failed hstatus fun _ => hselects
  next =>
    rcases transfer_cases hmemory with
      ⟨bytes, hselects, _, hwrite⟩ | ⟨hselects, status, hstatus, _, hwrite⟩
    · rw [hwrite]
      exact .stored hselects
    · rw [hwrite]
      exact .failed hstatus fun _ => hselects
  next =>
    unfold sizeUnit
    split
    next => exact .failed (fun hdone => StorageStatus.noConfusion hdone) (by simp)
    next => exact .answered _ (by decide) (by decide)
  next hread hwrite _ => exact .answered _ hread hwrite

namespace Executed

variable {operation : Byte} {after : Storage}

theorem exists_loaded (h : storage.Executed 1 after) (hdone : after.status = 0) :
    ∃ bytes, storage.Selects bytes ∧ after.units = storage.units ∧
      after.buffer = (storage.loaded bytes).buffer ∧
      after.results = resultPair (storage.parameters.get 3) 0 := by
  cases h with
  | loaded hselects => exact ⟨_, hselects, rfl, rfl, rfl⟩
  | answered _ hone => contradiction
  | failed hstatus => exact absurd (StorageStatus.code_eq_zero_iff.mp hdone) hstatus

theorem exists_stored (h : storage.Executed 2 after) (hdone : after.status = 0) :
    ∃ bytes, storage.Selects bytes ∧ after.units = storage.stored.units ∧
      after.buffer = storage.buffer ∧ after.results = resultPair (storage.parameters.get 3) 0 := by
  cases h with
  | stored hselects => exact ⟨_, hselects, rfl, rfl, rfl⟩
  | answered _ _ htwo => contradiction
  | failed hstatus => exact absurd (StorageStatus.code_eq_zero_iff.mp hdone) hstatus

/-- A transfer ends well exactly with a selected range. -/
theorem status_eq_zero_iff (h : storage.Executed operation after)
    (htransfer : operation = 1 ∨ operation = 2) :
    after.status = 0 ↔ ∃ bytes, storage.Selects bytes := by
  cases h with
  | loaded hselects => exact ⟨fun _ => ⟨_, hselects⟩, fun _ => rfl⟩
  | stored hselects => exact ⟨fun _ => ⟨_, hselects⟩, fun _ => rfl⟩
  | answered _ hone htwo => exact absurd htransfer (not_or.mpr ⟨hone, htwo⟩)
  | failed hstatus hrefused =>
      constructor
      · intro hdone
        exact absurd (StorageStatus.code_eq_zero_iff.mp hdone) hstatus
      · rintro ⟨bytes, hselects⟩
        exact absurd hselects (hrefused htransfer bytes)

/-- Only an operation that stores changes the units. -/
theorem units_eq (h : storage.Executed operation after)
    (hstored : operation = 2 → after.status ≠ 0) : after.units = storage.units := by
  cases h with
  | loaded => rfl
  | stored => exact absurd rfl (hstored rfl)
  | answered => rfl
  | failed => rfl

theorem failed_eq (h : storage.Executed operation after) (hfailed : after.status ≠ 0) :
    after.buffer = storage.buffer ∧ after.results = resultPair 0 0 := by
  cases h with
  | loaded => exact absurd rfl hfailed
  | stored => exact absurd rfl hfailed
  | answered => exact absurd rfl hfailed
  | failed => exact ⟨rfl, rfl⟩

theorem memoryBacked (h : storage.Executed operation after) (hmemory : storage.MemoryBacked) :
    after.MemoryBacked := by
  cases h with
  | loaded => exact hmemory
  | stored =>
      intro unit hunit
      obtain ⟨place, hplace⟩ := List.mem_iff_getElem?.mp hunit
      change (storage.units.modify _ _)[place]? = some unit at hplace
      rw [List.getElem?_modify, Option.map_eq_map, Option.map_eq_some_iff] at hplace
      obtain ⟨before, hbefore, rfl⟩ := hplace
      obtain ⟨bytes, rfl⟩ := hmemory before (List.mem_of_getElem? hbefore)
      split
      next => exact ⟨_, rfl⟩
      next => exact ⟨_, rfl⟩
  | answered => exact hmemory
  | failed => exact hmemory

end Executed

/-! ## The bytes that a transfer moves -/

theorem some_data_loaded (h : storage.Selects bytes) {i : Nat} (hi : i < storage.count) :
    some ((storage.loaded bytes).data i) =
      storage.byte? storage.unitIndex (storage.position + i) := by
  have hcount := h.count_le
  have hbound := h.bound_le
  have hbuffer : i < 512 := Nat.lt_of_lt_of_le hi hcount
  have hbyte : (storage.selected bytes)[i]? = bytes[storage.position + i]? := by
    simp [selected, hi]
  rw [data_eq _ hbuffer, loaded, getElem_fill _ _ _ hbuffer, if_pos (Nat.zero_le i), Nat.sub_zero,
    hbyte, byte?_of_memory h.unit, Array.getElem?_eq_getElem (by omega), Option.getD_some]

theorem data_loaded_of_le {i : Nat} (hi : storage.count ≤ i) (hbuffer : i < 512) :
    (storage.loaded bytes).data i = storage.data i := by
  have hbyte : (storage.selected bytes)[i]? = none := by
    simp [selected]
    omega
  rw [data_eq _ hbuffer, data_eq _ hbuffer, loaded, getElem_fill _ _ _ hbuffer,
    if_pos (Nat.zero_le i), Nat.sub_zero, hbyte]
  rfl

theorem Selects.unit_stored (h : storage.Selects bytes) :
    storage.stored.units[storage.unitIndex]? = some (.memory (StorageUnit.overwrite bytes
      storage.position (storage.buffer.toList.take storage.count))) := by
  rw [stored, getElem?_modifySelected, if_pos rfl, h.unit]
  rfl

theorem byte?_stored (h : storage.Selects bytes) (unit place : Nat) :
    storage.stored.byte? unit place =
      if unit = storage.unitIndex ∧ storage.position ≤ place ∧
          place < storage.position + storage.count then
        some (storage.data (place - storage.position))
      else storage.byte? unit place := by
  have hcount := h.count_le
  have hbound := h.bound_le
  have hlength : (storage.buffer.toList.take storage.count).length = storage.count := by
    simp
    omega
  by_cases hunit : unit = storage.unitIndex
  · subst hunit
    rw [byte?_of_memory h.unit_stored, byte?_of_memory h.unit,
      StorageUnit.getElem?_overwrite (by omega), hlength]
    simp only [true_and]
    split
    next hrange =>
      have hindex : place - storage.position < storage.count := by omega
      rw [data_eq _ (Nat.lt_of_lt_of_le hindex hcount), List.getElem?_take_of_lt hindex]
      simp
    next => rfl
  · have hother : storage.stored.units[unit]? = storage.units[unit]? :=
      (storage.getElem?_modifySelected _ unit).trans (if_neg (Ne.symm hunit))
    rw [if_neg fun hrange => hunit hrange.1, byte?, hother, byte?]

/-! ## Accesses to the window -/

/-- A byte access of a program. -/
inductive Access where
  | read (offset : Word)
  | write (offset : Word) (value : Byte)
  deriving DecidableEq, Repr

/-- The device after an access. Reading has no effect on it. -/
def access (storage : Storage) : Access → Storage
  | .read _ => storage
  | .write offset value => storage.write offset value

def accessAll (storage : Storage) (accesses : List Access) : Storage :=
  accesses.foldl access storage

/-- What a write to another offset than `OP` may replace. -/
theorem write_eq_of_ne (storage : Storage) {offset : Word} (hoffset : offset ≠ 0x13) (value : Byte) :
    ∃ mode parameters buffer, storage.write offset value = { storage with mode, parameters, buffer } := by
  unfold write
  split
  next => exact ⟨_, storage.parameters, storage.buffer, rfl⟩
  next hoperation => exact absurd (StorageRegister.ofOffset_eq_operation_iff.mp hoperation) hoffset
  next => exact ⟨storage.mode, _, storage.buffer, rfl⟩
  next => exact ⟨storage.mode, storage.parameters, _, rfl⟩
  next => exact ⟨storage.mode, storage.parameters, storage.buffer, rfl⟩

/-- Only a write to `OP` does anything to the units. -/
theorem units_write_of_ne (storage : Storage) {offset : Word} (hoffset : offset ≠ 0x13)
    (value : Byte) : (storage.write offset value).units = storage.units := by
  obtain ⟨_, _, _, hwrite⟩ := storage.write_eq_of_ne hoffset value
  rw [hwrite]

/-- Only a `WRITE` that ends well does anything to the units. -/
theorem units_access (hmemory : storage.MemoryBacked) {access : Access}
    (haccess : access = .write 0x13 2 → (storage.access access).status ≠ 0) :
    (storage.access access).units = storage.units := by
  cases access with
  | read offset => rfl
  | write offset value =>
      by_cases hoffset : offset = 0x13
      · subst hoffset
        apply (executed_execute hmemory value).units_eq
        rintro rfl
        exact haccess rfl
      · exact storage.units_write_of_ne hoffset value

theorem memoryBacked_access (hmemory : storage.MemoryBacked) (access : Access) :
    (storage.access access).MemoryBacked := by
  cases access with
  | read offset => exact hmemory
  | write offset value =>
      by_cases hoffset : offset = 0x13
      · subst hoffset
        exact (executed_execute hmemory value).memoryBacked hmemory
      · rw [MemoryBacked, Storage.access, storage.units_write_of_ne hoffset value]
        exact hmemory

theorem memoryBacked_accessAll (hmemory : storage.MemoryBacked) (accesses : List Access) :
    (storage.accessAll accesses).MemoryBacked := by
  induction accesses generalizing storage with
  | nil => exact hmemory
  | cons access accesses ih => exact ih (memoryBacked_access hmemory access)

/-- Without a `WRITE` among them, accesses leave the units as they are. -/
theorem units_accessAll (hmemory : storage.MemoryBacked) {accesses : List Access}
    (haccesses : .write 0x13 2 ∉ accesses) : (storage.accessAll accesses).units = storage.units := by
  induction accesses generalizing storage with
  | nil => rfl
  | cons access accesses ih =>
      rw [List.mem_cons, not_or] at haccesses
      calc
        (storage.accessAll (access :: accesses)).units = (storage.access access).units :=
          ih (memoryBacked_access hmemory access) haccesses.2
        _ = storage.units := units_access hmemory fun heq => absurd heq.symm haccesses.1

/-! ## Units of any kind -/

/-- What an access may do to units, of which one is selected: it is asked for a transfer that writes
nothing to it, or bytes are stored in it, or nothing is done. -/
inductive UnitsAfter (units : List StorageUnit) (selected : Nat) : List StorageUnit → Prop
  | unchanged : UnitsAfter units selected units
  | asked (transfer : Transfer) :
      UnitsAfter units selected (units.modify selected (·.asked transfer))
  | stored (position : Nat) (data : List Byte) :
      UnitsAfter units selected (units.modify selected (·.store position data))

/-- What an access leaves of units of any kind. The interrupt line stays. -/
structure Accessed (storage after : Storage) : Prop where
  units : UnitsAfter storage.units storage.unitIndex after.units
  line_eq : after.line = storage.line

theorem accessed_readUnit (storage : Storage) : storage.Accessed storage.readUnit.2 := by
  unfold readUnit
  split
  next => exact ⟨.unchanged, rfl⟩
  next unit _ =>
    split
    next =>
      dsimp only
      split
      next => exact ⟨.asked _, rfl⟩
      next => exact ⟨.asked _, rfl⟩
    next => exact ⟨.unchanged, rfl⟩

theorem accessed_writeUnit (storage : Storage) : storage.Accessed storage.writeUnit.2 := by
  unfold writeUnit
  split
  next => exact ⟨.unchanged, rfl⟩
  next unit _ =>
    split
    next =>
      dsimp only
      split
      next => exact ⟨.asked _, rfl⟩
      next => exact ⟨.stored _ _, rfl⟩
    next => exact ⟨.unchanged, rfl⟩

theorem accessed_sizeUnit (storage : Storage) : storage.Accessed storage.sizeUnit.2 := by
  unfold sizeUnit
  split
  next => exact ⟨.unchanged, rfl⟩
  next => exact ⟨.unchanged, rfl⟩

theorem Accessed.of_cleared {after : Storage} (h : storage.cleared.Accessed after) (status : Byte) :
    storage.Accessed (after.raise status) :=
  ⟨h.units, h.line_eq⟩

theorem accessed_execute (storage : Storage) (operation : Byte) :
    storage.Accessed (storage.execute operation) := by
  unfold execute
  rw [← cleared]
  dsimp only
  split
  next => exact storage.cleared.accessed_readUnit.of_cleared _
  next => exact storage.cleared.accessed_writeUnit.of_cleared _
  next => exact storage.cleared.accessed_sizeUnit.of_cleared _
  next => exact ⟨.unchanged, rfl⟩

theorem accessed_write (storage : Storage) (offset : Word) (value : Byte) :
    storage.Accessed (storage.write offset value) := by
  by_cases hoffset : offset = 0x13
  · subst hoffset
    exact storage.accessed_execute value
  · obtain ⟨mode, parameters, buffer, hwrite⟩ := storage.write_eq_of_ne hoffset value
    rw [hwrite]
    exact ⟨.unchanged, rfl⟩

theorem accessed_access (storage : Storage) (access : Access) :
    storage.Accessed (storage.access access) := by
  cases access with
  | read offset => exact ⟨.unchanged, rfl⟩
  | write offset value => exact storage.accessed_write offset value

/-! ## Media of the host -/

section Media

variable {place : Nat} {medium : Medium}

theorem hosted_modify {units : List StorageUnit} {selected : Nat} {f : StorageUnit → StorageUnit}
    {transfer : Transfer} (h : units[place]? = some (.hosted medium))
    (hf : f (.hosted medium) = .hosted (medium.after transfer)) :
    ∃ transfers : List Transfer, transfers.length ≤ 1 ∧
      (units.modify selected f)[place]? = some (.hosted (medium.afterAll transfers)) := by
  by_cases hselected : selected = place
  · refine ⟨[transfer], Nat.le_refl 1, ?_⟩
    simp only [List.getElem?_modify, if_pos hselected, h, Option.map_eq_map, Option.map_some, hf,
      Medium.afterAll_cons, Medium.afterAll_nil]
  · refine ⟨[], Nat.zero_le 1, ?_⟩
    simp only [List.getElem?_modify, if_neg hselected, h, Option.map_eq_map, Option.map_id',
      Medium.afterAll_nil]

/-- An access asks a medium of the host for one transfer at most. -/
theorem hosted_access (h : storage.units[place]? = some (.hosted medium)) (access : Access) :
    ∃ transfers : List Transfer, transfers.length ≤ 1 ∧
      (storage.access access).units[place]? = some (.hosted (medium.afterAll transfers)) := by
  have haccessed := (storage.accessed_access access).units
  generalize (storage.access access).units = after at haccessed
  cases haccessed with
  | unchanged => exact ⟨[], Nat.zero_le 1, by rw [h, Medium.afterAll_nil]⟩
  | asked transfer => exact hosted_modify h rfl
  | stored position data => exact hosted_modify h rfl

/-- Whatever a program does with a storage device, a medium of the host stays in its place, and is what
the transfers made of it that it was asked for. No access asks for more than one. -/
theorem hosted_accessAll (h : storage.units[place]? = some (.hosted medium)) (accesses : List Access) :
    ∃ transfers : List Transfer, transfers.length ≤ accesses.length ∧
      (storage.accessAll accesses).units[place]? = some (.hosted (medium.afterAll transfers)) := by
  induction accesses generalizing storage medium with
  | nil => exact ⟨[], Nat.le_refl 0, by rw [Medium.afterAll_nil, ← h, accessAll, List.foldl_nil]⟩
  | cons access accesses ih =>
      obtain ⟨first, hfirst, haccess⟩ := hosted_access h access
      obtain ⟨rest, hrest, hunits⟩ := ih haccess
      refine ⟨first ++ rest, ?_, ?_⟩
      · rw [List.length_append, List.length_cons]
        omega
      · rw [Medium.afterAll_append]
        exact hunits

/-- A program of the host that serves as a medium has gone from state to state by these transfers. -/
theorem driven_accessAll {State : Type} {driver : MediumDriver State} {state : State}
    (h : storage.units[place]? = some (.hosted (driver.medium state))) (accesses : List Access) :
    ∃ transfers : List Transfer, transfers.length ≤ accesses.length ∧
      (storage.accessAll accesses).units[place]? =
        some (.hosted (driver.medium (transfers.foldl driver.next state))) := by
  obtain ⟨transfers, hcount, hunits⟩ := hosted_accessAll h accesses
  exact ⟨transfers, hcount, by rw [hunits, MediumDriver.afterAll_medium]⟩

end Media

/-! ## Transfers as a program sees them -/

/-- A parameter byte holds what was written to it last, and writing it shows nowhere else. -/
theorem read_write_parameter (storage : Storage) {offset : Word} (hle : 0x14 ≤ offset.toNat)
    (hlt : offset.toNat < 0x34) (value : Byte) (other : Word) :
    (storage.write offset value).read other =
      if other = offset then value else storage.read other := by
  obtain ⟨index, lane, hoffset⟩ := StorageRegister.exists_parameter hle hlt
  simp only [write, hoffset]
  by_cases heq : other = offset
  · subst heq
    simp only [read, hoffset]
    simp [Word.byte_setByte]
  · rw [if_neg heq, read, read]
    cases hother : StorageRegister.ofOffset other with
    | parameter index' lane' =>
        by_cases hindex : index' = index
        · subst hindex
          have hlane : lane' ≠ lane := by
            rintro rfl
            rw [StorageRegister.ofOffset_eq_parameter_iff] at hother hoffset
            exact heq (hother.trans hoffset.symm)
          simp [Word.byte_setByte, hlane]
        · have hne : (index : Nat) ≠ index' := fun h => hindex (Fin.ext h.symm)
          simp [Vector.getElem_set_ne, hne]
    | _ => rfl

theorem unitIndex_eq (storage : Storage) : (storage.register 0x14).toNat = storage.unitIndex :=
  congrArg UInt32.toNat (storage.register_parameter 0)

theorem position_eq (storage : Storage) :
    (storage.register 0x18).toNat + 2 ^ 32 * (storage.register 0x1C).toNat = storage.position := by
  have hlow : storage.register 0x18 = storage.parameters.get 1 := storage.register_parameter 1
  have hhigh : storage.register 0x1C = storage.parameters.get 2 := storage.register_parameter 2
  rw [hlow, hhigh]
  rfl

theorem count_eq (storage : Storage) : (storage.register 0x20).toNat = storage.count :=
  congrArg UInt32.toNat (storage.register_parameter 3)

theorem results_eq {storage : Storage} {first second : Word}
    (h : storage.results = resultPair first second) :
    storage.register 0x34 = first ∧ storage.register 0x38 = second := by
  have hfirst : storage.register 0x34 = storage.results.get 0 := storage.register_result 0
  have hsecond : storage.register 0x38 = storage.results.get 1 := storage.register_result 1
  rw [hfirst, hsecond, h]
  exact ⟨rfl, rfl⟩

/-- Whatever happens between a `WRITE` that ends well and a `READ` of the same range, other than
another `WRITE`, the `READ` ends well and the written bytes come back. -/
theorem read_after_write (hmemory : storage.MemoryBacked)
    (hdone : (storage.execute 2).status = 0) {between : List Access}
    (hbetween : .write 0x13 2 ∉ between) {later : Storage}
    (hlater : later = (storage.execute 2).accessAll between)
    (hunit : later.unitIndex = storage.unitIndex) (hposition : later.position = storage.position)
    (hcount : later.count = storage.count) :
    (later.execute 1).status = 0 ∧
      ∀ i < storage.count, (later.execute 1).data i = storage.data i := by
  have hwritten := executed_execute hmemory 2
  have hunits : later.units = (storage.execute 2).units := by
    rw [hlater]
    exact units_accessAll (hwritten.memoryBacked hmemory) hbetween
  have hmemory' : later.MemoryBacked := by
    rw [MemoryBacked, hunits]
    exact hwritten.memoryBacked hmemory
  obtain ⟨bytes, hselects, hstored, _⟩ := hwritten.exists_stored hdone
  rw [hstored] at hunits
  -- The unit has the same size as before, so the range is still one of the unit.
  have hselects' : later.Selects (StorageUnit.overwrite bytes storage.position
      (storage.buffer.toList.take storage.count)) := by
    constructor
    · rw [hunits, hunit]
      exact hselects.unit_stored
    · have hvalid := hselects.valid
      rw [validRange, hposition, hcount, StorageUnit.size_overwrite]
      exact hvalid
  have hread := executed_execute hmemory' 1
  have hdone' := (hread.status_eq_zero_iff (.inl rfl)).mpr ⟨_, hselects'⟩
  refine ⟨hdone', fun i hi => ?_⟩
  obtain ⟨bytes', hloaded, _, hbuffer, _⟩ := hread.exists_loaded hdone'
  have hi' : i < later.count := by rwa [hcount]
  apply Option.some.inj
  calc
    some ((later.execute 1).data i) = some ((later.loaded bytes').data i) := by
      rw [data_congr hbuffer (Nat.lt_of_lt_of_le hi hselects.count_le)]
    _ = later.byte? storage.unitIndex (storage.position + i) := by
      rw [some_data_loaded hloaded hi', hunit, hposition]
    _ = storage.stored.byte? storage.unitIndex (storage.position + i) := byte?_congr hunits _ _
    _ = some (storage.data i) := by
      rw [byte?_stored hselects, if_pos ⟨rfl, by omega, by omega⟩, Nat.add_sub_cancel_left]

/-- Of a device whose units are in memory, after any byte accesses to its window, the parameters hold
what was written to their bytes last. A transfer ends well exactly if they select an aligned range
that lies within a unit and fits the buffer. A `WRITE` that ends well replaces this range of the unit
by the start of `DATA` and changes no other byte, a `READ` that ends well replaces the start of `DATA`
by the range and changes no other byte, and the result is the count. Other accesses and operations
that do not end well leave the units, and the latter leave `DATA` and clear the results. A `READ` of a
range gives back what the last `WRITE` has put there, whatever `DATA` held in the meantime. -/
theorem transfers_exact {start : Storage} (hmemory : start.MemoryBacked) (accesses : List Access) :
    let storage := start.accessAll accesses
    let unit := (storage.register 0x14).toNat
    let position := (storage.register 0x18).toNat + 2 ^ 32 * (storage.register 0x1C).toNat
    let count := (storage.register 0x20).toNat
    let written := storage.write 0x13 2
    let read := storage.write 0x13 1
    (∀ offset value, 0x14 ≤ offset.toNat → offset.toNat < 0x34 → ∀ other,
      (storage.write offset value).read other =
        if other = offset then value else storage.read other) ∧
    (∀ operation, operation = 1 ∨ operation = 2 →
      ((storage.write 0x13 operation).read 0x11 = 0 ↔
        ∃ bytes, storage.units[unit]? = some (.memory bytes) ∧ position % 4 = 0 ∧ count % 4 = 0 ∧
          count ≤ 512 ∧ position + count ≤ bytes.size)) ∧
    (written.read 0x11 = 0 →
      count ≤ 512 ∧
      (∀ i < count, (storage.byte? unit (position + i)).isSome ∧
        written.byte? unit (position + i) = some (storage.data i)) ∧
      (∀ other place, ¬ (other = unit ∧ position ≤ place ∧ place < position + count) →
        written.byte? other place = storage.byte? other place) ∧
      (∀ i < 512, written.data i = storage.data i) ∧
      written.register 0x34 = storage.register 0x20 ∧ written.register 0x38 = 0) ∧
    (read.read 0x11 = 0 →
      count ≤ 512 ∧
      (∀ i < count, storage.byte? unit (position + i) = some (read.data i)) ∧
      (∀ i, count ≤ i → i < 512 → read.data i = storage.data i) ∧
      (∀ other place, read.byte? other place = storage.byte? other place) ∧
      read.register 0x34 = storage.register 0x20 ∧ read.register 0x38 = 0) ∧
    (∀ access, (access = .write 0x13 2 → (storage.access access).read 0x11 ≠ 0) →
      ∀ other place, (storage.access access).byte? other place = storage.byte? other place) ∧
    (∀ operation, (storage.write 0x13 operation).read 0x11 ≠ 0 →
      (∀ i < 512, (storage.write 0x13 operation).data i = storage.data i) ∧
      (storage.write 0x13 operation).register 0x34 = 0 ∧
      (storage.write 0x13 operation).register 0x38 = 0) ∧
    ∀ between : List Access, written.read 0x11 = 0 → .write 0x13 2 ∉ between →
      let later := written.accessAll between
      later.register 0x14 = storage.register 0x14 → later.register 0x18 = storage.register 0x18 →
      later.register 0x1C = storage.register 0x1C → later.register 0x20 = storage.register 0x20 →
      (later.write 0x13 1).read 0x11 = 0 ∧
        ∀ i < count, (later.write 0x13 1).data i = storage.data i := by
  intro storage unit position count written read
  have hstorage : storage.MemoryBacked := memoryBacked_accessAll hmemory accesses
  have hunit : unit = storage.unitIndex := storage.unitIndex_eq
  have hposition : position = storage.position := storage.position_eq
  have hcount : count = storage.count := storage.count_eq
  have hregister : storage.register 0x20 = storage.parameters.get 3 := storage.register_parameter 3
  rw [hunit, hposition, hcount]
  refine ⟨?_, ?_, ?_, ?_, ?_, ?_, ?_⟩
  · intro offset value hle hlt
    exact storage.read_write_parameter hle hlt value
  · intro operation htransfer
    exact ((executed_execute hstorage operation).status_eq_zero_iff htransfer).trans
      (exists_congr fun _ => selects_iff)
  · intro hdone
    obtain ⟨bytes, hselects, hunits, hbuffer, hresults⟩ :=
      (executed_execute hstorage 2).exists_stored hdone
    have hbytes : ∀ other place, written.byte? other place = storage.stored.byte? other place :=
      byte?_congr hunits
    have hbound := hselects.bound_le
    refine ⟨hselects.count_le, fun i hi => ⟨?_, ?_⟩, fun other place houtside => ?_,
      fun i hi => data_congr hbuffer hi, ?_⟩
    · rw [byte?_of_memory hselects.unit, Array.getElem?_eq_getElem (by omega), Option.isSome_some]
    · rw [hbytes, byte?_stored hselects, if_pos ⟨rfl, by omega, by omega⟩, Nat.add_sub_cancel_left]
    · rw [hbytes, byte?_stored hselects, if_neg houtside]
    · rw [hregister]
      exact results_eq hresults
  · intro hdone
    obtain ⟨bytes, hselects, hunits, hbuffer, hresults⟩ :=
      (executed_execute hstorage 1).exists_loaded hdone
    have hdata : ∀ i < 512, read.data i = (storage.loaded bytes).data i :=
      fun i hi => data_congr hbuffer hi
    have hle := hselects.count_le
    refine ⟨hle, fun i hi => ?_, fun i hi hlt => ?_, byte?_congr hunits, ?_⟩
    · rw [hdata i (by omega), some_data_loaded hselects hi]
    · rw [hdata i hlt, data_loaded_of_le hi hlt]
    · rw [hregister]
      exact results_eq hresults
  · intro access haccess
    exact byte?_congr (units_access hstorage haccess)
  · intro operation hfailed
    obtain ⟨hbuffer, hresults⟩ := (executed_execute hstorage operation).failed_eq hfailed
    exact ⟨fun i hi => data_congr hbuffer hi, results_eq hresults⟩
  · intro between hdone hbetween later hunit' hlow hhigh hcount'
    have hlater : later = (storage.execute 2).accessAll between := rfl
    refine read_after_write hstorage hdone hbetween hlater ?_ ?_ ?_
    · rw [← unitIndex_eq, ← unitIndex_eq, hunit']
    · rw [← position_eq, ← position_eq, hlow, hhigh]
    · rw [← count_eq, ← count_eq, hcount']

/-- Eight bytes go to the second of two units and come back after `DATA` was overwritten by hand and by
a `READ` of another range. -/
theorem transfers_exact_of_second_unit :
    let start : Storage := { units := [.zeros 8, .zeros 16] }
    let accesses : List Access := [.write 0x14 1, .write 0x18 4, .write 0x20 8, .write 0x200 0xAA,
      .write 0x207 0xBB, .read 0x11]
    let written := (start.accessAll accesses).write 0x13 2
    let between : List Access := [.write 0x200 0x11, .write 0x18 8, .write 0x13 1, .write 0x18 4]
    let later := written.accessAll between
    start.MemoryBacked ∧ written.read 0x11 = 0 ∧ written.byte? 1 4 = some 0xAA ∧
      written.byte? 1 3 = some 0 ∧ later.data 0 = 0 ∧ (later.write 0x13 1).data 0 = 0xAA ∧
      (later.write 0x13 1).data 7 = 0xBB := by
  intro start accesses written between later
  have hmemory : start.MemoryBacked := by
    intro unit hunit
    have hcases : unit = .zeros 8 ∨ unit = .zeros 16 := by simpa [start] using hunit
    rcases hcases with rfl | rfl <;> exact ⟨_, rfl⟩
  have hdone : written.read 0x11 = 0 := by decide +kernel
  obtain ⟨_, _, hwrite, _, _, _, hback⟩ := transfers_exact hmemory accesses
  obtain ⟨_, hmoved, hframe, _⟩ := hwrite hdone
  have hunit : ((start.accessAll accesses).register 0x14).toNat = 1 := by decide +kernel
  have hposition : ((start.accessAll accesses).register 0x18).toNat +
      2 ^ 32 * ((start.accessAll accesses).register 0x1C).toNat = 4 := by decide +kernel
  rw [hunit, hposition] at hmoved
  obtain ⟨_, hdata⟩ := hback between hdone (by decide) (by decide +kernel) (by decide +kernel)
    (by decide +kernel) (by decide +kernel)
  refine ⟨hmemory, hdone, ?_, ?_, by decide +kernel, ?_, ?_⟩
  · refine (hmoved 0 (by decide +kernel)).2.trans ?_
    decide +kernel
  · refine (hframe 1 3 (by decide +kernel)).trans ?_
    decide +kernel
  · refine (hdata 0 (by decide +kernel)).trans ?_
    decide +kernel
  · refine (hdata 7 (by decide +kernel)).trans ?_
    decide +kernel

end Storage

end TinyComputer
