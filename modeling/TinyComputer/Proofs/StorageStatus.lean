import TinyComputer.Proofs.RequestLog
import TinyComputer.Proofs.StorageTransfers

/-!
# The status of a storage operation

An operation ends with the first thing that is in its way: the unit is not there, the range is not one
of the unit, or the unit itself fails, which a unit in memory never does. The status says which it was.
Whatever it is, a request for an interrupt is made in interrupt mode, and nothing but an operation
changes the status, the results or a unit.
-/

namespace TinyComputer

namespace StorageUnit

variable {unit : StorageUnit} {position count : Nat} {data : List Byte}

theorem write_eq_error_iff {error : MediumError} :
    unit.write position data = .error error ↔ unit.writeError? position data = some error := by
  unfold write
  split
  next found hfound => rw [hfound, Except.error.injEq, Option.some.injEq]
  next hnone => simp [hnone]

/-- A unit in memory carries out every transfer within it. -/
theorem transfers_of_memory {bytes : Array Byte} (hbound : position + count ≤ bytes.size)
    (hlength : data.length = count) (error : MediumError) :
    (memory bytes).read position count ≠ .error error ∧
      (memory bytes).write position data ≠ .error error := by
  constructor
  · rw [read, if_pos hbound]
    intro herror
    contradiction
  · rw [ne_eq, write_eq_error_iff, writeError?, hlength, if_pos hbound]
    intro herror
    contradiction

end StorageUnit

namespace StorageStatus

theorem code_inj {first second : StorageStatus} : first.code = second.code ↔ first = second := by
  cases first <;> cases second <;> decide

end StorageStatus

namespace Storage

variable {storage : Storage} {unit : StorageUnit} {operation : Byte} {status : StorageStatus}

/-! ## What can be in the way of an operation -/

/-- The bytes that a `WRITE` takes from the start of `DATA`. -/
def outgoing (storage : Storage) : List Byte :=
  (List.range storage.count).map storage.data

@[simp] theorem length_outgoing (storage : Storage) : storage.outgoing.length = storage.count := by
  rw [outgoing, List.length_map, List.length_range]

/-- The bytes that a program sees at the start of `DATA` are those at the start of the buffer. -/
theorem outgoing_eq (hcount : storage.count ≤ 512) :
    storage.outgoing = storage.buffer.toList.take storage.count := by
  apply List.ext_getElem
  · simpa using (Nat.min_eq_left hcount).symm
  · intro i hi hi'
    rw [length_outgoing] at hi
    simp only [outgoing, List.getElem_map, List.getElem_range]
    rw [storage.data_eq (by omega), List.getElem_take, Vector.getElem_toList]

/-- The operation is about a unit, and this unit is not there. -/
def Unavailable (storage : Storage) (operation : Byte) : Prop :=
  operation ∈ [1, 2, 3] ∧ storage.units.length ≤ storage.unitIndex

/-- The operation is a transfer of a unit that is there, and its range is misaligned, or exceeds the
buffer or the unit. -/
def Misplaced (storage : Storage) (operation : Byte) : Prop :=
  operation ∈ [1, 2] ∧ ∃ unit, storage.units[storage.unitIndex]? = some unit ∧
    (storage.position % 4 ≠ 0 ∨ storage.count % 4 ≠ 0 ∨ 512 < storage.count ∨
      unit.size < storage.position + storage.count)

/-- The unit fails the transfer that an operation asks it for. -/
def FailsTransfer (storage : Storage) (operation : Byte) (unit : StorageUnit) : Prop :=
  operation = 1 ∧ (∃ error, unit.read storage.position storage.count = .error error) ∨
    operation = 2 ∧ ∃ error, unit.write storage.position storage.outgoing = .error error

/-- The operation is a transfer of a range of a unit, and the unit fails. -/
def Broken (storage : Storage) (operation : Byte) : Prop :=
  ∃ unit, storage.units[storage.unitIndex]? = some unit ∧
    (storage.position % 4 = 0 ∧ storage.count % 4 = 0 ∧ storage.count ≤ 512 ∧
      storage.position + storage.count ≤ unit.size) ∧
    storage.FailsTransfer operation unit

theorem not_unavailable_of_some (hunit : storage.units[storage.unitIndex]? = some unit) :
    ¬ storage.Unavailable operation := by
  rintro ⟨_, hle⟩
  obtain ⟨hlt, _⟩ := List.getElem?_eq_some_iff.mp hunit
  exact Nat.not_lt_of_le hle hlt

theorem Misplaced.not_unavailable (h : storage.Misplaced operation) :
    ¬ storage.Unavailable operation := by
  obtain ⟨_, unit, hunit, _⟩ := h
  exact not_unavailable_of_some hunit

theorem Broken.not_unavailable (h : storage.Broken operation) : ¬ storage.Unavailable operation := by
  obtain ⟨unit, hunit, _⟩ := h
  exact not_unavailable_of_some hunit

theorem not_misplaced_of_valid (hunit : storage.units[storage.unitIndex]? = some unit)
    (hvalid : storage.validRange unit.size = true) : ¬ storage.Misplaced operation := by
  rw [validRange_iff] at hvalid
  rintro ⟨_, other, hother, hrange⟩
  obtain rfl : unit = other := Option.some.inj (hunit.symm.trans hother)
  omega

theorem Broken.not_misplaced (h : storage.Broken operation) : ¬ storage.Misplaced operation := by
  obtain ⟨unit, hunit, hvalid, _⟩ := h
  exact not_misplaced_of_valid hunit (validRange_iff.mpr hvalid)

/-- How an operation ends. -/
inductive Ends (storage : Storage) (operation : Byte) : StorageStatus → Prop
  | unavailable : storage.Unavailable operation → Ends storage operation .unavailable
  | misplaced : storage.Misplaced operation → Ends storage operation .addressError
  | broken : storage.Broken operation → Ends storage operation .physicalError
  | done : ¬ storage.Unavailable operation → ¬ storage.Misplaced operation →
      ¬ storage.Broken operation → Ends storage operation .done

/-- The ways in which an operation ends exclude each other. -/
theorem Ends.eq_iff (h : storage.Ends operation status) :
    (status = .unavailable ↔ storage.Unavailable operation) ∧
      (status = .addressError ↔ storage.Misplaced operation) ∧
      (status = .physicalError ↔ storage.Broken operation) ∧
      (status = .done ↔ ¬ storage.Unavailable operation ∧ ¬ storage.Misplaced operation ∧
        ¬ storage.Broken operation) := by
  cases h with
  | unavailable h =>
      have hmisplaced : ¬ storage.Misplaced operation := fun hmisplaced => hmisplaced.not_unavailable h
      have hbroken : ¬ storage.Broken operation := fun hbroken => hbroken.not_unavailable h
      simp [h, hmisplaced, hbroken]
  | misplaced h =>
      have hbroken : ¬ storage.Broken operation := fun hbroken => hbroken.not_misplaced h
      simp [h, h.not_unavailable, hbroken]
  | broken h => simp [h, h.not_unavailable, h.not_misplaced]
  | done hunavailable hmisplaced hbroken => simp [hunavailable, hmisplaced, hbroken]

/-! ## How operations end -/

theorem ends_of_none (hoperation : operation ∈ [1, 2, 3])
    (hunit : storage.units[storage.unitIndex]? = none) : storage.Ends operation .unavailable :=
  .unavailable ⟨hoperation, List.getElem?_eq_none_iff.mp hunit⟩

theorem ends_of_invalid (hoperation : operation ∈ [1, 2])
    (hunit : storage.units[storage.unitIndex]? = some unit)
    (hinvalid : ¬ storage.validRange unit.size = true) : storage.Ends operation .addressError := by
  rw [validRange_iff] at hinvalid
  exact .misplaced ⟨hoperation, unit, hunit, by omega⟩

theorem ends_of_valid (hunit : storage.units[storage.unitIndex]? = some unit)
    (hvalid : storage.validRange unit.size = true)
    (hcarried : ¬ storage.FailsTransfer operation unit) : storage.Ends operation .done := by
  refine .done (not_unavailable_of_some hunit) (not_misplaced_of_valid hunit hvalid) ?_
  rintro ⟨other, hother, _, hfails⟩
  obtain rfl : unit = other := Option.some.inj (hunit.symm.trans hother)
  exact hcarried hfails

/-- Only transfers look at a range. -/
theorem ends_of_not_transfer (hoperation : operation ∉ [1, 2])
    (havailable : ¬ storage.Unavailable operation) : storage.Ends operation .done := by
  refine .done havailable (fun hmisplaced => hoperation hmisplaced.1) ?_
  rintro ⟨_, _, _, ⟨rfl, _⟩ | ⟨rfl, _⟩⟩
  · exact hoperation (by decide)
  · exact hoperation (by decide)

theorem failsTransfer_iff (hcount : storage.count ≤ 512) :
    storage.FailsTransfer operation unit ↔
      operation = 1 ∧ (∃ error, unit.read storage.position storage.count = .error error) ∨
        operation = 2 ∧ ∃ error, unit.writeError? storage.position
          (storage.buffer.toList.take storage.count) = some error := by
  simp only [FailsTransfer, StorageUnit.write_eq_error_iff, outgoing_eq hcount]

theorem ends_readUnit (storage : Storage) : storage.Ends 1 storage.readUnit.1 := by
  unfold readUnit
  split
  next hunit => exact ends_of_none (by decide) hunit
  next unit hunit =>
    split
    next hvalid =>
      dsimp only
      split
      next error hread =>
        exact .broken ⟨unit, hunit, validRange_iff.mp hvalid, .inl ⟨rfl, error, hread⟩⟩
      next bytes hread =>
        apply ends_of_valid hunit hvalid
        simp [FailsTransfer, hread]
    next hinvalid => exact ends_of_invalid (by decide) hunit hinvalid

theorem ends_writeUnit (storage : Storage) : storage.Ends 2 storage.writeUnit.1 := by
  unfold writeUnit
  split
  next hunit => exact ends_of_none (by decide) hunit
  next unit hunit =>
    split
    next hvalid =>
      have hcount : storage.count ≤ 512 := (validRange_iff.mp hvalid).2.2.1
      dsimp only
      split
      next error herror =>
        have hfails : storage.FailsTransfer 2 unit :=
          (failsTransfer_iff hcount).mpr (.inr ⟨rfl, error, herror⟩)
        exact .broken ⟨unit, hunit, validRange_iff.mp hvalid, hfails⟩
      next hnone =>
        apply ends_of_valid hunit hvalid
        simp [failsTransfer_iff hcount, hnone]
    next hinvalid => exact ends_of_invalid (by decide) hunit hinvalid

theorem ends_sizeUnit (storage : Storage) : storage.Ends 3 storage.sizeUnit.1 := by
  unfold sizeUnit
  split
  next hunit => exact ends_of_none (by decide) hunit
  next unit hunit => exact ends_of_not_transfer (by decide) (not_unavailable_of_some hunit)

/-- Results of an earlier operation are in the way of none. -/
theorem Ends.of_cleared (h : storage.cleared.Ends operation status) :
    storage.Ends operation status := by
  have hbroken : storage.cleared.Broken operation ↔ storage.Broken operation := by
    refine exists_congr fun unit => and_congr_right fun _ => and_congr_right fun hvalid => ?_
    have hcount : storage.count ≤ 512 := hvalid.2.2.1
    have hcleared : storage.cleared.count ≤ 512 := hcount
    rw [failsTransfer_iff hcleared, failsTransfer_iff hcount]
    exact Iff.rfl
  cases h with
  | unavailable h => exact .unavailable h
  | misplaced h => exact .misplaced h
  | broken h => exact .broken (hbroken.mp h)
  | done hunavailable hmisplaced h => exact .done hunavailable hmisplaced (mt hbroken.mpr h)

/-- An operation leaves the status that it ends with. -/
theorem exists_ends_execute (storage : Storage) (operation : Byte) :
    ∃ status, storage.Ends operation status ∧ (storage.execute operation).status = status.code := by
  unfold execute
  rw [← cleared]
  split
  next => exact ⟨_, storage.cleared.ends_readUnit.of_cleared, rfl⟩
  next => exact ⟨_, storage.cleared.ends_writeUnit.of_cleared, rfl⟩
  next => exact ⟨_, storage.cleared.ends_sizeUnit.of_cleared, rfl⟩
  next hread hwrite hsize =>
    refine ⟨.done, ends_of_not_transfer ?_ ?_, rfl⟩
    · simp only [List.mem_cons, List.not_mem_nil, or_false, not_or]
      exact ⟨hread, hwrite⟩
    · rintro ⟨hmem, _⟩
      simp only [List.mem_cons, List.not_mem_nil, or_false] at hmem
      rcases hmem with h | h | h
      · exact hread h
      · exact hwrite h
      · exact hsize h

/-- The size of a unit is split over the results. -/
theorem results_execute_size (hunit : storage.units[storage.unitIndex]? = some unit) :
    (storage.execute 3).results =
      resultPair (UInt32.ofNat unit.size) (UInt32.ofNat (unit.size / wordBound)) := by
  have hcleared : storage.cleared.units[storage.cleared.unitIndex]? = some unit := hunit
  unfold execute
  rw [← cleared]
  simp only [sizeUnit, hcleared]
  rfl

/-- The results hold the size of a unit that is there, since 64 bits are enough for it. -/
theorem exists_size (havailable : ¬ storage.Unavailable 3) :
    ∃ unit, storage.units[storage.unitIndex]? = some unit ∧ (unit.size < 2 ^ 64 →
      ((storage.execute 3).register 0x34).toNat +
        2 ^ 32 * ((storage.execute 3).register 0x38).toNat = unit.size) := by
  cases hunit : storage.units[storage.unitIndex]? with
  | none => exact absurd ⟨by decide, List.getElem?_eq_none_iff.mp hunit⟩ havailable
  | some unit =>
      obtain ⟨hfirst, hsecond⟩ := results_eq (results_execute_size hunit)
      refine ⟨unit, rfl, fun hsize => ?_⟩
      rw [hfirst, hsecond, UInt32.toNat_ofNat', UInt32.toNat_ofNat', wordBound]
      omega

theorem not_broken_of_memory {bytes : Array Byte}
    (hunit : storage.units[storage.unitIndex]? = some (.memory bytes)) :
    ¬ storage.Broken operation := by
  rintro ⟨unit, hother, ⟨_, _, _, hbound⟩, hfails⟩
  obtain rfl : .memory bytes = unit := Option.some.inj (hunit.symm.trans hother)
  have htransfers := StorageUnit.transfers_of_memory hbound storage.length_outgoing
  rcases hfails with ⟨_, error, hread⟩ | ⟨_, error, hwrite⟩
  · exact (htransfers error).1 hread
  · exact (htransfers error).2 hwrite

/-- A write to another offset than `OP` changes neither the status nor the results. -/
theorem registers_write_of_ne (storage : Storage) {offset : Word} (hoffset : offset ≠ 0x13)
    (value : Byte) :
    (storage.write offset value).read 0x11 = storage.read 0x11 ∧
      (storage.write offset value).register 0x34 = storage.register 0x34 ∧
      (storage.write offset value).register 0x38 = storage.register 0x38 := by
  obtain ⟨mode, parameters, buffer, hwrite⟩ := storage.write_eq_of_ne hoffset value
  rw [hwrite]
  exact ⟨rfl, rfl, rfl⟩

/-- The parameters and the unit that they select decide how a write to `OP` ends. `UNAVAILABLE` is a
unit that is not there, `ADDRESS_ERROR` a transfer whose range is misaligned or exceeds the buffer or the
unit, as numbers that do not wrap around, and `PHYSICAL_ERROR` a transfer of a range of a unit that fails
it, which no unit in memory does. All else is `DONE`, and then `SIZE` has put the size of the unit into
the results. A request for an interrupt goes by the mode alone, and a write to any other offset changes
neither the status nor the results nor a unit. -/
theorem status_is_exact (storage : Storage) (operation : Byte) :
    let index := (storage.register 0x14).toNat
    let position := (storage.register 0x18).toNat + 2 ^ 32 * (storage.register 0x1C).toNat
    let count := (storage.register 0x20).toNat
    let ended := storage.write 0x13 operation
    let unavailable := operation ∈ [1, 2, 3] ∧ storage.units.length ≤ index
    let misplaced := operation ∈ [1, 2] ∧ ∃ unit, storage.units[index]? = some unit ∧
      (position % 4 ≠ 0 ∨ count % 4 ≠ 0 ∨ 512 < count ∨ unit.size < position + count)
    let broken := ∃ unit, storage.units[index]? = some unit ∧
      (position % 4 = 0 ∧ count % 4 = 0 ∧ count ≤ 512 ∧ position + count ≤ unit.size) ∧
      (operation = 1 ∧ (∃ error, unit.read position count = .error error) ∨
        operation = 2 ∧ ∃ error,
          unit.write position ((List.range count).map storage.data) = .error error)
    (ended.read 0x11 = 3 ↔ unavailable) ∧
    (ended.read 0x11 = 2 ↔ misplaced) ∧
    (ended.read 0x11 = 4 ↔ broken) ∧
    (ended.read 0x11 = 0 ↔ ¬ unavailable ∧ ¬ misplaced ∧ ¬ broken) ∧
    (∀ bytes, storage.units[index]? = some (.memory bytes) → ended.read 0x11 ≠ 4) ∧
    (operation = 3 → ended.read 0x11 = 0 → ∃ unit, storage.units[index]? = some unit ∧
      (unit.size < 2 ^ 64 →
        (ended.register 0x34).toNat + 2 ^ 32 * (ended.register 0x38).toNat = unit.size)) ∧
    ended.pending = (storage.pending || storage.mode == .interrupt) ∧
    ∀ offset value, offset ≠ 0x13 →
      let after := storage.write offset value
      after.read 0x11 = storage.read 0x11 ∧ after.register 0x34 = storage.register 0x34 ∧
        after.register 0x38 = storage.register 0x38 ∧ after.units = storage.units := by
  intro index position count ended unavailable misplaced broken
  have hindex : index = storage.unitIndex := storage.unitIndex_eq
  have hposition : position = storage.position := storage.position_eq
  have hcount : count = storage.count := storage.count_eq
  have hunavailable : unavailable ↔ storage.Unavailable operation := by
    rw [Unavailable, ← hindex]
  have hmisplaced : misplaced ↔ storage.Misplaced operation := by
    rw [Misplaced, ← hindex, ← hposition, ← hcount]
  have hbroken : broken ↔ storage.Broken operation := by
    simp only [Broken, FailsTransfer, outgoing, ← hindex, ← hposition, ← hcount]
    exact Iff.rfl
  obtain ⟨status, hends, hstatus⟩ := exists_ends_execute storage operation
  have hcode : ∀ expected : StorageStatus, ended.read 0x11 = expected.code ↔ status = expected := by
    intro expected
    rw [← StorageStatus.code_inj, ← hstatus]
    exact Iff.rfl
  obtain ⟨hends_unavailable, hends_misplaced, hends_broken, hends_done⟩ := hends.eq_iff
  rw [hunavailable, hmisplaced, hbroken]
  refine ⟨(hcode .unavailable).trans hends_unavailable, (hcode .addressError).trans hends_misplaced,
    (hcode .physicalError).trans hends_broken, (hcode .done).trans hends_done, ?_, ?_, ?_, ?_⟩
  · intro bytes hunit hcode_broken
    rw [hindex] at hunit
    exact not_broken_of_memory hunit (hends_broken.mp ((hcode .physicalError).mp hcode_broken))
  · rintro rfl hdone
    rw [hindex]
    exact exists_size (hends_done.mp ((hcode .done).mp hdone)).1
  · exact Device.pending_execute storage operation
  · intro offset value hoffset after
    obtain ⟨hstatus, hfirst, hsecond⟩ := storage.registers_write_of_ne hoffset value
    exact ⟨hstatus, hfirst, hsecond, storage.units_write_of_ne hoffset value⟩

/-- The last four bytes of the greatest unit can be written, and be read after that, while a read that
comes first fails; the end of eight bytes there takes more than 64 bits. The size of the unit takes both
results. -/
theorem status_is_exact_at_limits :
    let driver : MediumDriver Bool :=
      { next := fun _ _ => true
        size := fun _ => 0xFFFFFFFFFFFFFFFC
        read := fun woken _ _ => if woken then .ok (.replicate _ 7) else .error (.host "asleep")
        residue := fun _ _ _ => [5]
        writeError? := fun _ _ _ => none }
    let medium := driver.medium false
    let storage : Storage :=
      { units := [.zeros 8, .hosted medium]
        mode := .interrupt
        parameters := #v[1, 0xFFFFFFF8, 0xFFFFFFFF, 4, 0, 0, 0, 0] }
    let beyond := storage.write 0x20 8
    let first : Storage := { storage with parameters := #v[0, 0, 0, 8, 0, 0, 0, 0] }
    (storage.write 0x13 1).read 0x11 = 4 ∧ (storage.write 0x13 2).read 0x11 = 0 ∧
      ((storage.write 0x13 2).write 0x13 1).read 0x11 = 0 ∧ (storage.write 0x13 1).pending = true ∧
      ((storage.write 0x13 3).register 0x34).toNat +
        2 ^ 32 * ((storage.write 0x13 3).register 0x38).toNat = 0xFFFFFFFFFFFFFFFC ∧
      (beyond.write 0x13 2).read 0x11 = 2 ∧ beyond.read 0x11 = storage.read 0x11 ∧
      (first.write 0x13 1).read 0x11 ≠ 4 := by
  intro driver medium storage beyond first
  have hindex : (storage.register 0x14).toNat = 1 := by decide +kernel
  have hposition : (storage.register 0x18).toNat + 2 ^ 32 * (storage.register 0x1C).toNat =
      0xFFFFFFFFFFFFFFF8 := by decide +kernel
  have hcount : (storage.register 0x20).toNat = 4 := by decide +kernel
  obtain ⟨_, _, hbroken, _, _, _, hpending, hkept⟩ := status_is_exact storage 1
  obtain ⟨_, _, _, _, _, hsize, _⟩ := status_is_exact storage 3
  rw [hindex, hposition, hcount] at hbroken
  rw [hindex] at hsize
  obtain ⟨unit, hunit, hsize⟩ := hsize rfl (by decide +kernel)
  obtain rfl : .hosted medium = unit := Option.some.inj hunit
  have hunits : beyond.units = storage.units := (hkept 0x20 8 (by decide)).2.2.2
  have hlonger : (beyond.register 0x20).toNat = 8 := by decide +kernel
  have hbeyond : (beyond.register 0x18).toNat + 2 ^ 32 * (beyond.register 0x1C).toNat =
      0xFFFFFFFFFFFFFFF8 := by decide +kernel
  have hsame : (beyond.register 0x14).toNat = 1 := by decide +kernel
  obtain ⟨_, hmisplaced, _⟩ := status_is_exact beyond 2
  rw [hsame, hbeyond, hlonger, hunits] at hmisplaced
  have hfirst : (first.register 0x14).toNat = 0 := by decide +kernel
  obtain ⟨_, _, _, _, hmemory, _⟩ := status_is_exact first 1
  rw [hfirst] at hmemory
  refine ⟨?_, by decide +kernel, by decide +kernel, hpending.trans (by decide +kernel), ?_, ?_, ?_, ?_⟩
  · apply hbroken.mpr
    exact ⟨_, rfl, by decide, .inl ⟨rfl, .host "asleep", rfl⟩⟩
  · exact hsize (by decide)
  · apply hmisplaced.mpr
    exact ⟨by decide, _, rfl, .inr (.inr (.inr (by decide)))⟩
  · exact (hkept 0x20 8 (by decide)).1
  · exact hmemory _ rfl

end Storage

end TinyComputer
