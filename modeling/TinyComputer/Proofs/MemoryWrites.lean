import Mathlib.Algebra.BigOperators.Ring.Finset
import Mathlib.Tactic.IntervalCases
import TinyComputer.Proofs.LittleEndian
import TinyComputer.Proofs.MemoryView

/-!
# Writes to memory

A value that is read is the sum of its bytes, the lowest of them at the lowest address, whatever devices
they come from. Where the windows of memories cover a range of addresses, what is written there is read
back, nothing else changes, and writes to ranges that share no address can be done in either order. The
range may go from one memory to the next, and on from the end of the address space to its start.
-/

namespace TinyComputer

/-- The number that up to four bytes make is the sum of its digits. -/
theorem Word.toNat_ofBytes_map_range {count : Nat} (hcount : count ≤ 4) (byte : Nat → Byte) :
    (ofBytes ((List.range count).map byte)).toNat =
      ∑ i ∈ Finset.range count, (byte i).toNat * 256 ^ i := by
  induction count generalizing byte with
  | zero => rfl
  | succ count ih =>
      have hlength : ((List.range count).map (byte ∘ Nat.succ)).length < 4 := by
        rw [List.length_map, List.length_range]
        omega
      have hhigher : ∑ i ∈ Finset.range count, (byte (i + 1)).toNat * 256 ^ (i + 1) =
          256 * ∑ i ∈ Finset.range count, (byte (i + 1)).toNat * 256 ^ i := by
        rw [Finset.mul_sum]
        refine Finset.sum_congr rfl fun i _ => ?_
        rw [Nat.pow_succ', Nat.mul_left_comm]
      rw [List.range_succ_eq_map, List.map_cons, List.map_map, toNat_ofBytes_cons_of_lt _ hlength,
        ih (by omega), Finset.sum_range_succ', hhigher, Nat.pow_zero, Nat.mul_one, Nat.add_comm]
      rfl

/-- Writes to two offsets of a memory can be done in either order. -/
theorem Memory.write_comm (memory : Memory) {first second : Word} (hne : first ≠ second)
    (value value' : Byte) :
    (memory.write first value).write second value' =
      (memory.write second value').write first value := by
  have hnat : first.toNat ≠ second.toNat := fun h => hne (UInt32.toNat_inj.mp h)
  simp only [write, Array.setIfInBounds_comm _ _ hnat]

namespace Board

variable {board before after : Board} {address address' : Word}

/-! ## Values as sums -/

/-- A byte of a longer read: what its own read gives once the bytes below it have been read. -/
def byteRead (board : Board) (address : Word) (place : Nat) : Byte :=
  (board.readBytes address place).2.peek (address + UInt32.ofNat place)

theorem byteRead_zero (board : Board) (address : Word) :
    board.byteRead address 0 = board.peek address := by
  exact congrArg board.peek (UInt32.add_zero address)

theorem byteRead_succ (board : Board) (address : Word) (place : Nat) :
    board.byteRead address (place + 1) = (board.touch address).byteRead (address + 1) place := by
  rw [byteRead, readBytes_succ, byteRead, add_one_add_ofNat]

theorem readBytes_eq_map (board : Board) (address : Word) (count : Nat) :
    (board.readBytes address count).1 = (List.range count).map (board.byteRead address) := by
  induction count generalizing board address with
  | zero => rfl
  | succ count ih =>
      rw [readBytes_succ, List.range_succ_eq_map, List.map_cons, List.map_map, byteRead_zero, ih]
      refine congrArg (board.peek address :: ·) (List.map_congr_left fun place _ => ?_)
      exact (byteRead_succ board address place).symm

/-- A value is the sum of its bytes, each as it is when its turn comes. -/
theorem toNat_readValue (board : Board) (address : Word) {count : Nat} (hcount : count ≤ 4) :
    (board.readValue address count).1.toNat =
      ∑ i ∈ Finset.range count, (board.byteRead address i).toNat * 256 ^ i := by
  rw [← Word.toNat_ofBytes_map_range hcount, ← readBytes_eq_map]
  rfl

/-- Where no read changes anything, a series of reads does not. -/
theorem readBytes_of_quiet {count : Nat}
    (h : ∀ other, Word.Within address count other → board.quiet other = true) :
    (board.readBytes address count).2 = board := by
  induction count generalizing address with
  | zero => rfl
  | succ count ih =>
      have hfirst := touch_of_quiet (h address (Word.within_succ.mpr (.inl rfl)))
      rw [readBytes_succ, hfirst]
      exact ih fun other hwithin => h other (Word.within_succ.mpr (.inr hwithin))

theorem byteRead_of_quiet {count place : Nat}
    (h : ∀ other, Word.Within address count other → board.quiet other = true)
    (hplace : place ≤ count) :
    board.byteRead address place = board.peek (address + UInt32.ofNat place) := by
  have hbelow : ∀ other, Word.Within address place other → board.quiet other = true :=
    fun other hwithin => h other (Nat.lt_of_lt_of_le hwithin hplace)
  rw [byteRead, readBytes_of_quiet hbelow]

/-- Where no read changes anything, a value is the sum of what is at its addresses. -/
theorem toNat_readValue_of_quiet {count : Nat} (hcount : count ≤ 4)
    (h : ∀ other, Word.Within address count other → board.quiet other = true) :
    (board.readValue address count).1.toNat =
      ∑ i ∈ Finset.range count, (board.peek (address + UInt32.ofNat i)).toNat * 256 ^ i := by
  rw [toNat_readValue board address hcount]
  refine Finset.sum_congr rfl fun place hmem => ?_
  rw [byteRead_of_quiet h (Nat.le_of_lt (Finset.mem_range.mp hmem))]

/-! ## Ranges that memories cover -/

/-- Every address of a range is in the window of a memory that is no smaller than its window. -/
def CoveredByMemory (board : Board) (address : Word) (count : Nat) : Prop :=
  ∀ other, Word.Within address count other →
    ∃ window memory, ⟨window, .memory memory⟩ ∈ board.bindings ∧ window.contains other = true ∧
      window.size.toNat ≤ memory.size

/-- A memory that is no smaller than its window has a byte for each of its addresses. -/
theorem Separated.inMemory_of_covered (h : board.Separated) {count : Nat}
    (hcovered : board.CoveredByMemory address count) :
    ∀ other, Word.Within address count other → board.InMemory other := by
  intro other hwithin
  obtain ⟨window, memory, hmem, hin, hsize⟩ := hcovered other hwithin
  obtain ⟨id, hbinding⟩ := Array.mem_iff_getElem?.mp hmem
  have hroute := h.routeIndex?_eq_some_iff.mpr ⟨_, hbinding, hin⟩
  refine inMemory_iff.mpr ⟨id, window, memory, hroute, hbinding, ?_⟩
  have hbounds := Window.contains_iff.mp hin
  rw [Window.toNat_sub_base hin]
  unfold Window.bound at hbounds
  omega

theorem quiet_of_inMemory (h : board.InMemory address) : board.quiet address = true := by
  obtain ⟨id, window, memory, hroute, hbinding, _⟩ := inMemory_iff.mp h
  rw [quiet, route?_eq_of_routeIndex? hroute hbinding]
  rfl

/-- Where nothing was written, every device shows what it showed before. -/
theorem AgreeButMemory.peek_eq {written : Word → Prop} (h : AgreeButMemory written before after)
    (hregisters : after.registers = before.registers) (hroute : ∀ other,
      after.routeIndex? other = before.routeIndex? other) {other : Word} (hnot : ¬ written other) :
    after.peek other = before.peek other := by
  have hbyte := h.memoryByte?_eq other hnot
  rw [peek, peek, route?_eq_bind, route?_eq_bind, hroute]
  rw [memoryByte?, memoryByte?, route?_eq_bind, route?_eq_bind, hroute] at hbyte
  cases hid : before.routeIndex? other with
  | none => rfl
  | some id =>
      rw [hid, Option.bind_some, Option.bind_some] at hbyte
      rw [Option.bind_some, Option.bind_some]
      rcases h.binding id with heq | ⟨window, memory, stored, hbefore, hafter, _⟩
      · rw [heq, hregisters]
      · -- The byte of a memory is the one that the view shows, or zero.
        rw [hbefore, hafter] at hbyte ⊢
        simp only [Option.bind_some, Device.memory?, Binding.offset] at hbyte
        simp only [Device.read, Memory.read, Binding.offset, Array.getD_eq_getD_getElem?, hbyte]

@[simp] theorem windows_writeBytes (board : Board) (address : Word) (bytes : List Byte) :
    (board.writeBytes address bytes).windows = board.windows := by
  induction bytes generalizing board address with
  | nil => rfl
  | cons byte rest ih => rw [writeBytes_cons, ih, windows_write]

/-- Bytes that are written to memory are read back, and every other address shows what it showed. -/
theorem readBytes_writeBytes_of_inMemory {bytes : List Byte} (hlength : bytes.length ≤ wordBound)
    (h : ∀ other, Word.Within address bytes.length other → board.InMemory other) :
    (board.writeBytes address bytes).readBytes address bytes.length =
        (bytes, board.writeBytes address bytes) ∧
      ∀ other, ¬ Word.Within address bytes.length other →
        (board.writeBytes address bytes).peek other = board.peek other := by
  obtain ⟨hagree, hregisters⟩ := agreeButMemory_writeBytes h
  refine ⟨(stores_writeBytes hlength h).readBytes_eq, fun other hnot => ?_⟩
  exact hagree.peek_eq hregisters (routeIndex?_congr (windows_writeBytes _ _ _)) hnot

/-! ## Writes in either order -/

theorem modifyDevice_comm (board : Board) {first second : Nat} (hne : first ≠ second)
    (f g : Device → Device) :
    (board.modifyDevice first f).modifyDevice second g =
      (board.modifyDevice second g).modifyDevice first f := by
  have hmodify : (board.bindings.modify first (Binding.mapDevice f)).modify second
      (Binding.mapDevice g) = (board.bindings.modify second (Binding.mapDevice g)).modify first
        (Binding.mapDevice f) := by
    apply Array.ext_getElem?
    intro place
    simp only [Array.getElem?_modify]
    split
    next hsecond =>
      have hfirst : first ≠ place := fun heq => hne (heq.trans hsecond.symm)
      rw [if_neg hfirst, if_neg hfirst]
    next => rfl
  rw [modifyDevice, modifyDevice, modifyDevice, modifyDevice, ← hmodify]

/-- A write to an address in memory is a change of the memory alone. -/
theorem write_eq_modifyDevice {id : Nat} {window : Window} {memory : Memory}
    (hroute : board.routeIndex? address = some id)
    (hbinding : board.bindings[id]? = some ⟨window, .memory memory⟩) (value : Byte) :
    board.write address value =
      board.modifyDevice id (Device.write (address - window.base) value) := by
  rw [write, route?_eq_of_routeIndex? hroute hbinding]
  exact modifyAt_eq_modifyDevice hroute hbinding _

/-- Writes to two addresses in memory can be done in either order. -/
theorem write_comm (hfirst : board.InMemory address) (hsecond : board.InMemory address')
    (hne : address ≠ address') (value value' : Byte) :
    (board.write address value).write address' value' =
      (board.write address' value').write address value := by
  obtain ⟨id, window, memory, hroute, hbinding, _⟩ := inMemory_iff.mp hfirst
  obtain ⟨id', window', memory', hroute', hbinding', _⟩ := inMemory_iff.mp hsecond
  have hkept : ∀ (other : Nat) (offset : Word) (value : Byte) {place : Nat} {window : Window}
      {memory : Memory}, board.bindings[place]? = some ⟨window, .memory memory⟩ →
      ∃ memory', (board.modifyDevice other (Device.write offset value)).bindings[place]? =
        some ⟨window, .memory memory'⟩ := by
    intro other offset value place window memory hbinding
    rw [getElem?_modifyDevice, hbinding]
    split
    · exact ⟨memory.write offset value, rfl⟩
    · exact ⟨memory, rfl⟩
  obtain ⟨_, hafter⟩ := hkept id (address - window.base) value hbinding'
  obtain ⟨_, hafter'⟩ := hkept id' (address' - window'.base) value' hbinding
  rw [write_eq_modifyDevice hroute hbinding, write_eq_modifyDevice hroute' hbinding',
    write_eq_modifyDevice ((routeIndex?_modifyDevice _ _ _ _).trans hroute') hafter,
    write_eq_modifyDevice ((routeIndex?_modifyDevice _ _ _ _).trans hroute) hafter']
  by_cases hid : id = id'
  · -- Both addresses are in one window, where they have different offsets.
    subst hid
    obtain ⟨rfl, rfl⟩ := by simpa using hbinding.symm.trans hbinding'
    have hoffset : address - window.base ≠ address' - window.base :=
      fun heq => hne ((UInt32.sub_left_inj window.base).mp heq)
    rw [modifyDevice_modifyDevice, modifyDevice_modifyDevice]
    apply modifyDevice_congr hbinding
    exact congrArg Device.memory (memory.write_comm hoffset value value')
  · exact modifyDevice_comm board hid _ _

/-- A write to an address of memory can be put off until others have been written. -/
theorem write_writeBytes_comm {bytes : List Byte} (hfirst : board.InMemory address)
    (h : ∀ other, Word.Within address' bytes.length other → board.InMemory other)
    (hnot : ¬ Word.Within address' bytes.length address) (value : Byte) :
    (board.write address value).writeBytes address' bytes =
      (board.writeBytes address' bytes).write address value := by
  induction bytes generalizing board address' with
  | nil => rfl
  | cons byte rest ih =>
      rw [List.length_cons] at h hnot
      rw [Word.within_succ, not_or] at hnot
      have hsecond := h address' (Word.within_succ.mpr (.inl rfl))
      have hkept := (agreeButMemory_write hsecond byte).inMemory_iff
      have hrest : ∀ other, Word.Within (address' + 1) rest.length other →
          (board.write address' byte).InMemory other := fun other hwithin =>
        (hkept other).mpr (h other (Word.within_succ.mpr (.inr hwithin)))
      rw [writeBytes_cons, writeBytes_cons, write_comm hfirst hsecond hnot.1]
      exact ih ((hkept address).mpr hfirst) hrest hnot.2

/-- Writes to ranges of memory that share no address can be done in either order. -/
theorem writeBytes_comm {bytes bytes' : List Byte}
    (hfirst : ∀ other, Word.Within address bytes.length other → board.InMemory other)
    (hsecond : ∀ other, Word.Within address' bytes'.length other → board.InMemory other)
    (hdisjoint : ∀ other, ¬ (Word.Within address bytes.length other ∧
      Word.Within address' bytes'.length other)) :
    (board.writeBytes address bytes).writeBytes address' bytes' =
      (board.writeBytes address' bytes').writeBytes address bytes := by
  induction bytes generalizing board address with
  | nil => rfl
  | cons byte rest ih =>
      rw [List.length_cons] at hfirst hdisjoint
      have hstart := hfirst address (Word.within_succ.mpr (.inl rfl))
      have hkept := (agreeButMemory_write hstart byte).inMemory_iff
      have hnot : ¬ Word.Within address' bytes'.length address := fun hwithin =>
        hdisjoint address ⟨Word.within_succ.mpr (.inl rfl), hwithin⟩
      rw [writeBytes_cons, writeBytes_cons, ← write_writeBytes_comm hstart hsecond hnot]
      apply ih
      · exact fun other hwithin =>
          (hkept other).mpr (hfirst other (Word.within_succ.mpr (.inr hwithin)))
      · exact fun other hwithin => (hkept other).mpr (hsecond other hwithin)
      · exact fun other hboth =>
          hdisjoint other ⟨Word.within_succ.mpr (.inr hboth.1), hboth.2⟩

/-- A value that is read is the sum of its bytes as they are read one after the other, and so the sum of
what is at its addresses where reads change nothing. Where memories cover a range, what is written there
is read back and all other addresses show what they showed, be it the low bytes of a value or as many
bytes as there are addresses; and two writes to ranges without a common address can be done in either
order. -/
theorem memory_is_little_endian (board : Board) :
    (∀ address count, count ≤ 4 →
      (board.readValue address count).1.toNat =
        ∑ i ∈ Finset.range count, (board.byteRead address i).toNat * 256 ^ i) ∧
    (∀ address count, count ≤ 4 →
      (∀ other, Word.Within address count other → board.quiet other = true) →
      (board.readValue address count).1.toNat =
        ∑ i ∈ Finset.range count, (board.peek (address + UInt32.ofNat i)).toNat * 256 ^ i) ∧
    (board.Separated →
      (∀ address count, board.CoveredByMemory address count →
        ∀ other, Word.Within address count other → board.quiet other = true) ∧
      (∀ address count value, count ≤ 4 → board.CoveredByMemory address count →
        ((board.writeValue address count value).readValue address count).1.toNat =
            value.toNat % 2 ^ (8 * count) ∧
          ∀ other, ¬ Word.Within address count other →
            (board.writeValue address count value).peek other = board.peek other) ∧
      (∀ address bytes, bytes.length ≤ wordBound → board.CoveredByMemory address bytes.length →
        ((board.writeBytes address bytes).readBytes address bytes.length).1 = bytes ∧
          ∀ other, ¬ Word.Within address bytes.length other →
            (board.writeBytes address bytes).peek other = board.peek other) ∧
      (∀ address address' bytes bytes', board.CoveredByMemory address bytes.length →
        board.CoveredByMemory address' bytes'.length →
        (∀ other, ¬ (Word.Within address bytes.length other ∧
          Word.Within address' bytes'.length other)) →
        (board.writeBytes address bytes).writeBytes address' bytes' =
          (board.writeBytes address' bytes').writeBytes address bytes) ∧
      ∀ address address' count count' value value', board.CoveredByMemory address count →
        board.CoveredByMemory address' count' →
        (∀ other, ¬ (Word.Within address count other ∧ Word.Within address' count' other)) →
        (board.writeValue address count value).writeValue address' count' value' =
          (board.writeValue address' count' value').writeValue address count value) := by
  refine ⟨?_, ?_, fun hseparated => ⟨?_, ?_, ?_, ?_, ?_⟩⟩
  · exact fun address count hcount => toNat_readValue board address hcount
  · exact fun address count hcount hquiet => toNat_readValue_of_quiet hcount hquiet
  · intro address count hcovered other hwithin
    exact quiet_of_inMemory (hseparated.inMemory_of_covered hcovered other hwithin)
  · intro address count value hcount hcovered
    have hlength := Word.length_toBytes count value
    have hbound : (Word.toBytes count value).length ≤ wordBound := by
      rw [hlength]
      exact Nat.le_trans hcount (by decide)
    have hmemory := hseparated.inMemory_of_covered hcovered
    rw [← hlength] at hmemory
    obtain ⟨hread, hother⟩ := readBytes_writeBytes_of_inMemory hbound hmemory
    rw [hlength] at hread hother
    refine ⟨?_, hother⟩
    rw [readValue, writeValue, hread, Word.toNat_ofBytes_toBytes hcount, Nat.pow_mul]
  · intro address bytes hlength hcovered
    obtain ⟨hread, hother⟩ :=
      readBytes_writeBytes_of_inMemory hlength (hseparated.inMemory_of_covered hcovered)
    exact ⟨congrArg Prod.fst hread, hother⟩
  · intro address address' bytes bytes' hfirst hsecond hdisjoint
    exact writeBytes_comm (hseparated.inMemory_of_covered hfirst)
      (hseparated.inMemory_of_covered hsecond) hdisjoint
  · intro address address' count count' value value' hfirst hsecond hdisjoint
    have hlength := Word.length_toBytes count value
    have hlength' := Word.length_toBytes count' value'
    rw [← hlength] at hfirst hdisjoint
    rw [← hlength'] at hsecond hdisjoint
    exact writeBytes_comm (hseparated.inMemory_of_covered hfirst)
      (hseparated.inMemory_of_covered hsecond) hdisjoint

/-- A word that lies in two memories, the lower half at the end of the address space and the upper half
at its start, right before another range. -/
theorem memory_is_little_endian_around_the_end :
    let upper := ((empty {}).attach (.memory (.zeros 32)) ⟨0xFFFFFFF0, 16⟩).2
    let board := (upper.attach (.memory (.zeros 16)) ⟨0, 16⟩).2
    board.Separated ∧ board.CoveredByMemory 0xFFFFFFFE 4 ∧ board.CoveredByMemory 2 3 ∧
      (∀ other, Word.Within 0xFFFFFFFE 4 other → board.quiet other = true) ∧
      ((board.writeValue 0xFFFFFFFE 4 0x12345678).readValue 0xFFFFFFFE 4).1.toNat = 0x12345678 ∧
      (board.writeValue 0xFFFFFFFE 4 0x12345678).peek 2 = board.peek 2 ∧
      ((board.writeBytes 2 [1, 2, 3]).readBytes 2 3).1 = [1, 2, 3] ∧
      (board.writeValue 0xFFFFFFFE 4 0x12345678).writeValue 2 3 0x030201 =
        (board.writeValue 2 3 0x030201).writeValue 0xFFFFFFFE 4 0x12345678 := by
  intro upper board
  have hassembled : board.Assembled := .attach _ _ (.attach _ _ (.empty _))
  have hseparated := hassembled.separated
  have hbindings : board.bindings = #[⟨⟨0xFFFFFFF0, 16⟩, .memory (.zeros 32)⟩,
      ⟨⟨0, 16⟩, .memory (.zeros 16)⟩] := by decide +kernel
  have hcovered : ∀ window memory, ⟨window, .memory memory⟩ ∈ board.bindings →
      window.size.toNat ≤ memory.size → ∀ other, window.contains other = true →
      ∃ window memory, ⟨window, .memory memory⟩ ∈ board.bindings ∧
        window.contains other = true ∧ window.size.toNat ≤ memory.size :=
    fun window memory hmem hsize _ hin => ⟨window, memory, hmem, hin, hsize⟩
  have hupper := hcovered ⟨0xFFFFFFF0, 16⟩ (.zeros 32) (by simp [hbindings]) (by decide)
  have hlower := hcovered ⟨0, 16⟩ (.zeros 16) (by simp [hbindings]) (by decide)
  have hword : board.CoveredByMemory 0xFFFFFFFE 4 := by
    apply Word.forall_within
    intro offset hoffset
    interval_cases offset
    · exact hupper _ (by decide)
    · exact hupper _ (by decide)
    · exact hlower _ (by decide)
    · exact hlower _ (by decide)
  have hrange : board.CoveredByMemory 2 3 := by
    apply Word.forall_within
    intro offset hoffset
    exact hlower _ (by interval_cases offset <;> decide)
  have hdisjoint : ∀ other, ¬ (Word.Within 0xFFFFFFFE 4 other ∧ Word.Within 2 3 other) := by
    rintro other ⟨hfirst, hsecond⟩
    unfold Word.Within at hfirst hsecond
    simp only [UInt32.toNat_sub, UInt32.reduceToNat] at hfirst hsecond
    omega
  obtain ⟨_, _, hmemory⟩ := memory_is_little_endian board
  obtain ⟨hquiet, hvalue, hbytes, _, hcomm⟩ := hmemory hseparated
  obtain ⟨hread, hother⟩ := hvalue 0xFFFFFFFE 4 0x12345678 (by decide) hword
  refine ⟨hseparated, hword, hrange, hquiet _ _ hword, hread, hother 2 (by decide), ?_, ?_⟩
  · exact (hbytes 2 [1, 2, 3] (by decide) hrange).1
  · exact hcomm _ _ _ _ _ _ hword hrange hdisjoint

end Board

end TinyComputer
