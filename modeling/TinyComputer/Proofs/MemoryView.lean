import TinyComputer.Proofs.DeviceAccess

/-!
# Memory as seen from the address space

`memoryByte?` is the byte that a memory holds at an address, whichever memory it is. Reads of memory
change nothing, and a write of memory replaces this byte and no other. Bytes that are written one
after the other are read back, and all other addresses and devices stay as they were. A board `Stores`
bytes at an address when memories hold them all from there upwards.
-/

namespace TinyComputer

/-- The memory that a device is. -/
def Device.memory? : Device → Option Memory
  | .memory m => some m
  | _ => none

namespace Board

/-- The memory with a given place. -/
def memory? (board : Board) (id : Nat) : Option Memory :=
  (board.device? id).bind Device.memory?

/-- The byte of memory at an address. There is none where no memory answers. -/
def memoryByte? (board : Board) (address : Word) : Option Byte :=
  (board.route? address).bind fun binding =>
    binding.device.memory?.bind fun memory => memory.bytes[(binding.offset address).toNat]?

/-- Whether a memory answers for an address. -/
def InMemory (board : Board) (address : Word) : Prop :=
  (board.memoryByte? address).isSome = true

instance (board : Board) (address : Word) : Decidable (board.InMemory address) :=
  inferInstanceAs (Decidable (_ = true))

/-- The bytes of memory from an address upwards. -/
def memoryBytes (board : Board) (address : Word) : (count : Nat) → List Byte
  | 0 => []
  | count + 1 => (board.memoryByte? address).getD 0 :: board.memoryBytes (address + 1) count

variable {board before middle after : Board} {address : Word}

/-- The view asks for windows and memories only. -/
theorem memoryByte?_congr (hwindows : after.windows = before.windows)
    (hmemory : ∀ id, after.memory? id = before.memory? id) (address : Word) :
    after.memoryByte? address = before.memoryByte? address := by
  rw [memoryByte?, memoryByte?, route?_eq_bind, route?_eq_bind, routeIndex?_congr hwindows]
  cases before.routeIndex? address with
  | none => rfl
  | some id =>
      have hwindow := congrArg (·[id]?) hwindows
      have hmemory := hmemory id
      simp only [getElem?_windows, window?, memory?, device?] at hwindow hmemory
      simp only [Option.bind_some]
      cases hafter : after.bindings[id]? <;> cases hbefore : before.bindings[id]? <;>
        simp_all [Binding.offset]

/-- What reads may change is no memory. -/
theorem AgreeButQueues.memoryByte?_eq {reached : Word → Prop}
    (h : AgreeButQueues reached before after) (address : Word) :
    after.memoryByte? address = before.memoryByte? address := by
  apply memoryByte?_congr h.windows_eq
  intro id
  rw [memory?, memory?, device?, device?]
  rcases h.binding id with heq | ⟨window, keyboard, queue, latch, hbefore, hafter, _⟩
  · rw [heq]
  · rw [hbefore, hafter]
    rfl

theorem memoryByte?_of_routeIndex? {id : Nat} {binding : Binding}
    (hroute : board.routeIndex? address = some id)
    (hbinding : board.bindings[id]? = some binding) :
    board.memoryByte? address = binding.device.memory?.bind fun memory =>
      memory.bytes[(binding.offset address).toNat]? := by
  rw [memoryByte?, route?_eq_of_routeIndex? hroute hbinding, Option.bind_some]

/-- What it means for a memory to answer. -/
theorem memoryByte?_eq_some_iff {byte : Byte} :
    board.memoryByte? address = some byte ↔
      ∃ id window memory, board.routeIndex? address = some id ∧
        board.bindings[id]? = some ⟨window, .memory memory⟩ ∧
        memory.bytes[(address - window.base).toNat]? = some byte := by
  rw [memoryByte?, route?_eq_bind]
  constructor
  · intro h
    obtain ⟨binding, hbinding, h⟩ := Option.bind_eq_some_iff.mp h
    obtain ⟨id, hroute, hbinding⟩ := Option.bind_eq_some_iff.mp hbinding
    obtain ⟨found, hfound, hbyte⟩ := Option.bind_eq_some_iff.mp h
    obtain ⟨window, device⟩ := binding
    cases device with
    | memory m =>
        obtain rfl : m = found := Option.some.inj hfound
        exact ⟨id, window, m, hroute, hbinding, hbyte⟩
    | _ => contradiction
  · rintro ⟨id, window, memory, hroute, hbinding, hbyte⟩
    rw [hroute, Option.bind_some, hbinding]
    exact hbyte

theorem inMemory_iff :
    board.InMemory address ↔
      ∃ id window memory, board.routeIndex? address = some id ∧
        board.bindings[id]? = some ⟨window, .memory memory⟩ ∧
        (address - window.base).toNat < memory.size := by
  rw [InMemory, Option.isSome_iff_exists]
  simp only [memoryByte?_eq_some_iff]
  constructor
  · rintro ⟨byte, id, window, memory, hroute, hbinding, hbyte⟩
    obtain ⟨hlt, _⟩ := Array.getElem?_eq_some_iff.mp hbyte
    exact ⟨id, window, memory, hroute, hbinding, hlt⟩
  · rintro ⟨id, window, memory, hroute, hbinding, hlt⟩
    exact ⟨_, id, window, memory, hroute, hbinding, Array.getElem?_eq_getElem hlt⟩

theorem peek_of_memoryByte? {byte : Byte} (h : board.memoryByte? address = some byte) :
    board.peek address = byte := by
  obtain ⟨id, window, memory, hroute, hbinding, hbyte⟩ := memoryByte?_eq_some_iff.mp h
  rw [peek, route?_eq_of_routeIndex? hroute hbinding]
  simp only [Device.read, Memory.read, Binding.offset, Array.getD_eq_getD_getElem?, hbyte,
    Option.getD_some]

theorem touch_of_inMemory (h : board.InMemory address) : board.touch address = board := by
  obtain ⟨id, window, memory, hroute, hbinding, _⟩ := inMemory_iff.mp h
  apply touch_of_quiet
  rw [quiet, route?_eq_of_routeIndex? hroute hbinding]
  rfl

/-- A write of memory changes one memory. -/
theorem write_of_inMemory (h : board.InMemory address) (value : Byte) :
    ∃ id window memory, board.routeIndex? address = some id ∧
      board.bindings[id]? = some ⟨window, .memory memory⟩ ∧
      (address - window.base).toNat < memory.size ∧
      board.write address value =
        board.modifyDevice id fun _ => .memory (memory.write (address - window.base) value) := by
  obtain ⟨id, window, memory, hroute, hbinding, hlt⟩ := inMemory_iff.mp h
  refine ⟨id, window, memory, hroute, hbinding, hlt, ?_⟩
  rw [write, route?_eq_of_routeIndex? hroute hbinding]
  simp only
  rw [modifyAt_eq_modifyDevice hroute hbinding]
  exact modifyDevice_congr hbinding rfl

/-- A write of memory replaces the byte at its address and no other. -/
theorem memoryByte?_write (h : board.InMemory address) (value : Byte) (other : Word) :
    (board.write address value).memoryByte? other =
      if other = address then some value else board.memoryByte? other := by
  obtain ⟨id, window, memory, hroute, hbinding, hlt, hwrite⟩ := write_of_inMemory h value
  rw [hwrite]
  by_cases hother : board.routeIndex? other = some id
  · have hbinding' : (board.modifyDevice id fun _ =>
        .memory (memory.write (address - window.base) value)).bindings[id]? =
          some ⟨window, .memory (memory.write (address - window.base) value)⟩ :=
      getElem?_modifyDevice_self hbinding _
    rw [memoryByte?_of_routeIndex? ((routeIndex?_modifyDevice _ _ _ _).trans hother) hbinding',
      memoryByte?_of_routeIndex? hother hbinding]
    simp only [Device.memory?, Option.bind_some, Binding.offset, Memory.write,
      Array.getElem?_setIfInBounds]
    by_cases heq : other = address
    · subst heq
      have hbound : (other - window.base).toNat < memory.bytes.size := hlt
      simp only [if_true, hbound]
    · -- Two addresses in one window have different offsets.
      have hoffset : (address - window.base).toNat ≠ (other - window.base).toNat := by
        intro hoffset
        exact heq ((UInt32.sub_left_inj window.base).mp (UInt32.toNat_inj.mp hoffset.symm))
      rw [if_neg hoffset, if_neg heq]
  · have hne : other ≠ address := by
      rintro rfl
      exact hother hroute
    rw [if_neg hne, memoryByte?, memoryByte?, route?_modifyDevice_of_ne hother]

/-- Two boards that agree but for the bytes of memories at addresses that were written, and for
registers. -/
structure AgreeButMemory (written : Word → Prop) (before after : Board) : Prop where
  config_eq : after.config = before.config
  nextSlot_eq : after.nextSlot = before.nextSlot
  nextLine_eq : after.nextLine = before.nextLine
  binding : ∀ id : Nat, after.bindings[id]? = before.bindings[id]? ∨
    ∃ window memory stored, before.bindings[id]? = some ⟨window, .memory memory⟩ ∧
      after.bindings[id]? = some ⟨window, .memory stored⟩ ∧ stored.size = memory.size
  memoryByte?_eq : ∀ address, ¬ written address →
    after.memoryByte? address = before.memoryByte? address
  inMemory_iff : ∀ address, after.InMemory address ↔ before.InMemory address

namespace AgreeButMemory

variable {written wider : Word → Prop}

theorem refl (written : Word → Prop) (board : Board) : AgreeButMemory written board board :=
  ⟨rfl, rfl, rfl, fun _ => .inl rfl, fun _ _ => rfl, fun _ => Iff.rfl⟩

theorem setRegister (h : AgreeButMemory written before after) (r : Register) (value : Word) :
    AgreeButMemory written before (after.setRegister r value) :=
  ⟨h.config_eq, h.nextSlot_eq, h.nextLine_eq, h.binding, h.memoryByte?_eq, h.inMemory_iff⟩

theorem mono (h : AgreeButMemory written before after)
    (hwider : ∀ address, written address → wider address) :
    AgreeButMemory wider before after :=
  ⟨h.config_eq, h.nextSlot_eq, h.nextLine_eq, h.binding,
    fun address hnot => h.memoryByte?_eq address fun hwritten => hnot (hwider address hwritten),
    h.inMemory_iff⟩

theorem trans (hfirst : AgreeButMemory written before middle)
    (hsecond : AgreeButMemory written middle after) : AgreeButMemory written before after := by
  refine ⟨hsecond.config_eq.trans hfirst.config_eq, hsecond.nextSlot_eq.trans hfirst.nextSlot_eq,
    hsecond.nextLine_eq.trans hfirst.nextLine_eq, ?_, ?_, ?_⟩
  · intro id
    rcases hsecond.binding id with heq | ⟨window, memory, stored, hmiddle, hafter, hsize⟩
    · rw [heq]
      exact hfirst.binding id
    · right
      rcases hfirst.binding id with heq | ⟨range, original, _, hbefore, hmiddle', hsize'⟩
      · exact ⟨window, memory, stored, heq ▸ hmiddle, hafter, hsize⟩
      · obtain ⟨rfl, rfl⟩ := by simpa using hmiddle'.symm.trans hmiddle
        exact ⟨range, original, stored, hbefore, hafter, hsize.trans hsize'⟩
  · intro address hnot
    exact (hsecond.memoryByte?_eq address hnot).trans (hfirst.memoryByte?_eq address hnot)
  · intro address
    exact (hsecond.inMemory_iff address).trans (hfirst.inMemory_iff address)

end AgreeButMemory

theorem agreeButMemory_write (h : board.InMemory address) (value : Byte) :
    AgreeButMemory (· = address) board (board.write address value) := by
  have hview := memoryByte?_write h value
  obtain ⟨id, window, memory, _, hbinding, _, hwrite⟩ := write_of_inMemory h value
  refine ⟨by rw [hwrite]; rfl, by rw [hwrite]; rfl, by rw [hwrite]; rfl, ?_, ?_, ?_⟩
  · intro place
    rw [hwrite, getElem?_modifyDevice]
    split
    next heq =>
      subst heq
      rw [hbinding]
      exact .inr ⟨window, memory, _, rfl, rfl, Memory.size_write _ _ _⟩
    next => exact .inl rfl
  · intro other hne
    rw [hview, if_neg hne]
  · intro other
    rw [InMemory, InMemory, hview]
    split
    next heq =>
      rw [heq]
      exact ⟨fun _ => h, fun _ => rfl⟩
    next => exact Iff.rfl

theorem registers_write_of_inMemory (h : board.InMemory address) (value : Byte) :
    (board.write address value).registers = board.registers := by
  obtain ⟨_, _, _, _, _, _, hwrite⟩ := write_of_inMemory h value
  rw [hwrite]
  rfl

/-! ## Runs of bytes -/

@[simp] theorem length_memoryBytes (board : Board) (address : Word) (count : Nat) :
    (board.memoryBytes address count).length = count := by
  induction count generalizing address with
  | zero => rfl
  | succ count ih => rw [memoryBytes, List.length_cons, ih]

theorem memoryBytes_congr {count : Nat}
    (h : ∀ other, Word.Within address count other →
      after.memoryByte? other = before.memoryByte? other) :
    after.memoryBytes address count = before.memoryBytes address count := by
  induction count generalizing address with
  | zero => rfl
  | succ count ih =>
      have hfirst := h address (Word.within_succ.mpr (.inl rfl))
      have hrest := ih fun other hwithin => h other (Word.within_succ.mpr (.inr hwithin))
      rw [memoryBytes, memoryBytes, hfirst, hrest]

/-- Reading memory gives its bytes and changes nothing. -/
theorem readBytes_of_inMemory {count : Nat}
    (h : ∀ other, Word.Within address count other → board.InMemory other) :
    board.readBytes address count = (board.memoryBytes address count, board) := by
  induction count generalizing address with
  | zero => rfl
  | succ count ih =>
      have hfirst := h address (Word.within_succ.mpr (.inl rfl))
      have hrest := ih fun other hwithin => h other (Word.within_succ.mpr (.inr hwithin))
      obtain ⟨byte, hbyte⟩ := Option.isSome_iff_exists.mp hfirst
      rw [readBytes_succ, touch_of_inMemory hfirst, hrest, peek_of_memoryByte? hbyte, memoryBytes,
        hbyte, Option.getD_some]

theorem agreeButMemory_writeBytes {bytes : List Byte}
    (h : ∀ other, Word.Within address bytes.length other → board.InMemory other) :
    AgreeButMemory (Word.Within address bytes.length) board (board.writeBytes address bytes) ∧
      (board.writeBytes address bytes).registers = board.registers := by
  induction bytes generalizing board address with
  | nil => exact ⟨.refl _ board, rfl⟩
  | cons byte rest ih =>
      rw [List.length_cons] at h ⊢
      have hfirst := h address (Word.within_succ.mpr (.inl rfl))
      have hwrite : AgreeButMemory (Word.Within address (rest.length + 1)) board
          (board.write address byte) :=
        (agreeButMemory_write hfirst byte).mono fun _ heq => Word.within_succ.mpr (.inl heq)
      have hrest : ∀ other, Word.Within (address + 1) rest.length other →
          (board.write address byte).InMemory other := fun other hwithin =>
        (hwrite.inMemory_iff other).mpr (h other (Word.within_succ.mpr (.inr hwithin)))
      obtain ⟨hagree, hregisters⟩ := ih hrest
      refine ⟨hwrite.trans (hagree.mono fun _ h => Word.within_succ.mpr (.inr h)), ?_⟩
      rw [writeBytes_cons, hregisters, registers_write_of_inMemory hfirst]

/-- Bytes that were written are there. -/
theorem memoryBytes_writeBytes {bytes : List Byte} (hlength : bytes.length ≤ wordBound)
    (h : ∀ other, Word.Within address bytes.length other → board.InMemory other) :
    (board.writeBytes address bytes).memoryBytes address bytes.length = bytes := by
  induction bytes generalizing board address with
  | nil => rfl
  | cons byte rest ih =>
      rw [List.length_cons] at h hlength ⊢
      have hfirst := h address (Word.within_succ.mpr (.inl rfl))
      have hrest : ∀ other, Word.Within (address + 1) rest.length other →
          (board.write address byte).InMemory other := fun other hwithin =>
        ((agreeButMemory_write hfirst byte).inMemory_iff other).mpr
          (h other (Word.within_succ.mpr (.inr hwithin)))
      -- The run is shorter than the address space, so it does not come back to its start.
      have hstart : ¬ Word.Within (address + 1) rest.length address := by
        intro hwithin
        apply Word.not_within_of_within_add hwithin
        · rw [Nat.add_comm]
          exact hlength
        · exact Word.within_succ.mpr (.inl rfl)
      have hbyte := (agreeButMemory_writeBytes hrest).1.memoryByte?_eq address hstart
      rw [memoryByte?_write hfirst, if_pos rfl] at hbyte
      rw [writeBytes_cons, memoryBytes, hbyte, Option.getD_some, ih (Nat.le_of_succ_le hlength) hrest]

/-! ## Bytes that memory holds -/

/-- Memory holds the given bytes from an address upwards. -/
def Stores (board : Board) (address : Word) : List Byte → Prop
  | [] => True
  | byte :: rest => board.memoryByte? address = some byte ∧ board.Stores (address + 1) rest

/-- Addresses are counted on in one step or in two. -/
theorem add_one_add_ofNat (address : Word) (count : Nat) :
    address + 1 + UInt32.ofNat count = address + UInt32.ofNat (count + 1) := by
  rw [UInt32.ofNat_add, UInt32.add_assoc, UInt32.add_comm 1]
  rfl

theorem stores_append {first second : List Byte} :
    board.Stores address (first ++ second) ↔
      board.Stores address first ∧ board.Stores (address + UInt32.ofNat first.length) second := by
  induction first generalizing address with
  | nil => simp [Stores]
  | cons byte rest ih =>
      rw [List.cons_append, Stores, Stores, ih, add_one_add_ofNat, and_assoc]
      rfl

/-- Memory holds the bytes that it shows. -/
theorem stores_memoryBytes {count : Nat}
    (h : ∀ other, Word.Within address count other → board.InMemory other) :
    board.Stores address (board.memoryBytes address count) := by
  induction count generalizing address with
  | zero => trivial
  | succ count ih =>
      obtain ⟨byte, hbyte⟩ := Option.isSome_iff_exists.mp (h address (Word.within_succ.mpr (.inl rfl)))
      refine ⟨by rw [hbyte, Option.getD_some], ih ?_⟩
      exact fun other hwithin => h other (Word.within_succ.mpr (.inr hwithin))

/-- Memory holds what was written to it. -/
theorem stores_writeBytes {bytes : List Byte} (hlength : bytes.length ≤ wordBound)
    (h : ∀ other, Word.Within address bytes.length other → board.InMemory other) :
    (board.writeBytes address bytes).Stores address bytes := by
  have hstored := stores_memoryBytes fun other hwithin =>
    ((agreeButMemory_writeBytes h).1.inMemory_iff other).mpr (h other hwithin)
  rwa [memoryBytes_writeBytes hlength h] at hstored

theorem Stores.inMemory {byte : Byte} {rest : List Byte}
    (h : board.Stores address (byte :: rest)) : board.InMemory address := by
  rw [InMemory, h.1, Option.isSome_some]

/-- Reading gives the bytes that memory holds and changes nothing. -/
theorem Stores.readBytes_eq {bytes : List Byte} (h : board.Stores address bytes) :
    board.readBytes address bytes.length = (bytes, board) := by
  induction bytes generalizing address with
  | nil => rfl
  | cons byte rest ih =>
      rw [List.length_cons, readBytes_succ, touch_of_inMemory h.inMemory, ih h.2,
        peek_of_memoryByte? h.1]

theorem Stores.memoryBytes_eq {bytes : List Byte} (h : board.Stores address bytes) :
    board.memoryBytes address bytes.length = bytes := by
  induction bytes generalizing address with
  | nil => rfl
  | cons byte rest ih => rw [List.length_cons, memoryBytes, h.1, ih h.2, Option.getD_some]

theorem Stores.congr {bytes : List Byte} (h : before.Stores address bytes)
    (hmemory : ∀ other, Word.Within address bytes.length other →
      after.memoryByte? other = before.memoryByte? other) : after.Stores address bytes := by
  induction bytes generalizing address with
  | nil => trivial
  | cons byte rest ih =>
      refine ⟨(hmemory address (Word.within_succ.mpr (.inl rfl))).trans h.1, ih h.2 ?_⟩
      exact fun other hwithin => hmemory other (Word.within_succ.mpr (.inr hwithin))

end Board

end TinyComputer
