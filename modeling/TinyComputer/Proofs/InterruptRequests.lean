import TinyComputer.Board.Interrupts
import TinyComputer.Proofs.MemoryView

/-!
# Interrupt requests

A keyboard counts its requests and a storage device has at most one; other devices have none. The
next request to be taken belongs to the first device, in the order of attachment, that has both a
line and a request. Taking it lowers the count of this device by one and changes nothing else.
-/

namespace TinyComputer

namespace Device

/-- The count of interrupt requests that were not taken yet. -/
def requestCount : Device → Nat
  | storage s => s.pending.toNat
  | keyboard k => k.pending
  | _ => 0

/-- Whether a device waits for an interrupt to be taken: it has a line and a request. -/
def Asks (device : Device) : Prop :=
  device.line?.isSome = true ∧ device.requesting = true

theorem requesting_iff {device : Device} :
    device.requesting = true ↔ 0 < device.requestCount := by
  cases device with
  | storage s =>
      simp only [requesting, requestCount]
      cases s.pending <;> decide
  | keyboard k => exact decide_eq_true_iff
  | _ => simp [requesting, requestCount]

theorem requestCount_acknowledge (device : Device) :
    device.acknowledge.requestCount = device.requestCount - 1 := by
  cases device with
  | storage s => exact (Nat.sub_eq_zero_of_le s.pending.toNat_le).symm
  | _ => rfl

/-- Withdrawing a request leaves memory alone. -/
theorem memory?_acknowledge (device : Device) : device.acknowledge.memory? = device.memory? := by
  cases device <;> rfl

/-- Memory has no interrupt line. -/
theorem memory?_of_line? {device : Device} {line : Byte} (h : device.line? = some line) :
    device.memory? = none := by
  cases device with
  | memory m => contradiction
  | _ => rfl

end Device

namespace Board

variable {board before after : Board} {id : Nat} {line : Byte}

/-- The count of requests of the device with a given place. -/
def requestCount (board : Board) (id : Nat) : Nat :=
  ((board.device? id).map Device.requestCount).getD 0

/-- The next request is that of the device with a given place, on a given line. -/
structure NextRequest (board : Board) (id : Nat) (line : Byte) : Prop where
  device : ∃ device, board.device? id = some device ∧ device.line? = some line ∧
    device.requesting = true
  first : ∀ earlier < id, ∀ other, board.device? earlier = some other → ¬ other.Asks

/-- The search for a request asks every device. -/
theorem asks_iff {binding : Binding} :
    (binding.device.line?.isSome && binding.device.requesting) = true ↔ binding.device.Asks :=
  Bool.and_eq_true_iff

theorem requestingIndex?_eq_some_iff :
    board.requestingIndex? = some id ↔ ∃ line, board.NextRequest id line := by
  rw [requestingIndex?, findIdx?_eq_some_iff_getElem?]
  constructor
  · rintro ⟨binding, hbinding, hasks, hfirst⟩
    obtain ⟨hline, hrequesting⟩ := asks_iff.mp hasks
    obtain ⟨line, hline⟩ := Option.isSome_iff_exists.mp hline
    refine ⟨line, ⟨binding.device, ?_, hline, hrequesting⟩, ?_⟩
    · exact device?_of_getElem? hbinding
    · intro earlier hlt other hother
      obtain ⟨found, hfound, rfl⟩ := Option.map_eq_some_iff.mp hother
      intro hasks
      exact Bool.eq_false_iff.mp (hfirst earlier hlt found hfound) (asks_iff.mpr hasks)
  · rintro ⟨line, ⟨device, hdevice, hline, hrequesting⟩, hfirst⟩
    obtain ⟨binding, hbinding, rfl⟩ := Option.map_eq_some_iff.mp hdevice
    refine ⟨binding, hbinding, ?_, ?_⟩
    · rw [hline, hrequesting]
      rfl
    · intro earlier hlt other hother
      apply Bool.eq_false_iff.mpr
      intro hasks
      exact hfirst earlier hlt other.device (device?_of_getElem? hother) (asks_iff.mp hasks)

theorem requestingIndex?_eq_none_iff :
    board.requestingIndex? = none ↔
      ∀ id device, board.device? id = some device → ¬ device.Asks := by
  rw [requestingIndex?, Array.findIdx?_eq_none_iff]
  constructor
  · intro h id device hdevice hasks
    obtain ⟨binding, hbinding, rfl⟩ := Option.map_eq_some_iff.mp hdevice
    have hquiet := h binding (Array.mem_of_getElem? hbinding)
    exact Bool.eq_false_iff.mp hquiet (asks_iff.mpr hasks)
  · intro h binding hmem
    obtain ⟨id, hbinding⟩ := Array.mem_iff_getElem?.mp hmem
    apply Bool.eq_false_iff.mpr
    intro hasks
    exact h id binding.device (device?_of_getElem? hbinding) (asks_iff.mp hasks)

/-- If some device asks, then one of them is the next. -/
theorem exists_nextRequest {device : Device} (hdevice : board.device? id = some device)
    (hasks : device.Asks) : ∃ first line, board.NextRequest first line := by
  cases hindex : board.requestingIndex? with
  | none => exact absurd hasks (requestingIndex?_eq_none_iff.mp hindex id device hdevice)
  | some first => exact ⟨first, requestingIndex?_eq_some_iff.mp hindex⟩

theorem takeInterrupt_of_nextRequest (h : board.NextRequest id line) :
    board.takeInterrupt = (some line, board.modifyDevice id Device.acknowledge) := by
  have hindex : board.requestingIndex? = some id := requestingIndex?_eq_some_iff.mpr ⟨line, h⟩
  obtain ⟨device, hdevice, hline, _⟩ := h.device
  obtain ⟨binding, hbinding, rfl⟩ := Option.map_eq_some_iff.mp hdevice
  have hrequested : board.requestedLine? = some line := by
    rw [requestedLine?, Array.find?_eq_bind_findIdx?_getElem?, ← requestingIndex?, hindex,
      Option.bind_some, hbinding, Option.bind_some, hline]
  simp only [takeInterrupt, hindex, hrequested]

theorem takeInterrupt_of_forall_not_asks
    (h : ∀ id device, board.device? id = some device → ¬ device.Asks) :
    board.takeInterrupt = (none, board) := by
  simp only [takeInterrupt, requestingIndex?_eq_none_iff.mpr h]

theorem device?_modifyDevice (board : Board) (id place : Nat) (f : Device → Device) :
    (board.modifyDevice id f).device? place =
      if id = place then (board.device? place).map f else board.device? place := by
  rw [device?, getElem?_modifyDevice]
  split
  · rw [Option.map_map, device?, Option.map_map]
    rfl
  · rfl

/-- Withdrawing a request leaves every byte of memory where it is. -/
theorem memoryByte?_acknowledge (board : Board) (id : Nat) (address : Word) :
    (board.modifyDevice id Device.acknowledge).memoryByte? address = board.memoryByte? address := by
  apply memoryByte?_congr (board.windows_modifyDevice id _)
  intro place
  rw [memory?, memory?, device?_modifyDevice]
  split
  · cases board.device? place with
    | none => rfl
    | some device => exact device.memory?_acknowledge
  · rfl

theorem inMemory_acknowledge (board : Board) (id : Nat) (address : Word) :
    (board.modifyDevice id Device.acknowledge).InMemory address ↔ board.InMemory address := by
  rw [InMemory, InMemory, memoryByte?_acknowledge]

theorem requestCount_acknowledge (board : Board) (id place : Nat) :
    (board.modifyDevice id Device.acknowledge).requestCount place =
      if id = place then board.requestCount place - 1 else board.requestCount place := by
  rw [requestCount, device?_modifyDevice]
  split
  · cases hdevice : board.device? place with
    | none => rw [requestCount, hdevice]; rfl
    | some device =>
        rw [requestCount, hdevice]
        exact device.requestCount_acknowledge
  · rfl

theorem NextRequest.requestCount_pos (h : board.NextRequest id line) :
    0 < board.requestCount id := by
  obtain ⟨device, hdevice, _, hrequesting⟩ := h.device
  rw [requestCount, hdevice]
  exact Device.requesting_iff.mp hrequesting

/-- A device that is no memory is not changed by writes of memory. -/
theorem AgreeButMemory.device?_eq {written : Word → Prop} (h : AgreeButMemory written before after)
    (hmemory : before.memory? id = none) : after.device? id = before.device? id := by
  rcases h.binding id with heq | ⟨window, memory, stored, hbefore, _⟩
  · rw [device?, device?, heq]
  · rw [memory?, device?, hbefore] at hmemory
    contradiction

theorem AgreeButMemory.requestCount_eq {written : Word → Prop}
    (h : AgreeButMemory written before after) (id : Nat) :
    after.requestCount id = before.requestCount id := by
  rw [requestCount, requestCount, device?, device?]
  rcases h.binding id with heq | ⟨window, memory, stored, hbefore, hafter, _⟩
  · rw [heq]
  · rw [hbefore, hafter]
    rfl

end Board

end TinyComputer
