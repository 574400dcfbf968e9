import TinyComputer.Proofs.CheckedStorage
import TinyComputer.Proofs.Reset

/-!
# Checked accesses

What reads and writes of the address space do, with every sum, difference, index and shift on the way
checked: finding the window of an address, going from the address to an offset of the window, what the
device does there, and putting a value together from its bytes. Boards whose storage devices have at most
four units, of sizes that a double word holds, stay so in every use. On such boards no access traps, and
each gives the byte and leaves the board that it gives and leaves without the checks.
-/

namespace TinyComputer

/-! ## Devices -/

namespace StorageUnit

/-- Sizes are double words, but for memory, whose size no use changes. -/
theorem size_lt_of_blank_eq {before after : StorageUnit} (h : before.size < 2 ^ 64)
    (hblank : before.blank = after.blank) : after.size < 2 ^ 64 := by
  cases after with
  | memory bytes =>
      cases before with
      | memory original =>
          have hsize : (zeros original.size).size = (zeros bytes.size).size := congrArg size hblank
          simp only [zeros, size, Array.size_replicate] at hsize
          rwa [size, ← hsize]
      | _ => contradiction
  | patterned size => exact size.toNat_lt
  | defective size => exact size.toNat_lt
  | hosted medium => exact (medium.size []).toNat_lt

/-- Whether units are countable is told by what no use of them changes. -/
theorem Countable.of_map_blank_eq {before after : List StorageUnit} (h : Countable before)
    (hblank : after.map blank = before.map blank) : Countable after := by
  have hlength := congrArg List.length hblank
  rw [List.length_map, List.length_map] at hlength
  refine ⟨hlength ▸ h.1, fun unit hmem => ?_⟩
  obtain ⟨original, horiginal, heq⟩ := List.mem_map.mp (hblank ▸ List.mem_map_of_mem hmem)
  exact size_lt_of_blank_eq (h.2 original horiginal) heq

end StorageUnit

namespace Device

/-- Read the byte at an offset. Memory looks up its bytes, so that offsets behind its end have none. -/
def checkedRead (registers : RegisterFile) (offset : Word) : Device → Checked (Byte × Device)
  | memory m => return (m.read offset, memory m)
  | registerBank => do
      let byte ← RegisterBank.checkedRead registers offset
      return (byte, registerBank)
  | storage s => do
      let byte ← s.checkedRead offset
      return (byte, storage s)
  | keyboard k => do
      let (byte, after) ← k.checkedRead offset
      return (byte, keyboard after)

def checkedWrite (offset : Word) (value : Byte) : Device → Checked Device
  | memory m => return memory (m.write offset value)
  | registerBank => return registerBank
  | storage s => do
      let after ← s.checkedWrite offset value
      return storage after
  | keyboard k => return keyboard (k.write offset value)

def checkedAcknowledge : Device → Checked Device
  | keyboard k => do
      let after ← k.checkedAcknowledge
      return keyboard after
  | device => return device.acknowledge

variable {device : Device}

theorem checkedRead_eq_ok (h : StorageUnit.Countable device.units) (registers : RegisterFile)
    (offset : Word) : device.checkedRead registers offset =
      .ok (device.read registers offset, device.afterRead offset) := by
  cases device with
  | memory m => rfl
  | registerBank =>
      rw [checkedRead, RegisterBank.checkedRead_eq_ok]
      rfl
  | storage s =>
      rw [checkedRead, Storage.checkedRead_eq_ok h]
      rfl
  | keyboard k =>
      rw [checkedRead, Keyboard.checkedRead_eq_ok]
      rfl

theorem checkedWrite_eq_ok (h : StorageUnit.Countable device.units) (offset : Word) (value : Byte) :
    device.checkedWrite offset value = .ok (device.write offset value) := by
  cases device with
  | storage s =>
      rw [checkedWrite, Storage.checkedWrite_eq_ok h]
      rfl
  | _ => rfl

theorem checkedAcknowledge_eq_ok (device : Device) :
    device.checkedAcknowledge = .ok device.acknowledge := by
  cases device with
  | keyboard k =>
      rw [checkedAcknowledge, Keyboard.checkedAcknowledge_eq_ok]
      rfl
  | _ => rfl

end Device

/-! ## Routing -/

/-- Whether an address lies in a window, whose bound is computed as a double word. -/
def Window.checkedContains (window : Window) (address : Word) : Checked Bool :=
  if window.base ≤ address then do
    let bound ← Checked.addDouble window.base.toUInt64 window.size.toUInt64
    return address.toUInt64 < bound
  else return false

theorem Window.checkedContains_eq_ok (window : Window) (address : Word) :
    window.checkedContains address = .ok (window.contains address) := by
  have hbase := window.base.toNat_lt
  have hsize := window.size.toNat_lt
  have hsum : window.base.toUInt64.toNat + window.size.toUInt64.toNat < 2 ^ 64 := by
    rw [UInt32.toNat_toUInt64, UInt32.toNat_toUInt64]
    omega
  have hbound : address.toUInt64 < window.base.toUInt64 + window.size.toUInt64 ↔
      address.toNat < window.bound := by
    rw [UInt64.lt_iff_toNat_lt, UInt64.toNat_add, Nat.mod_eq_of_lt hsum, UInt32.toNat_toUInt64,
      UInt32.toNat_toUInt64, UInt32.toNat_toUInt64, bound]
  unfold checkedContains contains
  by_cases hle : window.base ≤ address
  · rw [if_pos hle, Checked.addDouble_eq_ok hsum, Checked.ok_bind]
    simp only [hbound, hle, decide_true, Bool.true_and]
    rfl
  · rw [if_neg hle, decide_eq_false hle, Bool.false_and]
    rfl

namespace Board

/-- No storage device has more than four units, or one of a size that no double word holds. -/
def Countable (board : Board) : Prop :=
  ∀ id, StorageUnit.Countable (board.units id)

variable {board before after : Board}

theorem Countable.device (h : board.Countable) {id : Nat} {binding : Binding}
    (hbinding : board.bindings[id]? = some binding) : StorageUnit.Countable binding.device.units :=
  units_of_binding hbinding ▸ h id

theorem Countable.of_blank_eq (h : before.Countable) (hblank : after.blank = before.blank) :
    after.Countable :=
  fun id => (h id).of_map_blank_eq (map_blank_units_eq hblank id)

/-- No single access changes how many units there are and what sizes they have. -/
theorem countable_kept : KeptByAccesses Countable where
  setRegister r value h := h.of_blank_eq (blank_setRegister _ r value)
  touch address h := h.of_blank_eq (blank_touch _ address)
  write address value h := h.of_blank_eq (blank_write _ address value)
  takeInterrupt h := h.of_blank_eq (blank_takeInterrupt _)

/-- The binding whose window contains an address. -/
def checkedRoute? (board : Board) (address : Word) : Checked (Option Binding) :=
  board.bindings.toList.findM? (·.window.checkedContains address)

theorem checkedRoute?_eq_ok (board : Board) (address : Word) :
    board.checkedRoute? address = .ok (board.route? address) := by
  have hcontains : (fun binding : Binding => binding.window.checkedContains address) =
      fun binding => pure (binding.window.contains address) := by
    funext binding
    exact binding.window.checkedContains_eq_ok address
  rw [checkedRoute?, hcontains, List.findM?_pure, route?, Array.find?_toList]
  rfl

/-- What was found for an address starts below it. -/
theorem sub_base_eq_ok {address : Word} {id : Nat} (hroute : board.routeIndex? address = some id) :
    ∃ binding, board.bindings[id]? = some binding ∧ board.route? address = some binding ∧
      Checked.sub address binding.window.base = .ok (binding.offset address) := by
  obtain ⟨binding, hbinding, hcontains, _⟩ := routeIndex?_eq_some_iff.mp hroute
  exact ⟨binding, hbinding, route?_eq_of_routeIndex? hroute hbinding,
    (Checked.sub_eq_ok (Window.contains_iff.mp hcontains).1).1⟩

/-! ## Bytes -/

def checkedRead (board : Board) (address : Word) : Checked (Byte × Board) := do
  match ← board.checkedRoute? address with
  | none => return (0, board)
  | some binding => do
      let offset ← Checked.sub address binding.window.base
      let (byte, device) ← binding.device.checkedRead board.registers offset
      return (byte, board.modifyAt address fun _ _ => device)

def checkedWrite (board : Board) (address : Word) (value : Byte) : Checked Board := do
  match ← board.checkedRoute? address with
  | none => return board
  | some ⟨window, .registerBank⟩ => do
      let offset ← Checked.sub address window.base
      let registers ← RegisterBank.checkedWrite board.registers offset value
      return { board with registers }
  | some ⟨window, device⟩ => do
      let offset ← Checked.sub address window.base
      let device ← device.checkedWrite offset value
      return board.modifyAt address fun _ _ => device

/-- A read puts the device back as the read left it. -/
theorem touch_eq_modifyDevice {address : Word} {id : Nat} {window : Window} {device : Device}
    (hroute : board.routeIndex? address = some id)
    (hbinding : board.bindings[id]? = some ⟨window, device⟩) :
    board.touch address = board.modifyDevice id fun _ => device.afterRead (address - window.base) := by
  have hfound := route?_eq_of_routeIndex? hroute hbinding
  by_cases hquiet : board.quiet address = true
  · have hread : device.readHasEffect (address - window.base) = false := by
      simpa [quiet, hfound, Binding.offset] using hquiet
    rw [touch_of_quiet hquiet, Device.afterRead_of_not_readHasEffect hread, modifyDevice_self hbinding]
  · rw [touch, if_neg hquiet, modifyAt_eq_modifyDevice hroute hbinding]
    exact modifyDevice_congr hbinding rfl

theorem checkedRead_eq_ok (h : board.Countable) (address : Word) :
    board.checkedRead address = .ok (board.read address) := by
  rw [checkedRead, checkedRoute?_eq_ok, Checked.ok_bind, read]
  cases hroute : board.routeIndex? address with
  | none =>
      rw [peek, touch, quiet, route?_eq_bind, hroute]
      rfl
  | some id =>
      obtain ⟨⟨window, device⟩, hbinding, hfound, hsub⟩ := sub_base_eq_ok hroute
      rw [peek, touch_eq_modifyDevice hroute hbinding, hfound]
      dsimp only
      rw [hsub, Checked.ok_bind, Device.checkedRead_eq_ok (h.device hbinding), Checked.ok_bind,
        modifyAt_eq_modifyDevice hroute hbinding]
      rfl

theorem checkedWrite_eq_ok (h : board.Countable) (address : Word) (value : Byte) :
    board.checkedWrite address value = .ok (board.write address value) := by
  rw [checkedWrite, checkedRoute?_eq_ok, Checked.ok_bind, write]
  cases hroute : board.routeIndex? address with
  | none =>
      rw [route?_eq_bind, hroute, modifyAt, hroute]
      rfl
  | some id =>
      obtain ⟨⟨window, device⟩, hbinding, hfound, hsub⟩ := sub_base_eq_ok hroute
      rw [hfound]
      cases device with
      | registerBank =>
          dsimp only
          rw [hsub, Checked.ok_bind, RegisterBank.checkedWrite_eq_ok]
          rfl
      | _ =>
          dsimp only
          rw [hsub, Checked.ok_bind, Device.checkedWrite_eq_ok (h.device hbinding), Checked.ok_bind,
            modifyAt_eq_modifyDevice hroute hbinding, modifyAt_eq_modifyDevice hroute hbinding]
          exact congrArg Except.ok (modifyDevice_congr hbinding rfl)

def checkedReadBytes (board : Board) (address : Word) : (count : Nat) → Checked (List Byte × Board)
  | 0 => return ([], board)
  | count + 1 => do
      let (byte, next) ← board.checkedRead address
      let (rest, last) ← next.checkedReadBytes (address + 1) count
      return (byte :: rest, last)

def checkedWriteBytes (board : Board) (address : Word) : List Byte → Checked Board
  | [] => return board
  | byte :: rest => do
      let next ← board.checkedWrite address byte
      next.checkedWriteBytes (address + 1) rest

theorem checkedReadBytes_eq_ok (h : board.Countable) (address : Word) (count : Nat) :
    board.checkedReadBytes address count = .ok (board.readBytes address count) := by
  induction count generalizing board address with
  | zero => rfl
  | succ count ih =>
      rw [checkedReadBytes, checkedRead_eq_ok h, Checked.ok_bind, read, readBytes_succ]
      dsimp only
      rw [ih (countable_kept.touch address h)]
      rfl

theorem checkedWriteBytes_eq_ok (h : board.Countable) (address : Word) (bytes : List Byte) :
    board.checkedWriteBytes address bytes = .ok (board.writeBytes address bytes) := by
  induction bytes generalizing board address with
  | nil => rfl
  | cons byte rest ih =>
      rw [checkedWriteBytes, checkedWrite_eq_ok h, Checked.ok_bind, writeBytes_cons]
      exact ih (countable_kept.write address byte h) (address + 1)

/-! ## Values -/

/-- Read a value, each byte of which is shifted to its place. -/
def checkedReadValue (board : Board) (address : Word) (count : Nat) : Checked (Word × Board) := do
  let (bytes, next) ← board.checkedReadBytes address count
  let value ← Word.checkedJoin 0 0 bytes
  return (value, next)

/-- Write the low bytes of a value, each of which is shifted down. -/
def checkedWriteValue (board : Board) (address : Word) (count : Nat) (value : Word) :
    Checked Board := do
  let bytes ← Word.checkedSplit value 0 count
  board.checkedWriteBytes address bytes

theorem checkedReadValue_eq_ok (h : board.Countable) (address : Word) {count : Nat} (hcount : count ≤ 4) :
    board.checkedReadValue address count = .ok (board.readValue address count) := by
  have hlength : (board.readBytes address count).1.length ≤ 4 := by
    rwa [length_readBytes]
  rw [checkedReadValue, checkedReadBytes_eq_ok h, Checked.ok_bind, readValue]
  dsimp only
  rw [Word.checkedJoin_zero hlength]
  rfl

theorem checkedWriteValue_eq_ok (h : board.Countable) (address : Word) {count : Nat}
    (hcount : count ≤ 4) (value : Word) : board.checkedWriteValue address count value =
      .ok (board.writeValue address count value) := by
  rw [checkedWriteValue, Word.checkedSplit_zero value hcount, Checked.ok_bind,
    checkedWriteBytes_eq_ok h, writeValue]

/-! ## Interrupt requests -/

/-- Take the next interrupt request, which lowers the count of requests that wait. -/
def checkedTakeInterrupt (board : Board) : Checked (Option Byte × Board) :=
  match board.requestingIndex? with
  | none => return (none, board)
  | some id =>
      match board.device? id with
      | none => return (board.requestedLine?, board)
      | some device => do
          let after ← device.checkedAcknowledge
          return (board.requestedLine?, board.modifyDevice id fun _ => after)

theorem checkedTakeInterrupt_eq_ok (board : Board) :
    board.checkedTakeInterrupt = .ok board.takeInterrupt := by
  unfold checkedTakeInterrupt takeInterrupt
  cases hindex : board.requestingIndex? with
  | none => rfl
  | some id =>
      obtain ⟨⟨window, device⟩, hbinding, _⟩ := findIdx?_eq_some_iff_getElem?.mp hindex
      dsimp only
      rw [device?_of_getElem? hbinding]
      have hmodify : (board.modifyDevice id fun _ => device.acknowledge) =
          board.modifyDevice id Device.acknowledge := modifyDevice_congr hbinding rfl
      dsimp only
      rw [Device.checkedAcknowledge_eq_ok, Checked.ok_bind, hmodify]
      rfl

end Board

end TinyComputer
