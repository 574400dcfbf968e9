import TinyComputer.Proofs.CheckedSteps

/-!
# No access traps

Boards are reached from the empty one by attaching devices, by steps, by accesses, and by what the host
does to devices. The checks that storage devices rely on are made when a device is made: it is refused if
it has more than four units, and no medium has more bytes than a double word counts. Everything after that
keeps both, so no access and no step on a board that can be reached traps.
-/

namespace TinyComputer

/-! ## Devices that can be had -/

/-- Devices that were made, and perhaps used by the host before they were attached. -/
inductive Device.Made : Device → Prop
  | memory (size : Word) : Made (.memory (.zeros size.toNat))
  | registerBank : Made .registerBank
  | keyboard : Made (.keyboard {})
  /-- Media have as many bytes as a double word can count. -/
  | storage {units : List StorageUnit} {made : Storage} : Storage.ofUnits units = .ok made →
      (∀ unit ∈ units, unit.size < 2 ^ 64) → Made (.storage made)
  | read {device : Device} (offset : Word) : Made device → Made (device.afterRead offset)
  | write {device : Device} (offset : Word) (value : Byte) : Made device →
      Made (device.write offset value)
  | connect {device : Device} (line : Byte) : Made device → Made (device.connect line)
  | raise {device : Device} (status : Byte) : Made device → Made (device.raise status)
  | acknowledge {device : Device} : Made device → Made device.acknowledge
  | reset {device : Device} : Made device → Made device.reset
  | addEvent {before after : Keyboard} {event : KeyEvent} : Made (.keyboard before) →
      before.addEvent event = .ok after → Made (.keyboard after)

namespace Device

variable {device : Device}

theorem blank_afterRead (offset : Word) (device : Device) :
    (device.afterRead offset).blank = device.blank := by
  cases device with
  | keyboard k =>
      apply blank_keyboard_of_line_eq
      unfold Keyboard.afterRead
      split <;> rfl
  | _ => rfl

@[simp] theorem units_connect (line : Byte) (device : Device) :
    (device.connect line).units = device.units := by
  cases device <;> rfl

theorem countable_of_blank_eq {before after : Device} (h : StorageUnit.Countable before.units)
    (hblank : after.blank = before.blank) : StorageUnit.Countable after.units := by
  apply h.of_map_blank_eq
  rw [← units_blank, ← units_blank, hblank]

/-- What is checked when a storage device is made holds of every device that was made. -/
theorem Made.countable (h : device.Made) : StorageUnit.Countable device.units := by
  induction h with
  | memory | registerBank | keyboard => exact ⟨Nat.zero_le _, by simp [units]⟩
  | storage hmade hsize =>
      unfold Storage.ofUnits at hmade
      split at hmade
      next hfew =>
        obtain rfl := Except.ok.inj hmade
        exact ⟨hfew, hsize⟩
      next => contradiction
  | read offset _ ih => exact countable_of_blank_eq ih (blank_afterRead offset _)
  | write offset value _ ih => exact countable_of_blank_eq ih (blank_write offset value _)
  | connect line _ ih => rwa [units_connect]
  | raise status _ ih => exact countable_of_blank_eq ih (blank_raise status _)
  | acknowledge _ ih => exact countable_of_blank_eq ih (blank_acknowledge _)
  | reset _ ih => exact countable_of_blank_eq ih (blank_reset _)
  | addEvent _ hadd ih => exact countable_of_blank_eq ih (blank_addEvent hadd)

end Device

/-! ## Boards that can be reached -/

namespace Board

variable {board after : Board} {device : Device} {devices : List Device}

/-- Boards that are put together from devices that can be had, and are then used by programs and by the
host in any way. The host also reaches devices apart from their windows, at any offset. -/
inductive Reachable : Board → Prop
  | empty (config : Config) : Reachable (empty config)
  | attach {board : Board} {device : Device} (window : Window) : Reachable board → device.Made →
      Reachable (board.attach device window).2
  | addDevice {board : Board} {device : Device} : Reachable board → device.Made →
      Reachable (board.addDevice device).2
  | perform {board : Board} (activity : Activity) : Reachable board →
      Reachable (board.perform activity)
  | step {board : Board} : Reachable board → Reachable board.step.2
  | readDevice {board : Board} (id : Nat) (offset : Word) : Reachable board →
      Reachable (board.modifyDevice id (Device.afterRead offset))
  | writeDevice {board : Board} (id : Nat) (offset : Word) (value : Byte) : Reachable board →
      Reachable (board.modifyDevice id (Device.write offset value))

theorem countable_empty (config : Config) : (empty config).Countable := by
  intro id
  exact ⟨by simp [units, device?, empty], by simp [units, device?, empty]⟩

theorem Countable.bind (h : board.Countable) (hdevice : StorageUnit.Countable device.units)
    (window : Window) : (board.bind device window).Countable := by
  intro id
  have hid := h id
  rw [units, device?] at hid ⊢
  rw [bindings_bind, Array.getElem?_push]
  split
  · simpa using hdevice
  · exact hid

theorem Countable.attach (h : board.Countable) (hdevice : StorageUnit.Countable device.units)
    (window : Window) : (board.attach device window).2.Countable := by
  rcases board.attach_cases device window with ⟨_, hattach⟩ | ⟨_, _, hattach⟩
  · rw [hattach]
    exact h.bind hdevice window
  · rw [hattach]
    exact h

theorem Countable.addDevice (h : board.Countable) (hdevice : StorageUnit.Countable device.units) :
    (board.addDevice device).2.Countable := by
  unfold Board.addDevice
  split
  next => exact h
  next window next _ =>
    -- The slot counter moves on first, which no device notices.
    have hmoved : Countable { board with nextSlot := next } := h
    have hattached := hmoved.attach hdevice window
    split
    next heq => rwa [heq] at hattached
    next heq => rwa [heq] at hattached

/-- What the accesses rely on holds of every board that can be reached. -/
theorem Reachable.countable (h : board.Reachable) : board.Countable := by
  induction h with
  | empty config => exact countable_empty config
  | attach window _ hmade ih => exact ih.attach hmade.countable window
  | addDevice _ hmade ih => exact ih.addDevice hmade.countable
  | perform activity _ ih => exact ih.of_blank_eq (blank_perform _ activity)
  | step _ ih => exact countable_kept.step ih
  | readDevice id offset _ ih =>
      exact ih.of_blank_eq (blank_modifyDevice fun device _ => device.blank_afterRead offset)
  | writeDevice id offset value _ ih =>
      exact ih.of_blank_eq (blank_modifyDevice fun device _ => device.blank_write offset value)

theorem Reachable.addDevices (h : board.Reachable) (hmade : ∀ device ∈ devices, device.Made)
    (hadd : board.addDevices devices = .ok after) : after.Reachable := by
  induction devices generalizing board with
  | nil =>
      obtain rfl : board = after := Except.ok.inj hadd
      exact h
  | cons device rest ih =>
      have hadded := h.addDevice (hmade device List.mem_cons_self)
      unfold Board.addDevices at hadd
      split at hadd
      next => contradiction
      next answer added heq =>
        rw [heq] at hadded
        exact ih hadded (fun device hmem => hmade device (List.mem_cons_of_mem _ hmem)) hadd

end Board

namespace Machine

variable {config : Config} {peripherals : List Device} {machine built : Machine}

theorem reachable_of_build (hmade : ∀ device ∈ peripherals, device.Made)
    (h : Machine.build config peripherals = .ok built) : built.board.Reachable := by
  have hram := (Board.Reachable.empty config).attach ⟨0, config.ramSize⟩ (.memory config.ramSize)
  unfold Machine.build at h
  simp only at h
  split at h
  next => contradiction
  next answer board hattach =>
    rw [hattach] at hram
    split at h
    next => contradiction
    next after hadd =>
      obtain rfl := Except.ok.inj h
      exact hram.addDevices (List.forall_mem_cons.mpr ⟨.registerBank, hmade⟩) hadd

theorem reachable_runUntil (stop : Word → Bool) (limit : Nat) (h : machine.board.Reachable) :
    (machine.runUntil stop limit).2.board.Reachable :=
  runUntil_kept (P := fun machine => machine.board.Reachable) Board.Reachable.step stop limit h

theorem reachable_perform (action : Action) (h : machine.board.Reachable) :
    (machine.perform action).board.Reachable := by
  cases action with
  | step => exact h.step
  | run stop limit => exact reachable_runUntil stop limit h
  | board activity => exact h.perform activity

/-- The boards of machines can be reached, whatever is done with the machines. -/
theorem reachable_performAll (actions : List Action) (h : machine.board.Reachable) :
    (machine.performAll actions).board.Reachable := by
  induction actions generalizing machine with
  | nil => exact h
  | cons action rest ih => exact ih (reachable_perform action h)

end Machine

/-! ## No access traps -/

namespace Board

variable {board : Board}

/-- On a board every access and every step ends without a trap, and ends as it does without the checks.
This goes for devices as well, at offsets that may lie outside of their windows; and the transfers that a
storage device carries out stay within the buffer, the unit and the double words. -/
structure TrapFree (board : Board) : Prop where
  read : ∀ address, board.checkedRead address = .ok (board.read address)
  write : ∀ address value, board.checkedWrite address value = .ok (board.write address value)
  readBytes : ∀ address count,
    board.checkedReadBytes address count = .ok (board.readBytes address count)
  writeBytes : ∀ address bytes,
    board.checkedWriteBytes address bytes = .ok (board.writeBytes address bytes)
  readValue : ∀ address count, count ≤ 4 →
    board.checkedReadValue address count = .ok (board.readValue address count)
  writeValue : ∀ address count value, count ≤ 4 →
    board.checkedWriteValue address count value = .ok (board.writeValue address count value)
  takeInterrupt : board.checkedTakeInterrupt = .ok board.takeInterrupt
  fetch : ∀ address, board.checkedFetch address = .ok (board.fetch address)
  step : board.checkedStep = .ok board.step
  device_read : ∀ id device, board.device? id = some device → ∀ offset,
    device.checkedRead board.registers offset =
      .ok (device.read board.registers offset, device.afterRead offset)
  device_write : ∀ id device, board.device? id = some device → ∀ offset value,
    device.checkedWrite offset value = .ok (device.write offset value)
  bank_write : ∀ offset value, RegisterBank.checkedWrite board.registers offset value =
    .ok (RegisterBank.write board.registers offset value)
  transfer_bounds : ∀ id storage, board.device? id = some (.storage storage) →
    storage.units.length ≤ 4 ∧ ∀ unit ∈ storage.units, storage.validRange unit.size = true →
      storage.count ≤ 512 ∧ storage.position + storage.count ≤ unit.size ∧
        storage.position + storage.count < 2 ^ 64

theorem Countable.trapFree (h : board.Countable) : board.TrapFree where
  read := checkedRead_eq_ok h
  write := checkedWrite_eq_ok h
  readBytes := checkedReadBytes_eq_ok h
  writeBytes := checkedWriteBytes_eq_ok h
  readValue address _ hcount := checkedReadValue_eq_ok h address hcount
  writeValue address _ value hcount := checkedWriteValue_eq_ok h address hcount value
  takeInterrupt := board.checkedTakeInterrupt_eq_ok
  fetch := checkedFetch_eq_ok h
  step := checkedStep_eq_ok h
  device_read id device hdevice offset := by
    have hunits := h id
    rw [units, hdevice] at hunits
    exact Device.checkedRead_eq_ok hunits _ offset
  device_write id device hdevice offset value := by
    have hunits := h id
    rw [units, hdevice] at hunits
    exact Device.checkedWrite_eq_ok hunits offset value
  bank_write := RegisterBank.checkedWrite_eq_ok board.registers
  transfer_bounds id storage hdevice := by
    have hunits := h id
    rw [units, hdevice] at hunits
    refine ⟨hunits.1, fun unit hmem hvalid => ?_⟩
    obtain ⟨_, _, hcount, hbound⟩ := Storage.validRange_iff.mp hvalid
    exact ⟨hcount, hbound, Nat.lt_of_le_of_lt hbound (hunits.2 unit hmem)⟩

/-- No access leaves its array, and no calculation on the way overflows. On every board that can be
reached, with any program in its memory, reads and writes of any address and steps end without a trap, and
so do reads and writes of each device at any offset. Offsets of the register bank fall on one of the
sixteen registers and on one of its four lanes, or on none; headers are looked up without going below the
start of the name; and the arithmetic unit applies every operation to any two words. -/
theorem accesses_never_trap :
    (∀ board : Board, board.Reachable → board.TrapFree) ∧
    (∀ config peripherals built, (∀ device ∈ peripherals, Device.Made device) →
      Machine.build config peripherals = .ok built →
      ∀ actions, (built.performAll actions).board.TrapFree) ∧
    (∀ offset, RegisterBank.locate? offset = .ok none ∨
      ∃ index lane, RegisterBank.locate? offset = .ok (some (index, lane)) ∧ index < 16 ∧
        lane.toNat < 4) ∧
    (∀ kind line offset, ∃ byte, Header.checkedByte kind line offset = .ok byte) ∧
    (∀ (op : ArithmeticOp) a b, op.checkedResult? a b = .ok (op.result? a b)) := by
  refine ⟨fun board h => h.countable.trapFree, ?_, RegisterBank.locate?_cases,
    Header.exists_checkedByte, ArithmeticOp.checkedResult?_eq_ok⟩
  intro config peripherals built hmade hbuild actions
  have hbuilt := Machine.reachable_of_build hmade hbuild
  exact (Machine.reachable_performAll actions hbuilt).countable.trapFree

/-- Four bytes are asked for at the last aligned position of all, where the range would end beyond the
double words. The transfer is refused as a bad address, and nothing traps. -/
theorem accesses_never_trap_at_last_position :
    let config : Config := { ramSize := 0x40, vectorBase := 0x20, stackTop := 0x40 }
    let peripherals : List Device := [.keyboard {}, .storage { units := [.zeros 4] }]
    let actions : List Machine.Action :=
      .board (.write 0xF0004018 0xFC) ::
        [0xF0004019, 0xF000401A, 0xF000401B, 0xF000401C, 0xF000401D, 0xF000401E, 0xF000401F].map
          (fun address => .board (.write address 0xFF)) ++
        [.board (.write 0xF0004020 4), .board (.write 0xF0004013 1), .run (· == 0x20) 2]
    ∃ built, Machine.build config peripherals = .ok built ∧
      (built.performAll actions).board.TrapFree ∧
      ((built.performAll actions).board.read 0xF0004011).1 = StorageStatus.addressError.code := by
  intro config peripherals actions
  have hrefused : (Machine.build config peripherals).toOption.any (fun built =>
      ((built.performAll actions).board.read 0xF0004011).1 = StorageStatus.addressError.code) := by
    decide +kernel
  have hmade : ∀ device ∈ peripherals, device.Made := by
    intro device hmem
    rcases List.mem_pair.mp hmem with rfl | rfl
    · exact .keyboard
    · exact Device.Made.storage (show Storage.ofUnits [.zeros 4] = .ok _ from rfl) (by decide)
  cases hbuild : Machine.build config peripherals with
  | error error =>
      rw [hbuild] at hrefused
      contradiction
  | ok built =>
      rw [hbuild] at hrefused
      simp only [Except.toOption, Option.any_some, decide_eq_true_eq] at hrefused
      exact ⟨built, rfl, accesses_never_trap.2.1 config peripherals built hmade hbuild actions, hrefused⟩

end Board

end TinyComputer
