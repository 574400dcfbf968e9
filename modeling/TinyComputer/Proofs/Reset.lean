import TinyComputer.Proofs.KeyboardQueue
import TinyComputer.Proofs.RequestAccounts
import TinyComputer.Proofs.StepInvariants
import TinyComputer.Proofs.StorageTransfers

/-!
# What a reset leaves

A reset makes a computer as new, except for what is stored in the units of its storage devices. Whatever
was done before, windows, interrupt lines and the sizes of memories and of units in memory are as they
were, and a reset keeps nothing else. So the state after it depends on the past through the units only.
-/

namespace TinyComputer

namespace StorageUnit

/-- The unit with every byte that it keeps replaced by zero. Of a medium of the host nothing is certain
but that it is one. -/
def blank : StorageUnit → StorageUnit
  | memory bytes => zeros bytes.size
  | patterned size => patterned size
  | defective size => defective size
  | hosted _ => hosted .empty

@[simp] theorem blank_asked (transfer : Transfer) (unit : StorageUnit) :
    (unit.asked transfer).blank = unit.blank := by
  cases unit <;> rfl

@[simp] theorem blank_store (position : Nat) (data : List Byte) (unit : StorageUnit) :
    (unit.store position data).blank = unit.blank := by
  cases unit with
  | memory bytes => simp only [store, blank, size_overwrite]
  | _ => rfl

end StorageUnit

namespace Storage

/-- Units before and after agree but for their bytes, and the interrupt line stays. -/
def KeepsUnits (before after : Storage) : Prop :=
  after.units.map StorageUnit.blank = before.units.map StorageUnit.blank ∧ after.line = before.line

variable (storage : Storage)

theorem map_blank_modify {units : List StorageUnit} {selected : Nat} {f : StorageUnit → StorageUnit}
    (hf : ∀ unit, (f unit).blank = unit.blank) :
    (units.modify selected f).map StorageUnit.blank = units.map StorageUnit.blank := by
  apply List.ext_getElem?
  intro i
  rw [List.getElem?_map, List.getElem?_map, List.getElem?_modify]
  cases units[i]? with
  | none => simp
  | some unit =>
      split
      next => exact congrArg some (hf unit)
      next => rfl

theorem UnitsAfter.map_blank_eq {units after : List StorageUnit} {selected : Nat}
    (h : UnitsAfter units selected after) :
    after.map StorageUnit.blank = units.map StorageUnit.blank := by
  cases h with
  | unchanged => rfl
  | asked transfer => exact map_blank_modify (StorageUnit.blank_asked transfer)
  | stored position data => exact map_blank_modify (StorageUnit.blank_store position data)

theorem keepsUnits_write (offset : Word) (value : Byte) :
    storage.KeepsUnits (storage.write offset value) :=
  ⟨(storage.accessed_write offset value).units.map_blank_eq,
    (storage.accessed_write offset value).line_eq⟩

end Storage

/-! ## Devices -/

namespace Device

/-- The units behind a device. -/
def units : Device → List StorageUnit
  | storage s => s.units
  | _ => []

def withUnits (units : List StorageUnit) : Device → Device
  | storage s => storage { s with units }
  | device => device

/-- The device as new, with the given units behind it and the interrupt line that it was given. -/
def asNew (units : List StorageUnit) : Device → Device
  | memory m => memory (.zeros m.size)
  | registerBank => registerBank
  | storage s => storage { units, line := s.line }
  | keyboard k => keyboard { line := k.line }

/-- Whether nothing was done with a device yet. -/
def New (device : Device) : Prop :=
  device.asNew device.units = device

noncomputable instance (device : Device) : Decidable device.New :=
  inferInstanceAs (Decidable (_ = _))

/-- What no use of a device changes: it as new, with units that keep no bytes. -/
def blank (device : Device) : Device :=
  device.asNew (device.units.map StorageUnit.blank)

theorem reset_eq (device : Device) : device.reset = device.asNew device.units := by
  cases device <;> rfl

@[simp] theorem asNew_asNew (first second : List StorageUnit) (device : Device) :
    (device.asNew first).asNew second = device.asNew second := by
  cases device with
  | memory m => simp only [asNew, Memory.size_zeros]
  | _ => rfl

@[simp] theorem kind_asNew (units : List StorageUnit) (device : Device) :
    (device.asNew units).kind = device.kind := by
  cases device <;> rfl

@[simp] theorem line?_asNew (units : List StorageUnit) (device : Device) :
    (device.asNew units).line? = device.line? := by
  cases device <;> rfl

theorem units_blank (device : Device) : device.blank.units = device.units.map StorageUnit.blank := by
  cases device <;> rfl

theorem units_reset (device : Device) : device.reset.units = device.units := by
  cases device <;> rfl

theorem New.asNew_eq {device : Device} (h : device.New) (units : List StorageUnit) :
    device.asNew units = device.withUnits units := by
  cases device with
  | storage s =>
      have hnew : Storage.mk s.units .poll _ _ _ _ s.line _ = s := Device.storage.inj h
      rw [asNew, withUnits, ← hnew]
  | _ => exact h

theorem New.connect {device : Device} (h : device.New) (line : Byte) : (device.connect line).New := by
  cases device with
  | storage s =>
      have hnew : Storage.mk s.units .poll _ _ _ _ s.line _ = s := Device.storage.inj h
      rw [Device.connect, ← hnew]
      rfl
  | keyboard k =>
      have hnew : Keyboard.mk _ _ _ k.line _ = k := Device.keyboard.inj h
      rw [Device.connect, ← hnew]
      rfl
  | _ => exact h

/-! ### What a use leaves of a device -/

theorem blank_storage_of_keepsUnits {before after : Storage} (h : before.KeepsUnits after) :
    (storage after).blank = (storage before).blank := by
  simp only [blank, asNew, units, h.1, h.2]

theorem blank_keyboard_of_line_eq {before after : Keyboard} (h : after.line = before.line) :
    (keyboard after).blank = (keyboard before).blank := by
  simp only [blank, asNew, h]

theorem blank_write (offset : Word) (value : Byte) (device : Device) :
    (device.write offset value).blank = device.blank := by
  cases device with
  | memory m => simp only [blank, write, asNew, Memory.size_write]
  | registerBank => rfl
  | storage s => exact blank_storage_of_keepsUnits (s.keepsUnits_write offset value)
  | keyboard k =>
      apply blank_keyboard_of_line_eq
      unfold Keyboard.write
      split <;> rfl

theorem blank_acknowledge (device : Device) : device.acknowledge.blank = device.blank := by
  cases device <;> rfl

theorem blank_raise (status : Byte) (device : Device) : (device.raise status).blank = device.blank := by
  cases device with
  | keyboard k =>
      apply blank_keyboard_of_line_eq
      unfold Keyboard.raise
      split <;> rfl
  | _ => rfl

theorem blank_addEvent {before after : Keyboard} {event : KeyEvent}
    (h : before.addEvent event = .ok after) : (keyboard after).blank = (keyboard before).blank := by
  obtain ⟨word, _, _, rfl⟩ := Keyboard.addEvent_eq_ok_iff.mp h
  exact blank_raise 0 (keyboard { before with queue := before.queue ++ [word] })

theorem blank_reset (device : Device) : device.reset.blank = device.blank := by
  rw [blank, units_reset, reset_eq, asNew_asNew, blank]

end Device

/-! ## Boards -/

namespace Binding

variable {bindings : Array Binding}

theorem map_mapDevice_eq (bindings : Array Binding) (f : Device → Device) :
    bindings.map (mapDevice f) = bindings.mapIdx fun _ => mapDevice f := by
  apply Array.ext_getElem?
  intro id
  rw [Array.getElem?_map, Array.getElem?_mapIdx]

/-- Changes of devices are the same if they do the same to each device that is there. -/
theorem mapIdx_mapDevice_congr {f g : Nat → Device → Device}
    (h : ∀ (id : Nat) binding, bindings[id]? = some binding →
      f id binding.device = g id binding.device) :
    bindings.mapIdx (fun id => mapDevice (f id)) = bindings.mapIdx fun id => mapDevice (g id) := by
  apply Array.ext_getElem?
  intro id
  rw [Array.getElem?_mapIdx, Array.getElem?_mapIdx]
  cases hbinding : bindings[id]? with
  | none => rfl
  | some binding =>
      rw [Option.map_some, Option.map_some, mapDevice, mapDevice, h id binding hbinding]

end Binding

namespace Board

/-- The units behind the device with a given place. -/
def units (board : Board) (id : Nat) : List StorageUnit :=
  ((board.device? id).map Device.units).getD []

def withUnits (board : Board) (units : Nat → List StorageUnit) : Board :=
  { board with
    bindings := board.bindings.mapIdx fun id => Binding.mapDevice (Device.withUnits (units id)) }

/-- The board as new, with the given units behind its devices. -/
def asNew (board : Board) (units : Nat → List StorageUnit) : Board :=
  { board with
    registers := .initial board.config.stackTop
    bindings := board.bindings.mapIdx fun id => Binding.mapDevice (Device.asNew (units id)) }

/-- What no use of a board changes: it as new, with units that keep no bytes. -/
def blank (board : Board) : Board :=
  { board with
    registers := .initial board.config.stackTop
    bindings := board.bindings.map (Binding.mapDevice Device.blank) }

/-- Whether a register bank is attached, through which a reset reaches the registers. -/
def HasBank (board : Board) : Prop :=
  (board.bindings.any fun binding => binding.device.kind == .processor) = true

variable {board before after : Board}

theorem getElem?_asNew (board : Board) (units : Nat → List StorageUnit) (id : Nat) :
    (board.asNew units).bindings[id]? =
      board.bindings[id]?.map (Binding.mapDevice (Device.asNew (units id))) :=
  Array.getElem?_mapIdx

theorem getElem?_blank (board : Board) (id : Nat) :
    board.blank.bindings[id]? = board.bindings[id]?.map (Binding.mapDevice Device.blank) :=
  Array.getElem?_map

theorem units_of_binding {id : Nat} {binding : Binding} (h : board.bindings[id]? = some binding) :
    board.units id = binding.device.units := by
  rw [units, device?_of_getElem? h]
  rfl

theorem units_blank (board : Board) (id : Nat) :
    board.blank.units id = (board.units id).map StorageUnit.blank := by
  rw [units, units, device?, device?, getElem?_blank]
  cases board.bindings[id]? with
  | none => rfl
  | some binding => exact binding.device.units_blank

theorem units_reset (board : Board) : board.reset.units = board.units := by
  funext id
  rw [units, units, device?, device?, reset, Array.getElem?_map]
  cases board.bindings[id]? with
  | none => rfl
  | some binding => exact binding.device.units_reset

/-- A reset makes a board as new and keeps its units. -/
theorem reset_eq (h : board.HasBank) : board.reset = board.asNew board.units := by
  have hbindings : board.bindings.map (Binding.mapDevice Device.reset) =
      board.bindings.mapIdx fun id => Binding.mapDevice (Device.asNew (board.units id)) := by
    rw [Binding.map_mapDevice_eq]
    apply Binding.mapIdx_mapDevice_congr
    intro id binding hbinding
    rw [units_of_binding hbinding, Device.reset_eq]
  unfold HasBank at h
  rw [reset, asNew, hbindings, if_pos h]

@[simp] theorem asNew_asNew (board : Board) (first second : Nat → List StorageUnit) :
    (board.asNew first).asNew second = board.asNew second := by
  have hbindings : (board.asNew first).bindings.mapIdx
        (fun id => Binding.mapDevice (Device.asNew (second id))) =
      board.bindings.mapIdx fun id => Binding.mapDevice (Device.asNew (second id)) := by
    apply Array.ext_getElem?
    intro id
    rw [Array.getElem?_mapIdx, Array.getElem?_mapIdx, getElem?_asNew, Option.map_map]
    simp only [Function.comp_def, Binding.mapDevice, Device.asNew_asNew]
    rfl
  rw [asNew, hbindings]
  rfl

@[simp] theorem windows_asNew (board : Board) (units : Nat → List StorageUnit) :
    (board.asNew units).windows = board.windows := by
  apply Array.ext_getElem?
  intro id
  rw [getElem?_windows, getElem?_windows, window?, window?, getElem?_asNew, Option.map_map]
  rfl

theorem line?_asNew (board : Board) (units : Nat → List StorageUnit) (id : Nat) :
    ((board.asNew units).device? id).bind Device.line? = (board.device? id).bind Device.line? := by
  rw [device?, device?, getElem?_asNew]
  cases board.bindings[id]? with
  | none => rfl
  | some binding => exact binding.device.line?_asNew _

theorem blank_eq_asNew (board : Board) :
    board.blank = board.asNew fun id => (board.units id).map StorageUnit.blank := by
  have hbindings : board.bindings.map (Binding.mapDevice Device.blank) = board.bindings.mapIdx
      fun id => Binding.mapDevice (Device.asNew ((board.units id).map StorageUnit.blank)) := by
    rw [Binding.map_mapDevice_eq]
    apply Binding.mapIdx_mapDevice_congr
    intro id binding hbinding
    rw [units_of_binding hbinding, Device.blank]
  rw [blank, asNew, hbindings]

theorem asNew_blank (board : Board) (units : Nat → List StorageUnit) :
    board.blank.asNew units = board.asNew units := by
  rw [blank_eq_asNew, asNew_asNew]

theorem hasBank_blank (board : Board) : board.blank.HasBank ↔ board.HasBank := by
  rw [HasBank, HasBank, blank, Array.any_map]
  simp only [Function.comp_def, Binding.mapDevice, Device.blank, Device.kind_asNew]

/-- Boards with the same blank are reset to the same board, except for their units. -/
theorem reset_eq_of_blank_eq (h : after.blank = before.blank) (hbank : before.HasBank) :
    after.reset = before.asNew after.units := by
  have hbank' : after.HasBank := by rwa [← hasBank_blank, h, hasBank_blank]
  rw [reset_eq hbank', ← asNew_blank, h, asNew_blank]

theorem map_blank_units_eq (h : after.blank = before.blank) (id : Nat) :
    (after.units id).map StorageUnit.blank = (before.units id).map StorageUnit.blank := by
  rw [← units_blank, h, units_blank]

/-! ### What is done to a board -/

theorem blank_congr (hconfig : after.config = before.config) (hslot : after.nextSlot = before.nextSlot)
    (hline : after.nextLine = before.nextLine)
    (hbinding : ∀ id : Nat, after.bindings[id]?.map (Binding.mapDevice Device.blank) =
      before.bindings[id]?.map (Binding.mapDevice Device.blank)) : after.blank = before.blank := by
  have hbindings : after.bindings.map (Binding.mapDevice Device.blank) =
      before.bindings.map (Binding.mapDevice Device.blank) := by
    apply Array.ext_getElem?
    intro id
    rw [Array.getElem?_map, Array.getElem?_map, hbinding id]
  rw [blank, blank, hbindings, hconfig, hslot, hline]

theorem blank_modifyDevice {id : Nat} {f : Device → Device}
    (h : ∀ device, board.device? id = some device → (f device).blank = device.blank) :
    (board.modifyDevice id f).blank = board.blank := by
  refine blank_congr rfl rfl rfl fun place => ?_
  rw [getElem?_modifyDevice]
  split
  next heq =>
    subst heq
    cases hbinding : board.bindings[id]? with
    | none => rfl
    | some binding =>
        simp only [Option.map_some, Binding.mapDevice, h _ (device?_of_getElem? hbinding)]
  next => rfl

theorem blank_setRegister (board : Board) (r : Register) (value : Word) :
    (board.setRegister r value).blank = board.blank := rfl

theorem blank_touch (board : Board) (address : Word) : (board.touch address).blank = board.blank := by
  rcases board.touch_cases address with hsame | ⟨id, window, keyboard, hbinding, _, _, htouch⟩
  · rw [hsame]
  · rw [htouch]
    apply blank_modifyDevice
    intro device hdevice
    obtain rfl := Option.some.inj ((device?_of_getElem? hbinding).symm.trans hdevice)
    exact Device.blank_keyboard_of_line_eq rfl

theorem blank_write (board : Board) (address : Word) (value : Byte) :
    (board.write address value).blank = board.blank := by
  rcases board.write_cases address value with
    ⟨_, hsame⟩ | ⟨_, _, _, _, hwrite⟩ | ⟨id, window, _, _, _, hwrite⟩
  · rw [hsame]
  · rw [hwrite]
    rfl
  · rw [hwrite]
    exact blank_modifyDevice fun device _ => device.blank_write _ value

theorem blank_takeInterrupt (board : Board) : board.takeInterrupt.2.blank = board.blank := by
  rcases board.takeInterrupt_cases with ⟨_, htake⟩ | ⟨place, line, _, _, htake⟩
  · rw [htake]
  · rw [htake]
    exact blank_modifyDevice fun device _ => device.blank_acknowledge

theorem blank_addKeyEvent (board : Board) (id : Nat) (event : KeyEvent) :
    (board.addKeyEvent id event).2.blank = board.blank := by
  unfold addKeyEvent
  split
  next keyboard hkeyboard =>
    split
    next => rfl
    next after hadd =>
      apply blank_modifyDevice
      intro device hdevice
      obtain rfl := Option.some.inj (hkeyboard.symm.trans hdevice)
      exact Device.blank_addEvent hadd
  next => rfl

theorem blank_takeRequest (board : Board) (id : Nat) :
    (board.takeRequest id).2.blank = board.blank := by
  unfold takeRequest
  split
  next => exact blank_modifyDevice fun device _ => device.blank_acknowledge
  next => rfl

theorem blank_reset (board : Board) : board.reset.blank = board.blank := by
  refine blank_congr rfl rfl rfl fun id => ?_
  rw [reset, Array.getElem?_map, Option.map_map]
  simp only [Function.comp_def, Binding.mapDevice, Device.blank_reset]
  rfl

/-- Single accesses keep the blank, so steps do. -/
theorem blank_kept (start : Board) : KeptByAccesses fun board => board.blank = start.blank where
  setRegister r value h := (blank_setRegister _ r value).trans h
  touch address h := (blank_touch _ address).trans h
  write address value h := (blank_write _ address value).trans h
  takeInterrupt h := (blank_takeInterrupt _).trans h

theorem blank_perform (board : Board) (activity : Activity) :
    (board.perform activity).blank = board.blank := by
  cases activity with
  | addKeyEvent place event => exact board.blank_addKeyEvent place event
  | raise place status => exact blank_modifyDevice fun device _ => device.blank_raise status
  | takeRequest place => exact board.blank_takeRequest place
  | takeInterrupt => exact board.blank_takeInterrupt
  | serviceInterrupt => exact (blank_kept board).serviceInterrupt rfl
  | read address => exact board.blank_touch address
  | write address value => exact board.blank_write address value
  | setRegister r value => rfl
  | reset => exact board.blank_reset

/-! ### Boards that were just put together -/

/-- On a board with which nothing was done, being as new is having other units. -/
theorem asNew_eq_withUnits (hregisters : board.registers = .initial board.config.stackTop)
    (hnew : ∀ binding ∈ board.bindings, binding.device.New) (units : Nat → List StorageUnit) :
    board.asNew units = board.withUnits units := by
  have hbindings : board.bindings.mapIdx
        (fun id => Binding.mapDevice (Device.asNew (units id))) =
      board.bindings.mapIdx fun id => Binding.mapDevice (Device.withUnits (units id)) := by
    apply Binding.mapIdx_mapDevice_congr
    intro id binding hbinding
    exact (hnew binding (Array.mem_of_getElem? hbinding)).asNew_eq (units id)
  rw [asNew, withUnits, hbindings, ← hregisters]

theorem addDevice_eq_bind {device : Device} {answer : Nat × Word}
    (h : board.addDevice device = (.ok answer, after)) :
    ∃ slot window, after = ({ board with nextSlot := slot } : Board).bind device window := by
  unfold addDevice at h
  split at h
  next => exact absurd (Prod.mk.inj h).1 (by simp)
  next window slot _ =>
    rcases ({ board with nextSlot := slot } : Board).attach_cases device window with
      ⟨_, hattach⟩ | ⟨_, error, hattach⟩
    · rw [hattach] at h
      exact ⟨slot, window, (Prod.mk.inj h).2.symm⟩
    · rw [hattach] at h
      exact absurd (Prod.mk.inj h).1 (by simp)

/-- What holds of a board and stays true when one of some devices joins holds after all of them were
added. -/
theorem addDevices_preserved {P : Board → Prop} {devices : List Device}
    (hslot : ∀ (board : Board) slot, P board → P { board with nextSlot := slot })
    (hbind : ∀ (board : Board) (window : Window), ∀ device ∈ devices, P board →
      P (board.bind device window))
    (hboard : P board) (h : board.addDevices devices = .ok after) : P after := by
  induction devices generalizing board with
  | nil =>
      obtain rfl : board = after := Except.ok.inj h
      exact hboard
  | cons device rest ih =>
      unfold addDevices at h
      split at h
      next => contradiction
      next answer added hadd =>
        obtain ⟨slot, window, rfl⟩ := addDevice_eq_bind hadd
        exact ih (fun board window device hmem => hbind board window device (List.mem_cons_of_mem _ hmem))
          (hbind _ window device List.mem_cons_self (hslot board slot hboard)) h

@[simp] theorem registers_bind (board : Board) (device : Device) (window : Window) :
    (board.bind device window).registers = board.registers := by
  unfold bind
  split <;> rfl

@[simp] theorem config_bind (board : Board) (device : Device) (window : Window) :
    (board.bind device window).config = board.config := by
  unfold bind
  split <;> rfl

theorem HasBank.bind (h : board.HasBank) (device : Device) (window : Window) :
    (board.bind device window).HasBank := by
  rw [HasBank, bindings_bind, Array.any_push, Bool.or_eq_true]
  exact .inl h

theorem hasBank_bind_registerBank (board : Board) (window : Window) :
    (board.bind .registerBank window).HasBank := by
  rw [HasBank, bindings_bind, Array.any_push, Bool.or_eq_true]
  exact .inr rfl

end Board

/-! ## Machines -/

namespace Machine

variable {config : Config} {peripherals : List Device} {built : Machine}

/-- A machine is built by adding the register bank and the peripherals to a board with RAM. -/
theorem addDevices_of_build (h : Machine.build config peripherals = .ok built) :
    ((Board.empty config).bind (.memory (.zeros config.ramSize.toNat)) ⟨0, config.ramSize⟩).addDevices
      (.registerBank :: peripherals) = .ok built.board := by
  unfold Machine.build at h
  simp only at h
  rcases (Board.empty config).attach_cases (.memory (.zeros config.ramSize.toNat))
    ⟨0, config.ramSize⟩ with ⟨_, hattach⟩ | ⟨_, error, hattach⟩
  · rw [hattach] at h
    simp only at h
    split at h
    next => contradiction
    next board hadd =>
      rw [hadd, ← Except.ok.inj h]
  · rw [hattach] at h
    contradiction

theorem registers_of_build (h : Machine.build config peripherals = .ok built) :
    built.board.config = config ∧ built.board.registers = .initial config.stackTop := by
  refine Board.addDevices_preserved (P := fun board =>
    board.config = config ∧ board.registers = .initial config.stackTop)
    (fun _ _ hboard => hboard) ?_ ?_ (addDevices_of_build h)
  · intro board window device _ hboard
    rwa [Board.config_bind, Board.registers_bind]
  · rw [Board.config_bind, Board.registers_bind]
    exact ⟨rfl, rfl⟩

theorem hasBank_of_build (h : Machine.build config peripherals = .ok built) :
    built.board.HasBank := by
  have hadd := addDevices_of_build h
  unfold Board.addDevices at hadd
  split at hadd
  next => contradiction
  next answer added hadded =>
    obtain ⟨slot, window, rfl⟩ := Board.addDevice_eq_bind hadded
    exact Board.addDevices_preserved (fun _ _ hboard => hboard)
      (fun _ window device _ hboard => hboard.bind device window)
      (Board.hasBank_bind_registerBank _ window) hadd

/-- The devices of a machine that was just built are new if its peripherals are. -/
theorem new_of_build (h : Machine.build config peripherals = .ok built)
    (hnew : ∀ device ∈ peripherals, device.New) :
    ∀ binding ∈ built.board.bindings, binding.device.New := by
  have hbank : ∀ device ∈ (Device.registerBank :: peripherals), device.New :=
    List.forall_mem_cons.mpr ⟨rfl, hnew⟩
  have hbind : ∀ (board : Board) (device : Device) (window : Window), device.New →
      (∀ binding ∈ board.bindings, binding.device.New) →
      ∀ binding ∈ (board.bind device window).bindings, binding.device.New := by
    intro board device window hdevice hboard binding hmem
    rw [Board.bindings_bind, Array.mem_push] at hmem
    rcases hmem with hmem | rfl
    · exact hboard binding hmem
    · exact hdevice.connect board.nextLine
  refine Board.addDevices_preserved (P := fun board => ∀ binding ∈ board.bindings, binding.device.New)
    (fun _ _ hboard => hboard) ?_ ?_ (addDevices_of_build h)
  · intro board window device hmem hboard
    exact hbind board device window (hbank device hmem) hboard
  · apply hbind
    · simp only [Device.New, Device.asNew, Memory.size_zeros]
    · simp [Board.empty]

/-! ### Histories -/

/-- What is done with a machine: it makes a step or a run, or something is done to its board. -/
inductive Action where
  | step
  | run (stop : Word → Bool) (limit : Nat)
  | board (activity : Board.Activity)

def perform (machine : Machine) : Action → Machine
  | .step => machine.step.2
  | .run stop limit => (machine.runUntil stop limit).2
  | .board activity => machine.mapBoard (·.perform activity)

def performAll (machine : Machine) (actions : List Action) : Machine :=
  actions.foldl perform machine

theorem performAll_append (machine : Machine) (first rest : List Action) :
    machine.performAll (first ++ rest) = (machine.performAll first).performAll rest :=
  List.foldl_append

theorem symbols_runUntil (stop : Word → Bool) (machine : Machine) (limit : Nat) :
    (machine.runUntil stop limit).2.symbols = machine.symbols :=
  runUntil_kept (P := fun reached => reached.symbols = machine.symbols) id stop limit rfl

/-- Machines that a reset cannot tell apart but by their units. -/
def SameBlank (before after : Machine) : Prop :=
  after.board.blank = before.board.blank ∧ after.symbols = before.symbols

theorem sameBlank_perform (machine : Machine) (action : Action) :
    machine.SameBlank (machine.perform action) := by
  cases action with
  | step => exact ⟨(Board.blank_kept machine.board).step rfl, rfl⟩
  | run stop limit =>
      exact ⟨(Board.blank_kept machine.board).runUntil stop limit rfl,
        symbols_runUntil stop machine limit⟩
  | board activity => exact ⟨machine.board.blank_perform activity, rfl⟩

theorem sameBlank_performAll (machine : Machine) (actions : List Action) :
    machine.SameBlank (machine.performAll actions) := by
  induction actions generalizing machine with
  | nil => exact ⟨rfl, rfl⟩
  | cons action rest ih =>
      obtain ⟨hfirst, hfirst'⟩ := machine.sameBlank_perform action
      obtain ⟨hrest, hrest'⟩ := ih (machine.perform action)
      exact ⟨hrest.trans hfirst, hrest'.trans hfirst'⟩

theorem SameBlank.reset_eq {before after : Machine} (h : before.SameBlank after)
    (hbank : before.board.HasBank) :
    after.reset = ⟨before.board.asNew after.board.units, before.symbols⟩ := by
  rw [← Board.reset_eq_of_blank_eq h.1 hbank, ← h.2]
  rfl

/-- A reset forgets what was done with a machine since it was built. Whatever it was, the machine is as
new after a reset: RAM is zero, registers are zero but for the stack pointer, keyboards and storage
devices are in their first state, and windows, interrupt lines and symbols are those of the machine that
was built. If its peripherals were new, it is that machine with other units; and units differ from those
it was built with in their bytes only, media of the host in what they answer. So histories that end with
the same units are followed by the same state, and a second reset changes nothing. -/
theorem reset_forgets_history (hbuild : Machine.build config peripherals = .ok built)
    (actions : List Action) :
    let reached := built.performAll actions
    reached.reset = ⟨built.board.asNew reached.board.units, built.symbols⟩ ∧
    reached.reset.board.registers = .initial config.stackTop ∧
    reached.reset.board.windows = built.board.windows ∧
    (∀ id, ((reached.reset.board.device? id).bind Device.line?) =
      (built.board.device? id).bind Device.line?) ∧
    ((∀ device ∈ peripherals, device.New) →
      reached.reset = ⟨built.board.withUnits reached.board.units, built.symbols⟩) ∧
    (∀ id, (reached.board.units id).map StorageUnit.blank =
      (built.board.units id).map StorageUnit.blank) ∧
    (∀ others, (built.performAll others).board.units = reached.board.units →
      (built.performAll others).reset = reached.reset) ∧
    reached.reset.reset = reached.reset := by
  intro reached
  have hbank := hasBank_of_build hbuild
  obtain ⟨hconfig, hregisters⟩ := registers_of_build hbuild
  have hreset : ∀ actions, (built.performAll actions).reset =
      ⟨built.board.asNew (built.performAll actions).board.units, built.symbols⟩ :=
    fun actions => (built.sameBlank_performAll actions).reset_eq hbank
  have hreached : reached.reset = ⟨built.board.asNew reached.board.units, built.symbols⟩ :=
    hreset actions
  refine ⟨hreached, ?_, ?_, ?_, ?_, ?_, ?_, ?_⟩
  · rw [hreached, ← hconfig]
    rfl
  · rw [hreached]
    exact Board.windows_asNew _ _
  · intro id
    rw [hreached]
    exact Board.line?_asNew _ _ id
  · intro hnew
    rw [hreached, Board.asNew_eq_withUnits (hconfig ▸ hregisters) (new_of_build hbuild hnew)]
  · exact Board.map_blank_units_eq (built.sameBlank_performAll actions).1
  · intro others hunits
    rw [hreset others, hunits, hreached]
  · have hunits : reached.reset.board.units = reached.board.units := reached.board.units_reset
    have hagain := hreset (actions ++ [.board .reset])
    rw [performAll_append] at hagain
    calc
      reached.reset.reset = ⟨built.board.asNew reached.reset.board.units, built.symbols⟩ := hagain
      _ = reached.reset := by rw [hunits, hreached]

/-- A machine with a keyboard and a storage device executes an instruction, its register A is set, an
event waits, and a byte is stored in a unit. After a reset the byte is all that is left of this. -/
theorem reset_forgets_history_but_stored_byte :
    let config : Config := { ramSize := 0x40, vectorBase := 0x20, stackTop := 0x40 }
    let peripherals : List Device := [.keyboard {}, .storage { units := [.zeros 4] }]
    let actions : List Action :=
      [.board (.write 0 0x87), .step, .board (.setRegister .a 7), .board (.addKeyEvent 2 { key := 5 }),
        .board (.write 0xF0004200 0xAB), .board (.write 0xF0004020 4), .board (.write 0xF0004013 2),
        .run (· == 0x20) 2]
    ∃ built, Machine.build config peripherals = .ok built ∧
      (built.performAll actions).board.register .a = 7 ∧
      (built.performAll actions).reset =
        ⟨built.board.withUnits (built.performAll actions).board.units, built.symbols⟩ ∧
      (built.performAll actions).board.units 3 = [.memory #[0xAB, 0, 0, 0]] ∧
      (built.performAll actions).reset.reset = (built.performAll actions).reset := by
  intro config peripherals actions
  obtain ⟨built, hbuild⟩ : ∃ built, Machine.build config peripherals = .ok built := by
    have hok : (Machine.build config peripherals).isOk = true := by decide +kernel
    cases hbuild : Machine.build config peripherals with
    | error error =>
        rw [hbuild] at hok
        contradiction
    | ok built => exact ⟨built, rfl⟩
  have hregister : (Machine.build config peripherals).toOption.map
      (fun built => (built.performAll actions).board.register .a) = some 7 := by
    decide +kernel
  have hunits : (Machine.build config peripherals).toOption.map
      (fun built => (built.performAll actions).board.units 3) = some [.memory #[0xAB, 0, 0, 0]] := by
    decide +kernel
  rw [hbuild] at hregister hunits
  have hnew : ∀ device ∈ peripherals, device.New := by
    intro device hmem
    rcases List.mem_pair.mp hmem with rfl | rfl <;> rfl
  obtain ⟨_, _, _, _, hfresh, _, _, hagain⟩ := reset_forgets_history hbuild actions
  exact ⟨built, hbuild, Option.some.inj hregister, hfresh hnew, Option.some.inj hunits, hagain⟩

end Machine

end TinyComputer
