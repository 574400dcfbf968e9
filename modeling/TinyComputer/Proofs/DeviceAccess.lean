import Mathlib.Tactic.SplitIfs
import TinyComputer.Processor.Fetch
import TinyComputer.Proofs.AddressRange
import TinyComputer.Proofs.Routing

/-!
# What accesses change

Changing one device leaves the windows, and so all routing, as they are. A read changes at most one
keyboard, the one whose queue lies at the address; it changes no more of it than the queue and the
latch. What a series of reads changes is then told by the addresses that it reads.
-/

namespace TinyComputer

namespace Keyboard

/-- The offset of the lowest byte of `DEQUEUE`. -/
abbrev dequeueOffset : Word := 0x12

theorem takesEvent_iff {offset : Word} : takesEvent offset = true ↔ offset = dequeueOffset := by
  rw [takesEvent, beq_iff_eq, KeyboardRegister.ofOffset]
  constructor
  · intro h
    apply UInt32.toNat_inj.mp
    change offset.toNat = 0x12
    by_cases hdequeue : offset.toNat - 0x12 < 4
    · split_ifs at h
      have hlane := congrArg Fin.val (KeyboardRegister.dequeue.inj h)
      have hheader : Header.size = 16 := rfl
      simp only [Fin.val_zero] at hlane
      omega
    · split_ifs at h
  · rintro rfl
    rfl

end Keyboard

namespace Board

/-- The windows of the devices, in the order of attachment. -/
def windows (board : Board) : Array Window :=
  board.bindings.map Binding.window

theorem routeIndex?_eq_findIdx? (board : Board) (address : Word) :
    board.routeIndex? address = board.windows.findIdx? (·.contains address) := by
  rw [windows, Array.findIdx?_map]
  rfl

/-- Routing asks the windows only. -/
theorem routeIndex?_congr {first second : Board} (h : first.windows = second.windows)
    (address : Word) : first.routeIndex? address = second.routeIndex? address := by
  rw [routeIndex?_eq_findIdx?, routeIndex?_eq_findIdx?, h]

theorem getElem?_windows (board : Board) (id : Nat) : board.windows[id]? = board.window? id := by
  simp [windows, window?]

/-- Windows that are apart stay apart, whatever happens to the devices. -/
theorem Separated.of_windows_eq {before after : Board} (h : before.Separated)
    (hwindows : after.windows = before.windows) : after.Separated := by
  have horiginal : ∀ {id : Nat} {binding : Binding}, after.bindings[id]? = some binding →
      ∃ original, before.bindings[id]? = some original ∧ original.window = binding.window := by
    intro id binding hbinding
    have hwindow := congrArg (·[id]?) hwindows
    simp only [getElem?_windows, window?, hbinding, Option.map_some] at hwindow
    exact Option.map_eq_some_iff.mp hwindow.symm
  constructor
  · intro binding hmem
    obtain ⟨id, hbinding⟩ := Array.mem_iff_getElem?.mp hmem
    obtain ⟨original, hfound, hwindow⟩ := horiginal hbinding
    exact hwindow ▸ h.size_pos original (Array.mem_of_getElem? hfound)
  · intro binding hmem
    obtain ⟨id, hbinding⟩ := Array.mem_iff_getElem?.mp hmem
    obtain ⟨original, hfound, hwindow⟩ := horiginal hbinding
    exact hwindow ▸ h.bound_le original (Array.mem_of_getElem? hfound)
  · intro address i j first second hfirst hin hsecond hin'
    obtain ⟨original, hfound, hwindow⟩ := horiginal hfirst
    obtain ⟨original', hfound', hwindow'⟩ := horiginal hsecond
    exact h.place_eq hfound (hwindow ▸ hin) hfound' (hwindow' ▸ hin')

theorem device?_of_getElem? {board : Board} {id : Nat} {binding : Binding}
    (hbinding : board.bindings[id]? = some binding) : board.device? id = some binding.device := by
  rw [device?, hbinding, Option.map_some]

theorem getElem?_modifyDevice (board : Board) (id place : Nat) (f : Device → Device) :
    (board.modifyDevice id f).bindings[place]? =
      if id = place then board.bindings[place]?.map (Binding.mapDevice f)
      else board.bindings[place]? :=
  Array.getElem?_modify

@[simp] theorem windows_modifyDevice (board : Board) (id : Nat) (f : Device → Device) :
    (board.modifyDevice id f).windows = board.windows := by
  apply Array.ext_getElem?
  intro place
  rw [windows, windows, Array.getElem?_map, Array.getElem?_map, getElem?_modifyDevice]
  split
  · cases board.bindings[place]? <;> rfl
  · rfl

@[simp] theorem routeIndex?_modifyDevice (board : Board) (id : Nat) (f : Device → Device)
    (address : Word) : (board.modifyDevice id f).routeIndex? address = board.routeIndex? address :=
  routeIndex?_congr (board.windows_modifyDevice id f) address

theorem modify_congr {bindings : Array Binding} {id : Nat} {binding : Binding}
    {f g : Binding → Binding} (hbinding : bindings[id]? = some binding)
    (hfg : f binding = g binding) : bindings.modify id f = bindings.modify id g := by
  apply Array.ext_getElem?
  intro place
  rw [Array.getElem?_modify, Array.getElem?_modify]
  split
  next heq => rw [← heq, hbinding, Option.map_some, Option.map_some, hfg]
  next => rfl

theorem modifyDevice_congr {board : Board} {id : Nat} {window : Window} {device : Device}
    {f g : Device → Device} (hbinding : board.bindings[id]? = some ⟨window, device⟩)
    (hfg : f device = g device) : board.modifyDevice id f = board.modifyDevice id g := by
  rw [modifyDevice, modifyDevice, modify_congr hbinding]
  rw [Binding.mapDevice, Binding.mapDevice, hfg]

theorem modifyDevice_self {board : Board} {id : Nat} {window : Window} {device : Device}
    (hbinding : board.bindings[id]? = some ⟨window, device⟩) :
    (board.modifyDevice id fun _ => device) = board := by
  have hmodify : board.bindings.modify id (Binding.mapDevice fun _ => device) = board.bindings := by
    apply Array.ext_getElem?
    intro place
    rw [Array.getElem?_modify]
    split
    next heq =>
      rw [← heq, hbinding]
      rfl
    next => rfl
  rw [modifyDevice, hmodify]

/-- A device that was put in place of another one is there. -/
theorem getElem?_modifyDevice_self {board : Board} {id : Nat} {window : Window} {device : Device}
    (hbinding : board.bindings[id]? = some ⟨window, device⟩) (changed : Device) :
    (board.modifyDevice id fun _ => changed).bindings[id]? = some ⟨window, changed⟩ := by
  rw [getElem?_modifyDevice, if_pos rfl, hbinding]
  rfl

/-- Two changes of one device are one change. -/
theorem modifyDevice_modifyDevice (board : Board) (id : Nat) (f g : Device → Device) :
    (board.modifyDevice id f).modifyDevice id g = board.modifyDevice id (g ∘ f) := by
  have hmodify : (board.bindings.modify id (Binding.mapDevice f)).modify id (Binding.mapDevice g) =
      board.bindings.modify id (Binding.mapDevice (g ∘ f)) := by
    apply Array.ext_getElem?
    intro place
    rw [Array.getElem?_modify, Array.getElem?_modify, Array.getElem?_modify]
    split
    · rw [Option.map_map]
      rfl
    · rfl
  rw [modifyDevice, modifyDevice, modifyDevice, ← hmodify]

/-- Changing what an address is routed to is changing the device at its place. -/
theorem modifyAt_eq_modifyDevice {board : Board} {address : Word} {id : Nat} {binding : Binding}
    (hroute : board.routeIndex? address = some id) (hbinding : board.bindings[id]? = some binding)
    (f : Word → Device → Device) :
    board.modifyAt address f = board.modifyDevice id (f (binding.offset address)) := by
  have hmodify : (board.bindings.modify id fun found => found.mapDevice (f (found.offset address))) =
      board.bindings.modify id (Binding.mapDevice (f (binding.offset address))) :=
    modify_congr hbinding rfl
  rw [modifyAt, hroute, modifyDevice, ← hmodify]

theorem route?_eq_of_routeIndex? {board : Board} {address : Word} {id : Nat} {binding : Binding}
    (hroute : board.routeIndex? address = some id)
    (hbinding : board.bindings[id]? = some binding) : board.route? address = some binding := by
  rw [route?_eq_bind, hroute, Option.bind_some, hbinding]

theorem route?_modifyDevice_of_ne {board : Board} {address : Word} {id : Nat}
    (hne : board.routeIndex? address ≠ some id) (f : Device → Device) :
    (board.modifyDevice id f).route? address = board.route? address := by
  rw [route?_eq_bind, route?_eq_bind, routeIndex?_modifyDevice]
  cases hroute : board.routeIndex? address with
  | none => rfl
  | some place =>
      have hplace : id ≠ place := by
        rintro rfl
        exact hne hroute
      rw [Option.bind_some, Option.bind_some, getElem?_modifyDevice, if_neg hplace]

/-- A read changes nothing, or it takes an event from the keyboard whose queue is at the address. -/
theorem touch_cases (board : Board) (address : Word) :
    board.touch address = board ∨
    ∃ id window keyboard, board.bindings[id]? = some ⟨window, .keyboard keyboard⟩ ∧
      board.routeIndex? address = some id ∧ address = window.base + Keyboard.dequeueOffset ∧
      board.touch address = board.modifyDevice id fun _ =>
        .keyboard { keyboard with queue := keyboard.queue.tail, latch := keyboard.queue.headD 0 } := by
  by_cases hquiet : board.quiet address = true
  · exact .inl (touch_of_quiet hquiet)
  · right
    rw [touch, if_neg hquiet]
    rw [quiet] at hquiet
    split at hquiet
    next => contradiction
    next binding hroute =>
      rw [route?_eq_bind, Option.bind_eq_some_iff] at hroute
      obtain ⟨id, hid, hbinding⟩ := hroute
      obtain ⟨window, device⟩ := binding
      cases device with
      | keyboard keyboard =>
          have htakes : Keyboard.takesEvent (address - window.base) = true := by
            simpa [Device.readHasEffect, Binding.offset] using hquiet
          refine ⟨id, window, keyboard, hbinding, hid, ?_, ?_⟩
          · rw [← Keyboard.takesEvent_iff.mp htakes, UInt32.add_comm, UInt32.sub_add_cancel]
          · rw [modifyAt_eq_modifyDevice hid hbinding]
            apply modifyDevice_congr hbinding
            simp only [Device.afterRead, Keyboard.afterRead, Binding.offset, htakes, if_true]
      | _ => simp [Device.readHasEffect] at hquiet

/-- A write goes to no device, or to the registers through a bank that shows them, or to the device that
the address is routed to. -/
theorem write_cases (board : Board) (address : Word) (value : Byte) :
    (board.routeIndex? address = none ∧ board.write address value = board) ∨
    (∃ id window, board.routeIndex? address = some id ∧
      board.bindings[id]? = some ⟨window, .registerBank⟩ ∧
      board.write address value = { board with
        registers := RegisterBank.write board.registers (address - window.base) value }) ∨
    ∃ id window device, board.routeIndex? address = some id ∧
      board.bindings[id]? = some ⟨window, device⟩ ∧
      board.write address value =
        board.modifyDevice id (Device.write (address - window.base) value) := by
  cases hroute : board.routeIndex? address with
  | none =>
      left
      rw [write, route?_eq_bind, hroute, Option.bind_none]
      simp only [modifyAt, hroute, and_self]
  | some id =>
      right
      obtain ⟨⟨window, device⟩, hbinding, _⟩ := routeIndex?_eq_some_iff.mp hroute
      have hfound := route?_eq_of_routeIndex? hroute hbinding
      cases device with
      | registerBank =>
          left
          refine ⟨id, window, rfl, hbinding, ?_⟩
          rw [write, hfound]
      | _ =>
          right
          refine ⟨id, window, _, rfl, hbinding, ?_⟩
          rw [write, hfound]
          simp only
          rw [modifyAt_eq_modifyDevice hroute hbinding]
          rfl

@[simp] theorem windows_write (board : Board) (address : Word) (value : Byte) :
    (board.write address value).windows = board.windows := by
  rcases board.write_cases address value with
    ⟨_, hsame⟩ | ⟨_, _, _, _, hwrite⟩ | ⟨id, _, _, _, _, hwrite⟩
  · rw [hsame]
  · rw [hwrite]
    rfl
  · rw [hwrite, windows_modifyDevice]

/-- Two boards that agree but for what reads may change: the queues and latches of those keyboards
whose queue is at an address that was reached. -/
structure AgreeButQueues (reached : Word → Prop) (before after : Board) : Prop where
  config_eq : after.config = before.config
  registers_eq : after.registers = before.registers
  nextSlot_eq : after.nextSlot = before.nextSlot
  nextLine_eq : after.nextLine = before.nextLine
  binding : ∀ id, after.bindings[id]? = before.bindings[id]? ∨
    ∃ window keyboard queue latch,
      before.bindings[id]? = some ⟨window, .keyboard keyboard⟩ ∧
      after.bindings[id]? = some ⟨window, .keyboard { keyboard with queue, latch }⟩ ∧
      before.routeIndex? (window.base + Keyboard.dequeueOffset) = some id ∧
      reached (window.base + Keyboard.dequeueOffset)

namespace AgreeButQueues

variable {reached wider : Word → Prop} {before middle after : Board}

theorem refl (reached : Word → Prop) (board : Board) : AgreeButQueues reached board board :=
  ⟨rfl, rfl, rfl, rfl, fun _ => .inl rfl⟩

theorem mono (h : AgreeButQueues reached before after)
    (hwider : ∀ address, reached address → wider address) :
    AgreeButQueues wider before after := by
  refine ⟨h.config_eq, h.registers_eq, h.nextSlot_eq, h.nextLine_eq, ?_⟩
  intro id
  rcases h.binding id with heq | ⟨window, keyboard, queue, latch, hbefore, hafter, hroute, hreached⟩
  · exact .inl heq
  · exact .inr ⟨window, keyboard, queue, latch, hbefore, hafter, hroute, hwider _ hreached⟩

theorem windows_eq (h : AgreeButQueues reached before after) : after.windows = before.windows := by
  apply Array.ext_getElem?
  intro id
  rw [getElem?_windows, getElem?_windows, window?, window?]
  rcases h.binding id with heq | ⟨_, _, _, _, hbefore, hafter, _⟩
  · rw [heq]
  · rw [hbefore, hafter]
    rfl

theorem trans (hfirst : AgreeButQueues reached before middle)
    (hsecond : AgreeButQueues reached middle after) : AgreeButQueues reached before after := by
  refine ⟨hsecond.config_eq.trans hfirst.config_eq, hsecond.registers_eq.trans hfirst.registers_eq,
    hsecond.nextSlot_eq.trans hfirst.nextSlot_eq, hsecond.nextLine_eq.trans hfirst.nextLine_eq, ?_⟩
  intro id
  rcases hsecond.binding id with
    heq | ⟨window, keyboard, queue, latch, hmiddle, hafter, hroute, hreached⟩
  · rw [heq]
    exact hfirst.binding id
  · rw [routeIndex?_congr hfirst.windows_eq] at hroute
    right
    rcases hfirst.binding id with heq | ⟨range, original, _, _, hbefore, hmiddle', _⟩
    · exact ⟨window, keyboard, queue, latch, heq ▸ hmiddle, hafter, hroute, hreached⟩
    · -- Both changed the same keyboard, and the second change overwrites the first.
      obtain ⟨rfl, rfl⟩ := by simpa using hmiddle'.symm.trans hmiddle
      exact ⟨range, original, queue, latch, hbefore, hafter, hroute, hreached⟩

end AgreeButQueues

theorem agreeButQueues_touch (board : Board) (address : Word) :
    AgreeButQueues (· = address) board (board.touch address) := by
  rcases board.touch_cases address with
    hsame | ⟨id, window, keyboard, hbinding, hroute, rfl, htouch⟩
  · rw [hsame]
    exact .refl _ board
  · rw [htouch]
    refine ⟨rfl, rfl, rfl, rfl, ?_⟩
    intro place
    rw [getElem?_modifyDevice]
    split
    next heq =>
      subst heq
      rw [hbinding]
      exact .inr ⟨window, keyboard, _, _, rfl, rfl, hroute, rfl⟩
    next => exact .inl rfl

/-- Reading bytes reaches the addresses of these bytes. -/
theorem agreeButQueues_readBytes (board : Board) (address : Word) (count : Nat) :
    AgreeButQueues (Word.Within address count) board (board.readBytes address count).2 := by
  induction count generalizing board address with
  | zero => exact .refl _ board
  | succ count ih =>
      rw [readBytes_succ]
      have hfirst : AgreeButQueues (Word.Within address (count + 1)) board (board.touch address) :=
        (board.agreeButQueues_touch address).mono fun _ heq => Word.within_succ.mpr (.inl heq)
      have hrest : AgreeButQueues (Word.Within address (count + 1)) (board.touch address)
          ((board.touch address).readBytes (address + 1) count).2 :=
        (ih (board.touch address) (address + 1)).mono fun _ h => Word.within_succ.mpr (.inr h)
      exact hfirst.trans hrest

theorem agreeButQueues_readValue (board : Board) (address : Word) (count : Nat) :
    AgreeButQueues (Word.Within address count) board (board.readValue address count).2 :=
  board.agreeButQueues_readBytes address count

/-- Fetching reaches the addresses of the instruction, whether or not it can be decoded. -/
theorem agreeButQueues_fetch (board : Board) (address : Word) :
    AgreeButQueues (Word.Within address (instructionLength (board.peek address))) board
      (board.fetch address).2 := by
  have hlength : 0 < instructionLength (board.peek address) := by
    unfold instructionLength
    split
    · exact Form.length_pos _
    · exact Nat.one_pos
  have hopcode : ∀ reached, reached = address →
      Word.Within address (instructionLength (board.peek address)) reached := by
    rintro reached rfl
    simpa [Word.Within] using hlength
  exact ((board.agreeButQueues_touch address).mono hopcode).trans
    ((board.touch address).agreeButQueues_readBytes address _)

end Board

end TinyComputer
