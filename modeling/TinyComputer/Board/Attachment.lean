import TinyComputer.Board.Basic
import TinyComputer.Text.Hexadecimal

/-!
# Attaching devices

A device is attached at a window that has addresses, ends within the address space and overlaps no
window of another device; or it is added at the next slot of the device area whose window is vacant.
Devices that want an interrupt line are given the next one. Lines are a byte, and once they have run
out every further device shares the last. Either way the answer comes with the board after the call,
also when the device was refused.
-/

namespace TinyComputer

inductive AttachError where
  | emptyWindow (base : Word)
  /-- The window ends beyond the address space. -/
  | windowOverflow (window : Window)
  | overlap (window : Window)
  | noFreeSlot
  deriving DecidableEq, Repr

namespace AttachError

def describe (window : Window) : String :=
  "device window at 0x" ++ String.ofList (Text.hexFixed 8 window.base.toNat) ++ " of size 0x" ++
    String.ofList (Text.hexShort window.size)

def message : AttachError → String
  | emptyWindow base =>
      "device window at 0x" ++ String.ofList (Text.hexFixed 8 base.toNat) ++ " has size zero"
  | windowOverflow window => describe window ++ " runs past the end of the address space"
  | overlap window => describe window ++ " overlaps an attached device"
  | noFreeSlot => "no free device slot"

end AttachError

namespace Board

/-- Whether no attached window overlaps the given one. -/
def vacant (board : Board) (window : Window) : Bool :=
  !board.bindings.any fun binding => binding.window.overlaps window

/-- Put a device at a window, with an interrupt line if it wants one. -/
def bind (board : Board) (device : Device) (window : Window) : Board :=
  if device.kind.wantsLine then
    { board with
      bindings := board.bindings.push ⟨window, device.connect board.nextLine⟩
      -- The line after the last one is the last one again.
      nextLine := if board.nextLine == 0xFF then 0xFF else board.nextLine + 1 }
  else { board with bindings := board.bindings.push ⟨window, device⟩ }

/-- Attach a device at a window. The answer is the place of the device. -/
def attach (board : Board) (device : Device) (window : Window) : Except AttachError Nat × Board :=
  if window.size == 0 then (.error (.emptyWindow window.base), board)
  else if wordBound < window.bound then (.error (.windowOverflow window), board)
  else if board.vacant window then (.ok board.bindings.size, board.bind device window)
  else (.error (.overlap window), board)

/-- Where a slot of the device area starts, the bound of the address space aside. -/
def slotBase (config : Config) (slot : Nat) : Nat :=
  config.areaBase.toNat + slot * config.slotSize.toNat

/-- The window of a slot of the device area, if it ends within the address space. -/
def slotWindow? (config : Config) (slot : Nat) : Option Window :=
  if slotBase config slot + config.slotSize.toNat ≤ wordBound then
    some ⟨UInt32.ofNat (slotBase config slot), config.slotSize⟩
  else none

theorem lt_of_slotWindow?_eq_some {config : Config} {slot : Nat} {window : Window}
    (hsize : config.slotSize ≠ 0) (h : slotWindow? config slot = some window) :
    slot < wordBound := by
  have hpos : 0 < config.slotSize.toNat :=
    Nat.pos_of_ne_zero fun hzero => hsize (UInt32.toNat_inj.mp hzero)
  have hmul := Nat.le_mul_of_pos_right slot hpos
  unfold slotWindow? at h
  split at h
  next hbound =>
    unfold slotBase at hbound
    omega
  next => contradiction

/-- Look for a vacant window in the slots from `slot` on. The answer is the first one, if there is
any, and the slot after the last that was tried. -/
def seekSlot (board : Board) (slot : Nat) : Option Window × Nat :=
  match hwindow : slotWindow? board.config slot with
  | none => (none, slot)
  | some window =>
      if board.vacant window then (some window, slot + 1)
      -- Slots of size zero all start at the same address.
      else if hsize : board.config.slotSize = 0 then (none, slot)
      else board.seekSlot (slot + 1)
termination_by wordBound - slot
decreasing_by
  have := lt_of_slotWindow?_eq_some hsize hwindow
  omega

/-- Attach a device at the next vacant slot. The answer is the place of the device and its base
address. Slots that were passed over are not tried again. -/
def addDevice (board : Board) (device : Device) : Except AttachError (Nat × Word) × Board :=
  match board.seekSlot board.nextSlot with
  | (none, next) => (.error .noFreeSlot, { board with nextSlot := next })
  | (some window, next) =>
      match { board with nextSlot := next }.attach device window with
      | (.error error, board) => (.error error, board)
      | (.ok id, board) => (.ok (id, window.base), board)

/-- Add devices in order, up to the first that does not fit. -/
def addDevices (board : Board) : List Device → Except AttachError Board
  | [] => .ok board
  | device :: devices =>
      match board.addDevice device with
      | (.error error, _) => .error error
      | (.ok _, board) => board.addDevices devices

end Board

end TinyComputer
