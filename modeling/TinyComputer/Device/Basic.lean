import TinyComputer.Device.Keyboard
import TinyComputer.Device.Memory
import TinyComputer.Device.RegisterBank
import TinyComputer.Device.Storage

/-!
# Devices

Everything that can be attached to a board. A device answers byte reads and writes at offsets of its
window. Reading has two parts, the byte that it gives and what it does to the device; only one
register of the keyboard does anything.
-/

namespace TinyComputer

inductive Device where
  | memory (memory : Memory)
  /-- The registers of the processor, which the board holds. -/
  | registerBank
  | storage (storage : Storage)
  | keyboard (keyboard : Keyboard)
  deriving Repr

deriving noncomputable instance DecidableEq for Device

namespace Device

def kind : Device → DeviceKind
  | memory _ => .memory
  | registerBank => .processor
  | storage _ => .storage
  | keyboard _ => .keyboard

/-- The registers of a device with their offsets, the header aside. -/
def constants : Device → List (String × Word)
  | memory _ => []
  | registerBank => RegisterBank.constants
  | storage _ => Storage.constants
  | keyboard _ => Keyboard.constants

def read (registers : RegisterFile) (offset : Word) : Device → Byte
  | memory m => m.read offset
  | registerBank => RegisterBank.read registers offset
  | storage s => s.read offset
  | keyboard k => k.read offset

/-- Whether a read at an offset changes the device. -/
def readHasEffect (offset : Word) : Device → Bool
  | keyboard _ => Keyboard.takesEvent offset
  | _ => false

def afterRead (offset : Word) : Device → Device
  | keyboard k => keyboard (k.afterRead offset)
  | device => device

def write (offset : Word) (value : Byte) : Device → Device
  | memory m => memory (m.write offset value)
  | registerBank => registerBank
  | storage s => storage (s.write offset value)
  | keyboard k => keyboard (k.write offset value)

def line? : Device → Option Byte
  | storage s => s.line
  | keyboard k => k.line
  | _ => none

/-- Give a device an interrupt line. -/
def connect (line : Byte) : Device → Device
  | storage s => storage { s with line := some line }
  | keyboard k => keyboard { k with line := some line }
  | device => device

def requesting : Device → Bool
  | storage s => s.pending
  | keyboard k => 0 < k.pending
  | _ => false

def acknowledge : Device → Device
  | storage s => storage s.acknowledge
  | keyboard k => keyboard k.acknowledge
  | device => device

/-- Report a status from the host's side, which requests an interrupt if the mode asks for it. -/
def raise (status : Byte) : Device → Device
  | storage s => storage (s.raise status)
  | keyboard k => keyboard k.raise
  | device => device

/-- The device as new. Storage units keep their bytes, and interrupt lines stay. -/
def reset : Device → Device
  | memory m => memory m.reset
  | registerBank => registerBank
  | storage s => storage s.reset
  | keyboard k => keyboard k.reset

theorem afterRead_of_not_readHasEffect {offset : Word} {device : Device}
    (h : device.readHasEffect offset = false) : device.afterRead offset = device := by
  cases device with
  | keyboard k => simp_all [readHasEffect, afterRead, Keyboard.afterRead]
  | _ => rfl

@[simp] theorem kind_afterRead (offset : Word) (device : Device) :
    (device.afterRead offset).kind = device.kind := by
  cases device <;> rfl

@[simp] theorem kind_write (offset : Word) (value : Byte) (device : Device) :
    (device.write offset value).kind = device.kind := by
  cases device <;> rfl

@[simp] theorem kind_reset (device : Device) : device.reset.kind = device.kind := by
  cases device <;> rfl

end Device

end TinyComputer
