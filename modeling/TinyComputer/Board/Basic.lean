import TinyComputer.Config
import TinyComputer.Device.Basic
import TinyComputer.Flags
import TinyComputer.Window

/-!
# Boards

A board carries the registers of the processor and the devices of the computer, each of them bound
to a window of the address space. Devices are known by their place in the order in which they were
attached.
-/

namespace TinyComputer

/-- A device and the window that it answers for. -/
structure Binding where
  window : Window
  device : Device
  deriving Repr

deriving noncomputable instance DecidableEq for Binding

/-- The registers and the attached devices of a computer. -/
structure Board where
  config : Config
  registers : RegisterFile
  bindings : Array Binding
  /-- The slot that the next device tries first. -/
  nextSlot : Nat
  /-- The interrupt line for the next device that wants one. -/
  nextLine : Byte
  deriving Repr

deriving noncomputable instance DecidableEq for Board

namespace Binding

def mapDevice (f : Device → Device) (binding : Binding) : Binding :=
  { binding with device := f binding.device }

def offset (binding : Binding) (address : Word) : Word :=
  address - binding.window.base

end Binding

namespace Board

def empty (config : Config) : Board where
  config
  registers := .initial config.stackTop
  bindings := #[]
  nextSlot := 1
  nextLine := 0

def register (board : Board) (r : Register) : Word :=
  board.registers.read r

def setRegister (board : Board) (r : Register) (value : Word) : Board :=
  { board with registers := board.registers.write r value }

def flags (board : Board) : Flags :=
  board.registers.flags

def setFlags (board : Board) (flags : Flags) : Board :=
  { board with registers := board.registers.setFlags flags }

/-- Set every register to what it holds after a reset. -/
def resetRegisters (board : Board) : Board :=
  { board with registers := .initial board.config.stackTop }

def device? (board : Board) (id : Nat) : Option Device :=
  board.bindings[id]?.map Binding.device

def window? (board : Board) (id : Nat) : Option Window :=
  board.bindings[id]?.map Binding.window

/-- The place and the window of the first device of a kind. -/
def findKind? (board : Board) (kind : DeviceKind) : Option (Nat × Window) :=
  (board.bindings.findIdx? fun binding => binding.device.kind == kind).bind fun id =>
    (board.window? id).map fun window => (id, window)

def modifyDevice (board : Board) (id : Nat) (f : Device → Device) : Board :=
  { board with bindings := board.bindings.modify id (Binding.mapDevice f) }

/-- Reset every device. The registers are reset with the bank that shows them. -/
def reset (board : Board) : Board :=
  { board with
    registers :=
      if board.bindings.any fun binding => binding.device.kind == .processor then
        .initial board.config.stackTop
      else board.registers
    bindings := board.bindings.map (Binding.mapDevice Device.reset) }

@[simp] theorem register_setRegister_self (board : Board) (r : Register) (value : Word) :
    (board.setRegister r value).register r = value :=
  RegisterFile.read_write_self _ _ _

theorem register_setRegister_of_ne (board : Board) {written r : Register} (value : Word)
    (hne : r ≠ written) : (board.setRegister written value).register r = board.register r :=
  RegisterFile.read_write_of_ne _ _ hne

theorem setFlags_eq (board : Board) (flags : Flags) :
    board.setFlags flags = board.setRegister .fl flags.bits := rfl

end Board

end TinyComputer
