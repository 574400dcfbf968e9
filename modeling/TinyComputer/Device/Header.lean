import TinyComputer.Word

/-!
# Device headers

The window of a peripheral starts with sixteen bytes that say what it is: its kind, a version, its
interrupt line and its name, padded with zeros. Memory has no header, so that it starts at its first
byte.
-/

namespace TinyComputer

inductive DeviceKind where
  | memory
  | processor
  | storage
  | keyboard
  deriving DecidableEq, Repr

/-- How a device tells the program that something happened. -/
inductive DeviceMode where
  /-- The program asks. -/
  | poll
  /-- The device requests an interrupt. -/
  | interrupt
  deriving DecidableEq, Repr

namespace DeviceKind

/-- The byte that stands for a kind in a header. -/
def code : DeviceKind → Byte
  | memory => 1
  | processor => 2
  | storage => 3
  | keyboard => 4

def name : DeviceKind → String
  | memory => "Memory"
  | processor => "TinyCPU"
  | storage => "TinyStorage"
  | keyboard => "TinyKeyboard"

/-- The letters that start the symbols of a device of this kind. -/
def shortName : DeviceKind → String
  | memory => "MEM"
  | processor => "CPU"
  | storage => "STG"
  | keyboard => "KBD"

def hasHeader : DeviceKind → Bool
  | memory => false
  | _ => true

def wantsLine : DeviceKind → Bool
  | storage => true
  | keyboard => true
  | _ => false

end DeviceKind

namespace DeviceMode

def toByte : DeviceMode → Byte
  | poll => 0
  | interrupt => 1

/-- The mode that a written byte selects. -/
def ofByte (byte : Byte) : DeviceMode :=
  if byte == 0 then poll else interrupt

@[simp] theorem ofByte_toByte (mode : DeviceMode) : ofByte mode.toByte = mode := by
  cases mode <;> rfl

end DeviceMode

namespace Header

/-- The size of a header. The registers of a device start after it. -/
abbrev size : Nat := 16

/-- What the interrupt field holds for a device without a line. -/
def noLine : Byte := 0xFF

/-- The fields of a header with their offsets. -/
def fields : List (String × Word) :=
  [("TYPE", 0x00), ("VERSION", 0x01), ("INTERRUPT", 0x02), ("NAME", 0x03)]

/-- The byte at an offset of the header of a device. -/
def byte (kind : DeviceKind) (line : Option Byte) (offset : Fin size) : Byte :=
  match offset.val with
  | 0 => kind.code
  | 1 => 0
  | 2 => line.getD noLine
  | position + 3 => (kind.name.toList.map fun c => c.toNat.toUInt8).getD position 0

end Header

end TinyComputer
