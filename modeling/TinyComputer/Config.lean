import TinyComputer.Word

/-!
# Configuration

The layout of a computer's address space and the debugger's patience. A configuration is fixed when
the computer is built.
-/

namespace TinyComputer

/-- The fixed parameters of a computer. -/
structure Config where
  /-- Bytes of RAM, which starts at address zero. -/
  ramSize : Word := 0x40000
  /-- The address of entry 0 of the interrupt vector table. -/
  vectorBase : Word := 0x3FC00
  /-- The stack pointer after a reset. The stack grows downwards. -/
  stackTop : Word := 0x3FC00
  /-- The address of device slot 0. Slot 0 stays free; devices take slots 1, 2 and so on. -/
  areaBase : Word := 0xF0001000
  /-- The size of each device's window. -/
  slotSize : Word := 0x1000
  /-- The most instructions that a single run of the debugger executes. -/
  runLimit : Nat := 1000000
  deriving DecidableEq, Repr

namespace Config

/-- The address of the vector of an interrupt line. Entries are one word each. -/
def vectorAddress (config : Config) (line : Byte) : Word :=
  config.vectorBase + line.toUInt32 * 4

/-- The base address of a device slot. -/
def slotAddress (config : Config) (slot : Word) : Word :=
  config.areaBase + slot * config.slotSize

end Config

end TinyComputer
