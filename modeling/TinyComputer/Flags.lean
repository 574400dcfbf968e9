import TinyComputer.Register

/-!
# Flags

The register `FL` packs eight flags into its low bits; its other bits have no meaning and are kept.
Results of the arithmetic unit write five flags at once, a comparison two, and the last one enables
interrupts.
-/

namespace TinyComputer

/-- The flags, from bit 0 of `FL` upwards. -/
inductive Flag where
  /-- Unsigned overflow: a carry or borrow out of bit 31. -/
  | carry
  /-- Signed overflow. -/
  | overflow
  /-- The result is zero. -/
  | zero
  /-- The sign bit of the result. -/
  | sign
  /-- The first operand of the last comparison was the greater. -/
  | greater
  /-- The first operand of the last comparison was the less. -/
  | less
  /-- The result is even. -/
  | even
  /-- Interrupts are enabled. -/
  | interrupts
  deriving DecidableEq, Repr

namespace Flag

/-- The bit of `FL` that holds a flag. -/
def mask : Flag → Word
  | carry => 0x01
  | overflow => 0x02
  | zero => 0x04
  | sign => 0x08
  | greater => 0x10
  | less => 0x20
  | even => 0x40
  | interrupts => 0x80

/-- The letters that stand for a flag in a display. -/
def label : Flag → String
  | carry => "Y"
  | overflow => "V"
  | zero => "Z"
  | sign => "S"
  | greater => "GT"
  | less => "LT"
  | even => "P"
  | interrupts => "T"

/-- Every flag, from bit 0 upwards. -/
def all : List Flag :=
  [carry, overflow, zero, sign, greater, less, even, interrupts]

end Flag

structure Flags where
  bits : Word
  deriving DecidableEq, Repr

namespace Flags

/-- Whether any bit of `mask` is set. -/
def anySet (flags : Flags) (mask : Word) : Bool :=
  flags.bits &&& mask != 0

/-- Set or clear every bit of `mask`. -/
def assign (flags : Flags) (mask : Word) (value : Bool) : Flags :=
  if value then ⟨flags.bits ||| mask⟩ else ⟨flags.bits &&& ~~~mask⟩

def get (flags : Flags) (flag : Flag) : Bool :=
  flags.anySet flag.mask

def set (flags : Flags) (flag : Flag) (value : Bool) : Flags :=
  flags.assign flag.mask value

/-- Write the five flags that describe a result. Every one of them is written, so nothing is left
over from an earlier instruction. -/
def setResult (flags : Flags) (result : Word) (carry overflow : Bool) : Flags :=
  flags
    |>.set .carry carry
    |>.set .overflow overflow
    |>.set .zero (result == 0)
    |>.set .sign result.negative
    |>.set .even (result % 2 == 0)

/-- Write the two flags of a comparison. -/
def setComparison (flags : Flags) (greater less : Bool) : Flags :=
  flags
    |>.set .greater greater
    |>.set .less less

/-- All flags with their values on one line. -/
def text (flags : Flags) : String :=
  "  ".intercalate (Flag.all.map fun flag =>
    flag.label ++ (if flags.get flag then ":1" else ":0"))

end Flags

namespace RegisterFile

def flags (registers : RegisterFile) : Flags :=
  ⟨registers.read .fl⟩

def setFlags (registers : RegisterFile) (flags : Flags) : RegisterFile :=
  registers.write .fl flags.bits

end RegisterFile

end TinyComputer
