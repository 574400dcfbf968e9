import TinyComputer.Word

/-!
# Memory

Memory holds one byte for each offset below its size. Elsewhere it reads as zero and ignores writes.
-/

namespace TinyComputer

structure Memory where
  bytes : Array Byte
  deriving DecidableEq, Repr

namespace Memory

/-- Memory of a given size, every byte zero. -/
def zeros (size : Nat) : Memory :=
  ⟨Array.replicate size 0⟩

def size (memory : Memory) : Nat :=
  memory.bytes.size

def read (memory : Memory) (offset : Word) : Byte :=
  memory.bytes.getD offset.toNat 0

def write (memory : Memory) (offset : Word) (value : Byte) : Memory :=
  ⟨memory.bytes.setIfInBounds offset.toNat value⟩

def reset (memory : Memory) : Memory :=
  zeros memory.size

@[simp] theorem size_zeros (size : Nat) : (zeros size).size = size := by
  simp [zeros, Memory.size]

@[simp] theorem size_write (memory : Memory) (offset : Word) (value : Byte) :
    (memory.write offset value).size = memory.size := by
  simp [write, size]

@[simp] theorem size_reset (memory : Memory) : memory.reset.size = memory.size := by
  simp [reset]

@[simp] theorem read_zeros (size : Nat) (offset : Word) : (zeros size).read offset = 0 := by
  simp [zeros, read, Array.getElem?_replicate]
  split <;> rfl

theorem read_write_self {memory : Memory} {offset : Word} (value : Byte)
    (hoffset : offset.toNat < memory.size) :
    (memory.write offset value).read offset = value := by
  have hbound : offset.toNat < memory.bytes.size := hoffset
  simp [read, write, hbound]

theorem read_write_of_ne (memory : Memory) {written offset : Word} (value : Byte)
    (hne : offset ≠ written) :
    (memory.write written value).read offset = memory.read offset := by
  have hnat : written.toNat ≠ offset.toNat := fun h => hne (UInt32.toNat_inj.mp h.symm)
  simp [read, write, hnat]

end Memory

end TinyComputer
