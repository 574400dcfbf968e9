import TinyComputer.Device.Medium

/-!
# Storage units

A unit is what a storage device transfers bytes from and to. Most units keep their bytes in memory. A
patterned unit computes them from their positions and drops what is written, so that it can be of any
size; a defective one fails every transfer. Anything else is a medium of the host, which is told of every
transfer, also of those that fail.
-/

namespace TinyComputer

/-- A unit of a storage device. -/
inductive StorageUnit where
  | memory (bytes : Array Byte)
  | patterned (size : UInt64)
  | defective (size : UInt64)
  | hosted (medium : Medium)
  deriving Repr

deriving noncomputable instance DecidableEq for StorageUnit

namespace StorageUnit

/-- A unit of a given size in memory, every byte zero. -/
def zeros (size : Nat) : StorageUnit :=
  memory (Array.replicate size 0)

def size : StorageUnit → Nat
  | memory bytes => bytes.size
  | patterned size => size.toNat
  | defective size => size.toNat
  | hosted medium => (medium.size []).toNat

/-- The byte at a position of a patterned unit. -/
def patternByte (position : Nat) : Byte :=
  UInt8.ofNat (position + position / wordBound)

/-- Replace the bytes from a position on. -/
def overwrite (bytes : Array Byte) (position : Nat) : List Byte → Array Byte
  | [] => bytes
  | byte :: rest => overwrite (bytes.setIfInBounds position byte) (position + 1) rest

/-- The bytes from a position on. -/
def read (position count : Nat) : StorageUnit → Except MediumError (List Byte)
  | memory bytes =>
      if position + count ≤ bytes.size then .ok (bytes.extract position (position + count)).toList
      else .error (.readPastEnd position)
  | patterned _ => .ok ((List.range count).map fun i => patternByte (position + i))
  | defective _ => .error .defective
  | hosted medium => (medium.read [] position count).map Vector.toList

/-- The bytes that a read puts into the room for them although it fails. -/
def residue (position count : Nat) : StorageUnit → List Byte
  | hosted medium => (medium.residue [] position count).take count
  | _ => []

/-- Why bytes cannot be written from a position on. -/
def writeError? (position : Nat) (data : List Byte) : StorageUnit → Option MediumError
  | memory bytes =>
      if position + data.length ≤ bytes.size then none else some (.writePastEnd position)
  | patterned _ => none
  | defective _ => some .defective
  | hosted medium => medium.writeError? [] position data

/-- The unit after it was asked for a transfer that writes nothing to it. -/
def asked (transfer : Transfer) : StorageUnit → StorageUnit
  | hosted medium => hosted (medium.after transfer)
  | unit => unit

/-- The unit after bytes are written from a position on. -/
def store (position : Nat) (data : List Byte) : StorageUnit → StorageUnit
  | memory bytes => memory (overwrite bytes position data)
  | unit => unit.asked (.write position data)

/-- Write bytes from a position on. -/
def write (position : Nat) (data : List Byte) (unit : StorageUnit) :
    Except MediumError StorageUnit :=
  match unit.writeError? position data with
  | some error => .error error
  | none => .ok (unit.store position data)

@[simp] theorem size_overwrite (bytes : Array Byte) (position : Nat) (data : List Byte) :
    (overwrite bytes position data).size = bytes.size := by
  induction data generalizing bytes position with
  | nil => rfl
  | cons byte rest ih => simp [overwrite, ih]

end StorageUnit

end TinyComputer
