import TinyComputer.Device.Header
import TinyComputer.Device.StorageUnit

/-!
# The storage device

A storage device moves bytes between up to four units and a buffer of 512 bytes. A program fills the
parameter registers and writes an operation to the register `OP`; the operation is over when the
write is, and its outcome is in the status and result registers. Positions and counts are multiples
of four. In interrupt mode the end of every operation requests an interrupt.
-/

namespace TinyComputer

inductive StorageStatus where
  | done
  /-- The transfer is misaligned, or exceeds the unit or the buffer. -/
  | addressError
  | unavailable
  | physicalError
  deriving DecidableEq, Repr

namespace StorageStatus

def code : StorageStatus → Byte
  | done => 0
  | addressError => 2
  | unavailable => 3
  | physicalError => 4

end StorageStatus

/-- What an offset of the storage device stands for. -/
inductive StorageRegister where
  | header (offset : Fin Header.size)
  | mode
  | status
  | unitList
  | operation
  | parameter (index : Fin 8) (lane : Fin 4)
  | result (index : Fin 2) (lane : Fin 4)
  | buffer (index : Fin 512)
  | unused
  deriving DecidableEq, Repr

namespace StorageRegister

/-- What the given offset stands for. -/
def ofOffset (offset : Word) : StorageRegister :=
  let position := offset.toNat
  if hheader : position < Header.size then header ⟨position, hheader⟩
  else if position = 0x10 then mode
  else if position = 0x11 then status
  else if position = 0x12 then unitList
  else if position = 0x13 then operation
  else if hparameter : position - 0x14 < 0x20 then
    parameter ⟨(position - 0x14) / 4, by omega⟩ ⟨(position - 0x14) % 4, by omega⟩
  else if hresult : position - 0x34 < 0x08 then
    result ⟨(position - 0x34) / 4, by omega⟩ ⟨(position - 0x34) % 4, by omega⟩
  else if hbuffer : 0x200 ≤ position ∧ position < 0x400 then
    buffer ⟨position - 0x200, by omega⟩
  else unused

end StorageRegister

structure Storage where
  units : List StorageUnit
  mode : DeviceMode := .poll
  status : Byte := StorageStatus.done.code
  parameters : Vector Word 8 := Vector.replicate 8 0
  results : Vector Word 2 := Vector.replicate 2 0
  buffer : Vector Byte 512 := Vector.replicate 512 0
  /-- The interrupt line that the device was given. -/
  line : Option Byte := none
  /-- Whether an interrupt request was not taken yet. -/
  pending : Bool := false
  deriving Repr

deriving noncomputable instance DecidableEq for Storage

namespace Storage

abbrev maxUnits : Nat := 4

/-- Positions and counts are multiples of this. -/
abbrev alignment : Nat := 4

abbrev bufferSize : Nat := 512

def constants : List (String × Word) :=
  [("MODE", 0x10), ("STATUS", 0x11), ("UNIT_LIST", 0x12), ("OP", 0x13), ("P0", 0x14), ("P1", 0x18),
    ("P2", 0x1C), ("P3", 0x20), ("P4", 0x24), ("P5", 0x28), ("P6", 0x2C), ("P7", 0x30),
    ("R0", 0x34), ("R1", 0x38), ("DATA", 0x200)]

def ofUnits (units : List StorageUnit) : Except DeviceError Storage :=
  if units.length ≤ maxUnits then .ok { units } else .error (.tooManyUnits maxUnits units.length)

/-- The unit that the parameters select. -/
def unitIndex (storage : Storage) : Nat :=
  storage.parameters[0].toNat

/-- The position that the parameters select. -/
def position (storage : Storage) : Nat :=
  storage.parameters[1].toNat + wordBound * storage.parameters[2].toNat

/-- The count of bytes that the parameters select. -/
def count (storage : Storage) : Nat :=
  storage.parameters[3].toNat

/-- Whether the selected range is aligned and lies within the buffer and within a unit of the given
size. -/
def validRange (storage : Storage) (unitSize : Nat) : Bool :=
  storage.position % alignment == 0 && storage.count % alignment == 0 &&
    storage.count ≤ bufferSize && storage.position + storage.count ≤ unitSize

/-- Replace the bytes of a buffer from an index on. -/
def fill (buffer : Vector Byte 512) (index : Nat) : List Byte → Vector Byte 512
  | [] => buffer
  | byte :: rest => fill (buffer.setIfInBounds index byte) (index + 1) rest

def resultPair (first second : Word) : Vector Word 2 :=
  #v[first, second]

/-- The units with the selected one changed. -/
def modifySelected (storage : Storage) (f : StorageUnit → StorageUnit) : List StorageUnit :=
  storage.units.modify storage.unitIndex f

theorem getElem?_modifySelected (storage : Storage) (f : StorageUnit → StorageUnit) (i : Nat) :
    (storage.modifySelected f)[i]? =
      if storage.unitIndex = i then storage.units[i]?.map f else storage.units[i]? := by
  rw [modifySelected, List.getElem?_modify]
  split <;> simp

/-- Copy the selected range of a unit into the buffer. -/
def readUnit (storage : Storage) : StorageStatus × Storage :=
  match storage.units[storage.unitIndex]? with
  | none => (.unavailable, storage)
  | some unit =>
      if storage.validRange unit.size then
        let units := storage.modifySelected (·.asked (.read storage.position storage.count))
        match unit.read storage.position storage.count with
        | .error _ =>
            let residue := unit.residue storage.position storage.count
            (.physicalError, { storage with units, buffer := fill storage.buffer 0 residue })
        | .ok bytes =>
            (.done,
              { storage with
                units
                buffer := fill storage.buffer 0 bytes
                results := resultPair storage.parameters[3] 0 })
      else (.addressError, storage)

/-- Copy the start of the buffer into the selected range of a unit. -/
def writeUnit (storage : Storage) : StorageStatus × Storage :=
  match storage.units[storage.unitIndex]? with
  | none => (.unavailable, storage)
  | some unit =>
      if storage.validRange unit.size then
        let data := storage.buffer.toList.take storage.count
        match unit.writeError? storage.position data with
        | some _ =>
            let units := storage.modifySelected (·.asked (.write storage.position data))
            (.physicalError, { storage with units })
        | none =>
            (.done,
              { storage with
                units := storage.modifySelected (·.store storage.position data)
                results := resultPair storage.parameters[3] 0 })
      else (.addressError, storage)

/-- Report the size of a unit in the result registers, low word first. -/
def sizeUnit (storage : Storage) : StorageStatus × Storage :=
  match storage.units[storage.unitIndex]? with
  | none => (.unavailable, storage)
  | some unit =>
      (.done,
        { storage with
          results := resultPair (UInt32.ofNat unit.size) (UInt32.ofNat (unit.size / wordBound)) })

/-- Record a status and request an interrupt, if the mode asks for it. -/
def raise (storage : Storage) (status : Byte) : Storage :=
  { storage with status, pending := storage.pending || storage.mode == .interrupt }

/-- Execute an operation. Unknown operations end well and do nothing. -/
def execute (storage : Storage) (operation : Byte) : Storage :=
  -- Results of an earlier operation never outlast the start of the next.
  let cleared := { storage with results := resultPair 0 0 }
  let (status, after) :=
    match operation with
    | 1 => cleared.readUnit
    | 2 => cleared.writeUnit
    | 3 => cleared.sizeUnit
    | _ => (.done, cleared)
  after.raise status.code

def read (storage : Storage) (offset : Word) : Byte :=
  match StorageRegister.ofOffset offset with
  | .header position => Header.byte .storage storage.line position
  | .mode => storage.mode.toByte
  | .status => storage.status
  | .unitList => UInt8.ofNat ((1 <<< storage.units.length) - 1)
  | .operation => 0
  | .parameter index lane => storage.parameters[index].byte lane
  | .result index lane => storage.results[index].byte lane
  | .buffer index => storage.buffer[index]
  | .unused => 0

def write (storage : Storage) (offset : Word) (value : Byte) : Storage :=
  match StorageRegister.ofOffset offset with
  | .mode => { storage with mode := .ofByte value }
  | .operation => storage.execute value
  | .parameter index lane =>
      let parameter := storage.parameters[index].setByte lane value
      { storage with parameters := storage.parameters.set index parameter }
  | .buffer index => { storage with buffer := storage.buffer.set index value }
  | _ => storage

def acknowledge (storage : Storage) : Storage :=
  { storage with pending := false }

/-- The device as new, with its units and interrupt line kept. -/
def reset (storage : Storage) : Storage :=
  { units := storage.units, line := storage.line }

end Storage

end TinyComputer
