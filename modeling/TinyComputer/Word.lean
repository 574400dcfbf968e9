/-!
# Words and bytes

The computer works on 32-bit words and stores them as bytes, least significant first. `toBytes`
and `ofBytes` go between a word and its bytes, `byte` and `setByte` reach the four lanes of a word.
-/

namespace TinyComputer

abbrev Byte := UInt8

/-- The unit of arithmetic, and an address. -/
abbrev Word := UInt32

/-- Addresses and words are below this bound. -/
abbrev wordBound : Nat := 0x100000000

namespace Word

/-- Byte `lane` of a word. Lane 0 is the least significant. -/
def byte (word : Word) (lane : Fin 4) : Byte :=
  (word >>> (8 * UInt32.ofNat lane)).toUInt8

/-- Replace byte `lane` of a word. -/
def setByte (word : Word) (lane : Fin 4) (value : Byte) : Word :=
  let shift := 8 * UInt32.ofNat lane
  (word &&& ~~~((0xFF : Word) <<< shift)) ||| (value.toUInt32 <<< shift)

/-- The low `count` bytes of a word, least significant first. -/
def toBytes : (count : Nat) → (word : Word) → List Byte
  | 0, _ => []
  | count + 1, word => word.toUInt8 :: toBytes count (word >>> 8)

/-- The word with the given bytes, least significant first. Missing bytes are zero. -/
def ofBytes : List Byte → Word
  | [] => 0
  | byte :: rest => byte.toUInt32 ||| (ofBytes rest <<< 8)

/-- Whether bit 31 is set, which is the sign in two's complement. -/
def negative (word : Word) : Bool :=
  word &&& 0x80000000 != 0

@[simp] theorem length_toBytes (count : Nat) (word : Word) :
    (toBytes count word).length = count := by
  induction count generalizing word with
  | zero => rfl
  | succ count ih => simp [toBytes, ih]

end Word

end TinyComputer
