import TinyComputer.Processor.Arithmetic
import TinyComputer.Proofs.LittleEndian

/-!
# Checked arithmetic

The operations on words and arrays that the computer is made of are total: sums wrap around, shifts go by
their amount modulo the width, and an index carries the proof that it is in its array. The calculations
here are the same ones without these conventions. Their operands are plain words, every index, difference,
product and shift is checked where it is made, and a check that fails ends the calculation in a trap. Main
facts: reaching the lanes of a word, putting a word together from bytes and taking it apart, and the
operations of the arithmetic unit never trap, and give what the total definitions give.
-/

namespace TinyComputer

/-- Why a calculation cannot go on. -/
inductive Trap where
  /-- An array of this size has no element at this place. -/
  | index (place size : Nat)
  /-- An array of this size has no range that ends before this bound. -/
  | range (bound size : Nat)
  /-- As many bytes do not fit exactly into as much room. -/
  | length (room found : Nat)
  /-- A number is below zero, or above the largest word of its size. -/
  | overflow
  /-- A word of this width cannot be shifted by this amount. -/
  | shift (amount width : Nat)
  deriving DecidableEq, Repr

/-- A calculation that may trap. -/
abbrev Checked := Except Trap

namespace Checked

variable {α β : Type} {size place : Nat} {a b : Word}

@[simp] theorem ok_bind (value : α) (f : α → Checked β) : (Except.ok value >>= f) = f value := rfl

/-! ## Arrays -/

/-- The element at a place. -/
def element (values : Vector α size) (place : Nat) : Checked α :=
  if h : place < size then .ok values[place] else .error (.index place size)

/-- Replace the element at a place. -/
def replace (values : Vector α size) (place : Nat) (value : α) : Checked (Vector α size) :=
  if h : place < size then .ok (values.set place value) else .error (.index place size)

/-- The elements before a bound. -/
def prefixTo (values : Vector α size) (bound : Nat) : Checked (List α) :=
  if bound ≤ size then .ok (values.toList.take bound) else .error (.range bound size)

/-- The elements that take up some room, if they are neither more nor fewer than that. -/
def exactly (room : Nat) (values : List α) : Checked (List α) :=
  if values.length = room then .ok values else .error (.length room values.length)

/-- The number before a number. -/
def pred : Nat → Checked Nat
  | 0 => .error .overflow
  | number + 1 => .ok number

theorem element_eq_ok (values : Vector α size) (h : place < size) :
    element values place = .ok values[place] := dif_pos h

theorem replace_eq_ok (values : Vector α size) (h : place < size) (value : α) :
    replace values place value = .ok (values.set place value) := dif_pos h

/-! ## Words -/

/-- A number as a word. -/
def word (number : Nat) : Checked Word :=
  if number < 2 ^ 32 then .ok (UInt32.ofNat number) else .error .overflow

def add (a b : Word) : Checked Word :=
  word (a.toNat + b.toNat)

def mul (a b : Word) : Checked Word :=
  word (a.toNat * b.toNat)

def sub (a b : Word) : Checked Word :=
  if b ≤ a then .ok (a - b) else .error .overflow

def shiftLeft (a : Word) (amount : Nat) : Checked Word :=
  if amount < 32 then .ok (a <<< UInt32.ofNat amount) else .error (.shift amount 32)

def shiftRight (a : Word) (amount : Nat) : Checked Word :=
  if amount < 32 then .ok (a >>> UInt32.ofNat amount) else .error (.shift amount 32)

/-- A number as a double word. -/
def doubleWord (number : Nat) : Checked UInt64 :=
  if number < 2 ^ 64 then .ok (UInt64.ofNat number) else .error .overflow

def addDouble (a b : UInt64) : Checked UInt64 :=
  doubleWord (a.toNat + b.toNat)

def mulDouble (a b : UInt64) : Checked UInt64 :=
  doubleWord (a.toNat * b.toNat)

def shiftLeftDouble (a : UInt64) (amount : Nat) : Checked UInt64 :=
  if amount < 64 then .ok (a <<< UInt64.ofNat amount) else .error (.shift amount 64)

def shiftRightDouble (a : UInt64) (amount : Nat) : Checked UInt64 :=
  if amount < 64 then .ok (a >>> UInt64.ofNat amount) else .error (.shift amount 64)

theorem mul_eq_ok (h : a.toNat * b.toNat < 2 ^ 32) : mul a b = .ok (a * b) := by
  rw [mul, word, if_pos h, UInt32.ofNat_mul, UInt32.ofNat_toNat, UInt32.ofNat_toNat]

theorem sub_eq_ok (h : b.toNat ≤ a.toNat) :
    sub a b = .ok (a - b) ∧ (a - b).toNat = a.toNat - b.toNat :=
  have hle := UInt32.le_iff_toNat_le.mpr h
  ⟨if_pos hle, UInt32.toNat_sub_of_le a b hle⟩

theorem shiftLeft_eq_ok (a : Word) (h : b.toNat < 32) : shiftLeft a b.toNat = .ok (a <<< b) := by
  rw [shiftLeft, if_pos h, UInt32.ofNat_toNat]

theorem shiftRight_eq_ok (a : Word) (h : b.toNat < 32) : shiftRight a b.toNat = .ok (a >>> b) := by
  rw [shiftRight, if_pos h, UInt32.ofNat_toNat]

theorem addDouble_eq_ok {a b : UInt64} (h : a.toNat + b.toNat < 2 ^ 64) :
    addDouble a b = .ok (a + b) := by
  rw [addDouble, doubleWord, if_pos h, UInt64.ofNat_add, UInt64.ofNat_toNat, UInt64.ofNat_toNat]

theorem addDouble_ofNat {position : UInt64} {count : Nat} (h : position.toNat + count < 2 ^ 64) :
    addDouble position (UInt64.ofNat count) = .ok (UInt64.ofNat (position.toNat + count)) ∧
      (UInt64.ofNat (position.toNat + count)).toNat = position.toNat + count := by
  have hcount : (UInt64.ofNat count).toNat = count :=
    UInt64.toNat_ofNat_of_lt' (Nat.lt_of_le_of_lt (Nat.le_add_left _ _) h)
  rw [addDouble, hcount, doubleWord, if_pos h]
  exact ⟨rfl, UInt64.toNat_ofNat_of_lt' h⟩

/-- The product of two words is a double word. -/
theorem mulDouble_eq_ok (a b : Word) :
    mulDouble a.toUInt64 b.toUInt64 = .ok (a.toUInt64 * b.toUInt64) := by
  have hlt : a.toUInt64.toNat * b.toUInt64.toNat < 2 ^ 64 := by
    rw [UInt32.toNat_toUInt64, UInt32.toNat_toUInt64]
    calc
      a.toNat * b.toNat < 2 ^ 32 * 2 ^ 32 := Nat.mul_lt_mul'' a.toNat_lt b.toNat_lt
      _ = 2 ^ 64 := by decide
  rw [mulDouble, doubleWord, if_pos hlt, UInt64.ofNat_mul, UInt64.ofNat_toNat, UInt64.ofNat_toNat]

end Checked

/-! ## The bytes of a word -/

namespace Word

/-- Byte `lane` of a word, for lanes that may be too high. -/
def checkedByte (word lane : Word) : Checked Byte := do
  let amount ← Checked.mul 8 lane
  let shifted ← Checked.shiftRight word amount.toNat
  return shifted.toUInt8

/-- Replace byte `lane` of a word, for lanes that may be too high. -/
def checkedSetByte (word lane : Word) (value : Byte) : Checked Word := do
  let amount ← Checked.mul 8 lane
  let mask ← Checked.shiftLeft 0xFF amount.toNat
  let shifted ← Checked.shiftLeft value.toUInt32 amount.toNat
  return (word &&& ~~~mask) ||| shifted

/-- Put bytes into a word, the first one at a given place. -/
def checkedJoin (value place : Word) : List Byte → Checked Word
  | [] => .ok value
  | byte :: rest => do
      let amount ← Checked.mul 8 place
      let shifted ← Checked.shiftLeft byte.toUInt32 amount.toNat
      checkedJoin (value ||| shifted) (place + 1) rest

/-- Take bytes out of a word, the first one from a given place. -/
def checkedSplit (value place : Word) : (count : Nat) → Checked (List Byte)
  | 0 => .ok []
  | count + 1 => do
      let amount ← Checked.mul 8 place
      let shifted ← Checked.shiftRight value amount.toNat
      let rest ← checkedSplit value (place + 1) count
      return shifted.toUInt8 :: rest

variable {lane : Word}

theorem toNat_amount (h : lane.toNat < 4) : (8 * lane).toNat = 8 * lane.toNat := by
  have height : (8 : Word).toNat = 8 := rfl
  rw [UInt32.toNat_mul, height, Nat.mod_eq_of_lt (by omega)]

/-- The lanes of a word are less than its width above its start. -/
theorem exists_amount (h : lane.toNat < 4) :
    Checked.mul 8 lane = .ok (8 * lane) ∧ (8 * lane).toNat < 32 := by
  have height : (8 : Word).toNat = 8 := rfl
  refine ⟨Checked.mul_eq_ok ?_, ?_⟩
  · rw [height]
    omega
  · rw [toNat_amount h]
    omega

theorem checkedByte_eq_ok (word : Word) (h : lane.toNat < 4) :
    word.checkedByte lane = .ok (word.byte ⟨lane.toNat, h⟩) := by
  obtain ⟨hmul, hlt⟩ := exists_amount h
  rw [checkedByte, hmul, Checked.ok_bind, Checked.shiftRight_eq_ok word hlt, byte, UInt32.ofNat_toNat]
  rfl

/-- The lane behind the last one is out of reach. -/
example (word : Word) : word.checkedByte 4 = .error (.shift 32 32) := rfl

theorem checkedSetByte_eq_ok (word : Word) (h : lane.toNat < 4) (value : Byte) :
    word.checkedSetByte lane value = .ok (word.setByte ⟨lane.toNat, h⟩ value) := by
  obtain ⟨hmul, hlt⟩ := exists_amount h
  rw [checkedSetByte, hmul, Checked.ok_bind, Checked.shiftLeft_eq_ok 0xFF hlt, Checked.ok_bind,
    Checked.shiftLeft_eq_ok _ hlt, setByte, UInt32.ofNat_toNat]
  rfl

theorem toNat_succ (h : lane.toNat < 4) : (lane + 1).toNat = lane.toNat + 1 := by
  have hone : (1 : Word).toNat = 1 := rfl
  rw [UInt32.toNat_add, hone, Nat.mod_eq_of_lt (by omega)]

/-- Going up to the next lane is going up by a byte more. -/
theorem shiftLeft_next (word : Word) (h : lane.toNat + 1 < 4) :
    word <<< (8 * (lane + 1)) = (word <<< 8) <<< (8 * lane) := by
  have hlane : lane.toNat < 4 := Nat.lt_of_succ_lt h
  have hnext : 8 * (lane + 1) = 8 + 8 * lane := by
    apply UInt32.toNat_inj.mp
    simp only [UInt32.toNat_mul, UInt32.toNat_add, UInt32.reduceToNat]
    omega
  have hlt : ∀ {lane : Word}, lane.toNat < 4 → 8 * lane < 32 := fun h =>
    UInt32.lt_iff_toNat_lt.mpr (exists_amount h).2
  rw [hnext]
  refine UInt32.shiftLeft_add (by decide) (hlt hlane) ?_
  rw [← hnext]
  exact hlt ((toNat_succ hlane).symm ▸ h)

/-- Going down from the next lane is going down by a byte more. -/
theorem shiftRight_next (word : Word) (h : lane.toNat + 1 < 4) :
    word >>> (8 * (lane + 1)) = (word >>> (8 * lane)) >>> 8 := by
  have hlane : lane.toNat < 4 := Nat.lt_of_succ_lt h
  have hnext : (8 * (lane + 1)).toNat = 8 * lane.toNat + 8 := by
    have hsucc := toNat_succ hlane
    rw [toNat_amount (by omega), hsucc, Nat.mul_succ]
  have height : (8 : Word).toNat % 32 = 8 := rfl
  apply UInt32.toNat_inj.mp
  rw [UInt32.toNat_shiftRight, UInt32.toNat_shiftRight, UInt32.toNat_shiftRight, hnext,
    toNat_amount hlane, height, ← Nat.shiftRight_add, Nat.mod_eq_of_lt (by omega),
    Nat.mod_eq_of_lt (by omega)]

/-- Four bytes can be put into a word one by one, each above those before it. -/
theorem checkedJoin_eq_ok (value place : Word) (bytes : List Byte)
    (h : place.toNat + bytes.length ≤ 4) :
    checkedJoin value place bytes = .ok (value ||| (ofBytes bytes <<< (8 * place))) := by
  induction bytes generalizing value place with
  | nil => rw [checkedJoin, ofBytes, UInt32.zero_shiftLeft, UInt32.or_zero]
  | cons byte rest ih =>
      rw [List.length_cons] at h
      obtain ⟨hmul, hlt⟩ := exists_amount (show place.toNat < 4 by omega)
      have hnext := toNat_succ (show place.toNat < 4 by omega)
      rw [checkedJoin, hmul, Checked.ok_bind, Checked.shiftLeft_eq_ok _ hlt, Checked.ok_bind,
        ih _ _ (by omega), ofBytes, UInt32.shiftLeft_or, UInt32.or_assoc]
      -- Behind the last byte there may be no lane any more, but nothing is put there either.
      cases rest with
      | nil => simp [ofBytes]
      | cons next others =>
          rw [List.length_cons] at h
          rw [shiftLeft_next _ (by omega)]

theorem checkedJoin_zero {bytes : List Byte} (h : bytes.length ≤ 4) :
    checkedJoin 0 0 bytes = .ok (ofBytes bytes) := by
  rw [checkedJoin_eq_ok 0 0 bytes (by simpa using h)]
  simp

theorem checkedSplit_eq_ok (value place : Word) (count : Nat) (h : place.toNat + count ≤ 4) :
    checkedSplit value place count = .ok (toBytes count (value >>> (8 * place))) := by
  induction count generalizing place with
  | zero => rfl
  | succ count ih =>
      obtain ⟨hmul, hlt⟩ := exists_amount (show place.toNat < 4 by omega)
      have hnext := toNat_succ (show place.toNat < 4 by omega)
      rw [checkedSplit, hmul, Checked.ok_bind, Checked.shiftRight_eq_ok _ hlt, Checked.ok_bind,
        ih _ (by omega), toBytes]
      cases count with
      | zero => rfl
      | succ count =>
          rw [shiftRight_next value (by omega)]
          rfl

theorem checkedSplit_zero (value : Word) {count : Nat} (h : count ≤ 4) :
    checkedSplit value 0 count = .ok (toBytes count value) := by
  rw [checkedSplit_eq_ok value 0 count (by simpa using h)]
  simp

end Word

/-! ## Words in arrays -/

namespace Checked

variable {size : Nat} {base offset : Word}

/-- The place of a word and the lane of its byte, for bytes at an offset behind the start of an array. -/
def locate (base offset : Word) : Checked (Nat × Word) := do
  let relative ← sub offset base
  return ((relative / 4).toNat, relative % 4)

/-- The byte at a place and a lane of an array of words. -/
def laneByte (words : Vector Word size) (located : Nat × Word) : Checked Byte := do
  let word ← element words located.1
  word.checkedByte located.2

/-- Replace the byte at a place and a lane of an array of words. -/
def setLaneByte (words : Vector Word size) (located : Nat × Word) (value : Byte) :
    Checked (Vector Word size) := do
  let word ← element words located.1
  let changed ← word.checkedSetByte located.2 value
  replace words located.1 changed

theorem toNat_relative (h : base.toNat ≤ offset.toNat) :
    ((offset - base) / 4).toNat = (offset.toNat - base.toNat) / 4 ∧
      ((offset - base) % 4).toNat = (offset.toNat - base.toNat) % 4 := by
  have hfour : (4 : Word).toNat = 4 := rfl
  rw [UInt32.toNat_div, UInt32.toNat_mod, (sub_eq_ok h).2, hfour]
  exact ⟨rfl, rfl⟩

theorem locate_eq_ok (h : base.toNat ≤ offset.toNat) :
    locate base offset = .ok ((offset.toNat - base.toNat) / 4, (offset - base) % 4) := by
  rw [locate, (sub_eq_ok h).1, ok_bind, (toNat_relative h).1]
  rfl

/-- Offsets that lie in an array of words reach the bytes of the array. -/
theorem laneByte_eq_ok (words : Vector Word size) (h : base.toNat ≤ offset.toNat)
    (hplace : (offset.toNat - base.toNat) / 4 < size)
    (hlane : (offset.toNat - base.toNat) % 4 < 4) :
    (locate base offset >>= laneByte words) =
      .ok (words[(offset.toNat - base.toNat) / 4].byte ⟨(offset.toNat - base.toNat) % 4, hlane⟩) := by
  have hmod := (toNat_relative h).2
  rw [locate_eq_ok h, ok_bind, laneByte, element_eq_ok words hplace, ok_bind,
    Word.checkedByte_eq_ok _ (hmod ▸ hlane)]
  simp only [hmod]

theorem setLaneByte_eq_ok (words : Vector Word size) (value : Byte) (h : base.toNat ≤ offset.toNat)
    (hplace : (offset.toNat - base.toNat) / 4 < size)
    (hlane : (offset.toNat - base.toNat) % 4 < 4) :
    (locate base offset >>= (setLaneByte words · value)) =
      .ok (words.set ((offset.toNat - base.toNat) / 4)
        (words[(offset.toNat - base.toNat) / 4].setByte
          ⟨(offset.toNat - base.toNat) % 4, hlane⟩ value)) := by
  have hmod := (toNat_relative h).2
  rw [locate_eq_ok h, ok_bind, setLaneByte, element_eq_ok words hplace, ok_bind,
    Word.checkedSetByte_eq_ok _ (hmod ▸ hlane), ok_bind, replace_eq_ok words hplace]
  simp only [hmod]

end Checked

/-! ## The arithmetic unit -/

namespace ArithmeticResult

variable (a b : Word)

/-- The first word shifted left by the second, where no shift is made by as much as the width. -/
def checkedShiftLeft : Checked ArithmeticResult := do
  let value := (Checked.shiftLeft a b.toNat).toOption.getD 0
  if b = 0 ∨ a = 0 then return { value }
  else if 32 ≤ b then return { value, carry := true }
  else do
    let amount ← Checked.sub 32 b
    let shiftedOut ← Checked.shiftRight a amount.toNat
    return { value, carry := shiftedOut != 0 }

def checkedShiftRight : Checked ArithmeticResult :=
  return { value := (Checked.shiftRight a b.toNat).toOption.getD 0 }

/-- The product, cut to a word after it was made as a double word. -/
def checkedProduct : Checked ArithmeticResult := do
  let wide ← Checked.mulDouble a.toUInt64 b.toUInt64
  return {
    value := wide.toUInt32
    carry := 0xFFFFFFFF < wide
    overflow := exceedsSigned (a.toInt32.toInt64 * b.toInt32.toInt64) }

theorem getD_checked_shiftLeft :
    (Checked.shiftLeft a b.toNat).toOption.getD 0 = if b < 32 then a <<< b else 0 := by
  by_cases hlt : b.toNat < 32
  · rw [Checked.shiftLeft_eq_ok a hlt, if_pos (UInt32.lt_iff_toNat_lt.mpr hlt)]
    rfl
  · rw [Checked.shiftLeft, if_neg hlt, if_neg (mt UInt32.lt_iff_toNat_lt.mp hlt)]
    rfl

theorem getD_checked_shiftRight :
    (Checked.shiftRight a b.toNat).toOption.getD 0 = if b < 32 then a >>> b else 0 := by
  by_cases hlt : b.toNat < 32
  · rw [Checked.shiftRight_eq_ok a hlt, if_pos (UInt32.lt_iff_toNat_lt.mpr hlt)]
    rfl
  · rw [Checked.shiftRight, if_neg hlt, if_neg (mt UInt32.lt_iff_toNat_lt.mp hlt)]
    rfl

/-- The bits that are shifted out are looked at only where the shift is neither by nothing nor by the
whole width. -/
theorem checkedShiftLeft_eq_ok : checkedShiftLeft a b = .ok (shiftLeft a b) := by
  rw [checkedShiftLeft, getD_checked_shiftLeft, shiftLeft]
  by_cases hzero : b = 0 ∨ a = 0
  · rw [if_pos hzero]
    rcases hzero with rfl | rfl <;> simp [pure, Except.pure]
  · -- What is left of the width above the shift is an amount below the width, as the shift is not zero.
    obtain ⟨hb, ha⟩ := not_or.mp hzero
    have hpos : 0 < b := UInt32.pos_iff_ne_zero.mpr hb
    rw [if_neg hzero]
    by_cases hle : 32 ≤ b
    · simp [hle, hpos, ha, pure, Except.pure]
    · have hwidth : (32 : Word).toNat = 32 := rfl
      have hlt : b.toNat < 32 := by simpa [UInt32.le_iff_toNat_le, hwidth] using hle
      obtain ⟨hsub, hnat⟩ := Checked.sub_eq_ok (show b.toNat ≤ (32 : Word).toNat from Nat.le_of_lt hlt)
      have hroom : (32 - b).toNat < 32 := by
        rw [hnat, hwidth]
        exact Nat.sub_lt (by decide) (UInt32.lt_iff_toNat_lt.mp hpos)
      rw [if_neg hle, hsub, Checked.ok_bind, Checked.shiftRight_eq_ok a hroom]
      simp [hpos, ha, hle, pure, Except.pure]

theorem checkedShiftRight_eq_ok : checkedShiftRight a b = .ok (shiftRight a b) := by
  rw [checkedShiftRight, getD_checked_shiftRight]
  rfl

theorem checkedProduct_eq_ok : checkedProduct a b = .ok (product a b) := by
  rw [checkedProduct, Checked.mulDouble_eq_ok, Checked.ok_bind, product, UInt64.toUInt32_mul,
    UInt32.toUInt32_toUInt64, UInt32.toUInt32_toUInt64]
  rfl

end ArithmeticResult

namespace ArithmeticOp

/-- Apply an operation with every shift and product checked. Sums and differences wrap around by
definition, and divisors of zero have no result. -/
def checkedResult? (a b : Word) : ArithmeticOp → Checked (Option ArithmeticResult)
  | shl => return some (← ArithmeticResult.checkedShiftLeft a b)
  | shr => return some (← ArithmeticResult.checkedShiftRight a b)
  | mul => return some (← ArithmeticResult.checkedProduct a b)
  | op => return op.result? a b

/-- No operation of the arithmetic unit traps, whatever its operands. -/
theorem checkedResult?_eq_ok (op : ArithmeticOp) (a b : Word) :
    op.checkedResult? a b = .ok (op.result? a b) := by
  cases op with
  | shl => rw [checkedResult?, ArithmeticResult.checkedShiftLeft_eq_ok]; rfl
  | shr => rw [checkedResult?, ArithmeticResult.checkedShiftRight_eq_ok]; rfl
  | mul => rw [checkedResult?, ArithmeticResult.checkedProduct_eq_ok]; rfl
  | _ => rfl

end ArithmeticOp

end TinyComputer
