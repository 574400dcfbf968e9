import Mathlib.Algebra.Group.Nat.Defs
import Mathlib.Data.List.TakeDrop
import TinyComputer.Instruction.Width

/-!
# Little-endian words

The bytes of a word are its digits in base 256, least significant first. Both directions are
inverse on up to four bytes: `ofBytes` after `toBytes` keeps the low bytes of a word, `toBytes` after
`ofBytes` gives the bytes back, with zeros where they ran out. A value fits a width exactly when its
digits do.
-/

namespace TinyComputer

namespace Word

/-- Dropping the lowest byte divides by the base. -/
theorem toNat_shiftRight_eight (word : Word) : (word >>> 8).toNat = word.toNat / 256 := by
  simp only [UInt32.toNat_shiftRight, Nat.shiftRight_eq_div_pow, UInt32.reduceToNat, Nat.reduceMod,
    Nat.reducePow]

/-- The first byte is the lowest digit; the others move up by one place. -/
theorem toNat_ofBytes_cons (byte : Byte) (rest : List Byte) :
    (ofBytes (byte :: rest)).toNat = byte.toNat + 256 * ((ofBytes rest).toNat % 2 ^ 24) := by
  have hbyte := byte.toNat_lt
  have hshift : (ofBytes rest <<< 8).toNat = ((ofBytes rest).toNat % 2 ^ 24) <<< 8 := by
    simp only [UInt32.toNat_shiftLeft, Nat.shiftLeft_eq, UInt32.reduceToNat, Nat.reduceMod,
      Nat.reducePow]
    omega
  rw [ofBytes, UInt32.toNat_or, hshift, UInt8.toNat_toUInt32, Nat.or_comm,
    ← Nat.shiftLeft_add_eq_or_of_lt hbyte]
  omega

theorem toNat_ofBytes_lt (bytes : List Byte) : (ofBytes bytes).toNat < 256 ^ bytes.length := by
  induction bytes with
  | nil => decide
  | cons byte rest ih =>
      have hbyte := byte.toNat_lt
      have hmod := Nat.mod_le (ofBytes rest).toNat (2 ^ 24)
      rw [toNat_ofBytes_cons, List.length_cons, Nat.pow_succ]
      omega

/-- As long as no digit is lost, the others are multiplied by the base. -/
theorem toNat_ofBytes_cons_of_lt (byte : Byte) {rest : List Byte} (hlength : rest.length < 4) :
    (ofBytes (byte :: rest)).toNat = byte.toNat + 256 * (ofBytes rest).toNat := by
  have hlt : (ofBytes rest).toNat < 2 ^ 24 :=
    calc
      (ofBytes rest).toNat < 256 ^ rest.length := toNat_ofBytes_lt rest
      _ ≤ 256 ^ 3 := Nat.pow_le_pow_right (by decide) (by omega)
      _ = 2 ^ 24 := by decide
  rw [toNat_ofBytes_cons, Nat.mod_eq_of_lt hlt]

@[simp] theorem toUInt8_ofBytes_cons (byte : Byte) (rest : List Byte) :
    (ofBytes (byte :: rest)).toUInt8 = byte := by
  have hbyte := byte.toNat_lt
  apply UInt8.toNat_inj.mp
  rw [UInt32.toNat_toUInt8, toNat_ofBytes_cons]
  omega

theorem ofBytes_cons_shiftRight (byte : Byte) {rest : List Byte} (hlength : rest.length < 4) :
    ofBytes (byte :: rest) >>> 8 = ofBytes rest := by
  have hbyte := byte.toNat_lt
  apply UInt32.toNat_inj.mp
  rw [toNat_shiftRight_eight, toNat_ofBytes_cons_of_lt byte hlength]
  omega

@[simp] theorem toBytes_zero (count : Nat) : toBytes count 0 = List.replicate count 0 := by
  induction count with
  | zero => rfl
  | succ count ih =>
      rw [toBytes, List.replicate_succ, UInt32.zero_shiftRight, ih]
      rfl

/-- The digits of a number read from at most four bytes are these bytes. Bytes that are missing count
as zero. -/
theorem toBytes_ofBytes_take {count : Nat} (hcount : count ≤ 4) (bytes : List Byte) :
    toBytes count (ofBytes (bytes.take count)) = bytes.takeD count 0 := by
  induction count generalizing bytes with
  | zero => rfl
  | succ count ih =>
      cases bytes with
      | nil => rw [List.take_nil, List.takeD_nil, ofBytes, toBytes_zero]
      | cons byte rest =>
          have hlength : (rest.take count).length < 4 := by
            rw [List.length_take]
            omega
          rw [List.take_succ_cons, toBytes, toUInt8_ofBytes_cons,
            ofBytes_cons_shiftRight byte hlength, ih (by omega), List.takeD_succ]
          rfl

/-- The number read from the low bytes of a word is the word without its other bytes. -/
theorem toNat_ofBytes_toBytes {count : Nat} (hcount : count ≤ 4) (word : Word) :
    (ofBytes (toBytes count word)).toNat = word.toNat % 256 ^ count := by
  induction count generalizing word with
  | zero => simp [toBytes, ofBytes, Nat.mod_one]
  | succ count ih =>
      have hlength : (toBytes count (word >>> 8)).length < 4 := by
        rw [length_toBytes]
        omega
      calc
        (ofBytes (toBytes (count + 1) word)).toNat
            = word.toNat % 256 + 256 * (word.toNat / 256 % 256 ^ count) := by
          rw [toBytes, toNat_ofBytes_cons_of_lt _ hlength, ih (by omega), toNat_shiftRight_eight,
            UInt32.toNat_toUInt8]
        _ = word.toNat % (256 * 256 ^ count) := Nat.mod_mul.symm
        _ = word.toNat % 256 ^ (count + 1) := by rw [Nat.pow_succ']

@[simp] theorem ofBytes_toBytes_four (word : Word) : ofBytes (toBytes 4 word) = word := by
  have hword := word.toNat_lt
  apply UInt32.toNat_inj.mp
  rw [toNat_ofBytes_toBytes (Nat.le_refl 4)]
  exact Nat.mod_eq_of_lt (by simpa using hword)

/-- A lane is a digit. -/
theorem toNat_byte (word : Word) (lane : Fin 4) :
    (word.byte lane).toNat = word.toNat / 256 ^ (lane : Nat) % 256 := by
  have hshift : (8 * UInt32.ofNat lane).toNat % 32 = 8 * lane := by
    revert lane
    decide
  rw [byte, UInt32.toNat_toUInt8, UInt32.toNat_shiftRight, hshift, Nat.shiftRight_eq_div_pow,
    Nat.pow_mul]

theorem toBytes_four (word : Word) :
    toBytes 4 word = [word.byte 0, word.byte 1, word.byte 2, word.byte 3] := by
  have hbyte : ∀ {first second : Byte}, first = second ↔ first.toNat = second.toNat :=
    UInt8.toNat_inj.symm
  have hzero : 256 ^ ((0 : Fin 4) : Nat) = 1 := rfl
  have hone : 256 ^ ((1 : Fin 4) : Nat) = 256 := rfl
  have htwo : 256 ^ ((2 : Fin 4) : Nat) = 256 * 256 := rfl
  have hthree : 256 ^ ((3 : Fin 4) : Nat) = 256 * (256 * 256) := rfl
  simp only [toBytes, List.cons.injEq, hbyte, toNat_byte, UInt32.toNat_toUInt8,
    toNat_shiftRight_eight, Nat.div_div_eq_div_mul, hzero, hone, htwo, hthree, Nat.div_one,
    Nat.reducePow, and_self]

/-- The lanes of a word make up the word. -/
@[simp] theorem ofBytes_lanes (word : Word) :
    ofBytes [word.byte 0, word.byte 1, word.byte 2, word.byte 3] = word := by
  rw [← toBytes_four, ofBytes_toBytes_four]

/-- The shift to a lane, as the word operations take it. -/
theorem toBitVec_shift (lane : Fin 4) :
    (8 * UInt32.ofNat lane).toBitVec % 32 = BitVec.ofNat 32 (8 * lane) := by
  revert lane
  decide

theorem getLsbD_byte (word : Word) (lane : Fin 4) (i : Nat) :
    (word.byte lane).toBitVec.getLsbD i =
      (decide (i < 8) && word.toBitVec.getLsbD (8 * lane + i)) := by
  have hlane : 8 * (lane : Nat) % 2 ^ 32 = 8 * lane := by omega
  simp only [byte, UInt32.toBitVec_toUInt8, UInt32.toBitVec_shiftRight, toBitVec_shift,
    BitVec.getLsbD_setWidth, BitVec.ushiftRight_eq', BitVec.toNat_ofNat, hlane,
    BitVec.getLsbD_ushiftRight]

/-- Setting a lane replaces the eight bits of the lane and no others. -/
theorem getLsbD_setByte (word : Word) (lane : Fin 4) (value : Byte) {i : Nat} (hi : i < 32) :
    (word.setByte lane value).toBitVec.getLsbD i =
      if 8 * lane ≤ i ∧ i < 8 * lane + 8 then value.toBitVec.getLsbD (i - 8 * lane)
      else word.toBitVec.getLsbD i := by
  have hlane : 8 * (lane : Nat) % 2 ^ 32 = 8 * lane := by omega
  have hmask : ∀ place, (0xFF : Word).toBitVec.getLsbD place = decide (place < 8) := by
    intro place
    have hones : (0xFF : Word).toBitVec = BitVec.setWidth 32 (BitVec.allOnes 8) := by decide
    rw [hones, BitVec.getLsbD_setWidth, BitVec.getLsbD_allOnes]
    by_cases hplace : place < 8
    · simp [hplace]
      omega
    · simp [hplace]
  simp only [setByte, UInt32.toBitVec_or, UInt32.toBitVec_and, UInt32.toBitVec_not,
    UInt32.toBitVec_shiftLeft, toBitVec_shift, BitVec.shiftLeft_eq', BitVec.toNat_ofNat, hlane,
    BitVec.getLsbD_or, BitVec.getLsbD_and, BitVec.getLsbD_not, BitVec.getLsbD_shiftLeft,
    UInt8.toBitVec_toUInt32, BitVec.getLsbD_setWidth]
  have hplace : i - 8 * lane < 32 := by omega
  simp only [hmask, hi, hplace, decide_true, Bool.true_and]
  by_cases hlow : i < 8 * lane
  · rw [if_neg (by omega)]
    simp [hlow]
  · by_cases hhigh : i < 8 * lane + 8
    · have hinside : i - 8 * lane < 8 := by omega
      rw [if_pos (by omega)]
      simp [hlow, hinside]
    · have hbeyond : ¬ i - 8 * lane < 8 := by omega
      rw [if_neg (by omega), BitVec.getLsbD_of_ge value.toBitVec _ (by omega)]
      simp [hbeyond]

/-- The lanes of a word are set one by one. -/
theorem byte_setByte (word : Word) (lane other : Fin 4) (value : Byte) :
    (word.setByte lane value).byte other = if other = lane then value else word.byte other := by
  apply UInt8.toBitVec_inj.mp
  apply BitVec.eq_of_getLsbD_eq
  intro i hi
  rw [getLsbD_byte, getLsbD_setByte word lane value (by omega)]
  by_cases hother : other = lane
  · subst hother
    rw [if_pos (by omega), if_pos rfl, Nat.add_sub_cancel_left]
    simp [hi]
  · have hval : (other : Nat) ≠ lane := fun h => hother (Fin.ext h)
    rw [if_neg (by omega), if_neg hother, getLsbD_byte]

end Word

namespace Width

theorem bytes_le (width : Width) : width.bytes ≤ 4 := by
  cases width <;> decide

/-- Masking a value keeps its low bytes. -/
theorem toNat_and_mask (width : Width) (value : Word) :
    (value &&& width.mask).toNat = value.toNat % 256 ^ width.bytes := by
  rw [UInt32.toNat_and]
  cases width with
  | w8 => exact Nat.and_two_pow_sub_one_eq_mod value.toNat 8
  | w16 => exact Nat.and_two_pow_sub_one_eq_mod value.toNat 16
  | w32 => exact Nat.and_two_pow_sub_one_eq_mod value.toNat 32

/-- Nothing of a word is above the mask of all its bytes. -/
theorem and_mask_w32 (value : Word) : value &&& w32.mask = value :=
  UInt32.and_neg_one

/-- A value fits a width when the bytes of this width hold all of it. -/
theorem fits_iff {width : Width} {value : Word} :
    width.fits value = true ↔ value.toNat < 256 ^ width.bytes := by
  have hmask := width.toNat_and_mask value
  rw [fits, beq_iff_eq]
  constructor
  · intro hzero
    have hsplit : value &&& (width.mask ||| ~~~width.mask) =
        (value &&& width.mask) ||| (value &&& ~~~width.mask) :=
      UInt32.toBitVec_inj.mp BitVec.and_or_distrib_left
    rw [UInt32.or_not_self, UInt32.and_neg_one, hzero, UInt32.or_zero] at hsplit
    rw [hsplit, hmask]
    exact Nat.mod_lt _ (Nat.pow_pos (by decide))
  · intro hlt
    have hvalue : value &&& width.mask = value := by
      apply UInt32.toNat_inj.mp
      rw [hmask, Nat.mod_eq_of_lt hlt]
    rw [← hvalue, UInt32.and_assoc, UInt32.and_not_self, UInt32.and_zero]

/-- A value that fits a width is read back from its bytes. -/
theorem ofBytes_toBytes {width : Width} {value : Word} (hfits : width.fits value = true) :
    Word.ofBytes (Word.toBytes width.bytes value) = value := by
  apply UInt32.toNat_inj.mp
  rw [Word.toNat_ofBytes_toBytes width.bytes_le, Nat.mod_eq_of_lt (fits_iff.mp hfits)]

/-- The low bytes of a value make the value under the mask. -/
theorem ofBytes_toBytes_eq_and_mask (width : Width) (value : Word) :
    Word.ofBytes (Word.toBytes width.bytes value) = value &&& width.mask := by
  apply UInt32.toNat_inj.mp
  rw [Word.toNat_ofBytes_toBytes width.bytes_le, toNat_and_mask]

/-- As many bytes as a width has are those of the number that they make. -/
theorem toBytes_ofBytes {width : Width} {bytes : List Byte} (hlength : bytes.length = width.bytes) :
    Word.toBytes width.bytes (Word.ofBytes bytes) = bytes := by
  have hbytes := Word.toBytes_ofBytes_take width.bytes_le bytes
  rw [List.take_of_length_le (Nat.le_of_eq hlength)] at hbytes
  rw [hbytes, ← hlength, List.takeD_eq_take _ (Nat.le_refl _), List.take_length]

/-- What is above the mask does not show in the bytes. -/
theorem toBytes_and_mask (width : Width) (value : Word) :
    Word.toBytes width.bytes (value &&& width.mask) = Word.toBytes width.bytes value := by
  rw [← ofBytes_toBytes_eq_and_mask, toBytes_ofBytes (Word.length_toBytes _ _)]

/-- Fewer bytes than a width has give a value that fits it. -/
theorem fits_ofBytes_take (width : Width) (bytes : List Byte) :
    width.fits (Word.ofBytes (bytes.take width.bytes)) = true := by
  apply fits_iff.mpr
  calc
    (Word.ofBytes (bytes.take width.bytes)).toNat
        < 256 ^ (bytes.take width.bytes).length := Word.toNat_ofBytes_lt _
    _ ≤ 256 ^ width.bytes := Nat.pow_le_pow_right (by decide) (List.length_take_le _ _)

end Width

end TinyComputer
