import Mathlib.Algebra.Group.Int.Defs
import TinyComputer.Proofs.Execution

/-!
# Arithmetic without a bound

The arithmetic unit works on words, by wrapped sums, shifted words and sign bits. What it gives is the
arithmetic of unbounded numbers: the result modulo the size of a word, a carry where the unsigned result
is no word, and an overflow where the signed one is none.
-/

namespace TinyComputer

namespace Word

/-- The number that a word stands for in two's complement. -/
def signed (word : Word) : Int :=
  word.toBitVec.toInt

/-- The numbers that words stand for in two's complement. -/
def FitsSigned (number : Int) : Prop :=
  -2 ^ 31 ≤ number ∧ number < 2 ^ 31

instance (number : Int) : Decidable (FitsSigned number) :=
  inferInstanceAs (Decidable (_ ∧ _))

theorem signed_eq (word : Word) :
    word.signed = if word.toNat < 2 ^ 31 then (word.toNat : Int) else word.toNat - 2 ^ 32 := by
  have hsigned : word.signed =
      if 2 * word.toNat < 2 ^ 32 then (word.toNat : Int) else word.toNat - 2 ^ 32 :=
    BitVec.toInt_eq_toNat_cond word.toBitVec
  rw [hsigned]
  split <;> split <;> omega

theorem fitsSigned_signed (word : Word) : FitsSigned word.signed := by
  have hword := word.toNat_lt
  rw [FitsSigned, signed_eq]
  split <;> omega

end Word

namespace ArithmeticResult

open Word

variable (a b : Word)

/-! ## Sums and differences -/

theorem sum_carry_iff : (sum a b).carry = true ↔ 2 ^ 32 ≤ a.toNat + b.toNat := by
  have ha := a.toNat_lt
  have hb := b.toNat_lt
  simp only [sum, decide_eq_true_eq, UInt32.lt_iff_toNat_lt, UInt32.toNat_add]
  omega

theorem sum_overflow_iff : (sum a b).overflow = true ↔ ¬ FitsSigned (a.signed + b.signed) := by
  have hbits : (sum a b).overflow = a.toBitVec.saddOverflow b.toBitVec := by
    rw [BitVec.saddOverflow_eq, ← UInt32.toBitVec_add]
    simp only [sum, negative_eq_msb]
    rfl
  rw [hbits]
  simp only [BitVec.saddOverflow, Bool.or_eq_true, decide_eq_true_eq, FitsSigned, signed]
  omega

theorem difference_value :
    ((difference a b).value.toNat : Int) = ((a.toNat : Int) - b.toNat) % 2 ^ 32 := by
  have ha := a.toNat_lt
  have hb := b.toNat_lt
  simp only [difference, UInt32.toNat_sub]
  omega

theorem difference_carry_iff : (difference a b).carry = true ↔ a.toNat < b.toNat := by
  simp only [difference, decide_eq_true_eq, UInt32.lt_iff_toNat_lt]

theorem difference_overflow_iff :
    (difference a b).overflow = true ↔ ¬ FitsSigned (a.signed - b.signed) := by
  have hbits : (difference a b).overflow = a.toBitVec.ssubOverflow b.toBitVec := by
    rw [BitVec.ssubOverflow_eq, ← UInt32.toBitVec_sub]
    simp only [difference, negative_eq_msb]
    cases a.toBitVec.msb <;> cases b.toBitVec.msb <;> cases (a - b).toBitVec.msb <;> rfl
  rw [hbits]
  simp only [BitVec.ssubOverflow, Bool.or_eq_true, decide_eq_true_eq, FitsSigned, signed]
  omega

/-! ## Products -/

theorem product_carry_iff : (product a b).carry = true ↔ 2 ^ 32 ≤ a.toNat * b.toNat := by
  have hlt : a.toNat * b.toNat < 2 ^ 64 :=
    calc
      a.toNat * b.toNat < 2 ^ 32 * 2 ^ 32 := Nat.mul_lt_mul'' a.toNat_lt b.toNat_lt
      _ = 2 ^ 64 := by decide
  have hproduct : (a.toUInt64 * b.toUInt64).toNat = a.toNat * b.toNat := by
    rw [UInt64.toNat_mul, UInt32.toNat_toUInt64, UInt32.toNat_toUInt64, Nat.mod_eq_of_lt hlt]
  simp only [product, decide_eq_true_eq, UInt64.lt_iff_toNat_lt, hproduct, UInt64.reduceToNat]
  omega

/-- The product of two signed words is far from the bounds of a double word. -/
theorem toInt_signedProduct : (a.toInt32.toInt64 * b.toInt32.toInt64).toInt = a.signed * b.signed := by
  have ha := a.fitsSigned_signed
  have hb := b.fitsSigned_signed
  have hbound : (a.signed * b.signed).natAbs ≤ 2 ^ 31 * 2 ^ 31 := by
    rw [Int.natAbs_mul]
    exact Nat.mul_le_mul (by rw [FitsSigned] at ha; omega) (by rw [FitsSigned] at hb; omega)
  rw [Int64.toInt_mul, Int32.toInt_toInt64, Int32.toInt_toInt64]
  change (a.signed * b.signed).bmod (2 ^ 64) = _
  exact Int.bmod_eq_of_le (by omega) (by omega)

theorem product_overflow_iff :
    (product a b).overflow = true ↔ ¬ FitsSigned (a.signed * b.signed) := by
  simp only [product, exceedsSigned, bne_iff_ne, ne_eq, ← Int64.toInt_inj, Int32.toInt_toInt64,
    Int64.toInt_toInt32, toInt_signedProduct, FitsSigned]
  apply not_congr
  constructor
  · -- A product that is kept by cutting it to a word is the number of that word.
    intro h
    have hle := Int.le_bmod (x := a.signed * b.signed) (m := 2 ^ 32) (by decide)
    have hlt := Int.bmod_lt (x := a.signed * b.signed) (m := 2 ^ 32) (by decide)
    omega
  · rintro ⟨hle, hlt⟩
    exact Int.bmod_eq_of_le (by omega) (by omega)

/-! ## Shifts -/

variable {b} in
theorem lt_width_iff : b < 32 ↔ b.toNat < 32 :=
  UInt32.lt_iff_toNat_lt

variable {b} in
/-- A shift by a word or more leaves nothing of a word. -/
theorem two_pow_dvd (h : ¬ b < 32) : 2 ^ 32 ∣ 2 ^ b.toNat :=
  Nat.pow_dvd_pow 2 (Nat.not_lt.mp (mt lt_width_iff.mpr h))

theorem shiftLeft_value : (shiftLeft a b).value.toNat = a.toNat * 2 ^ b.toNat % 2 ^ 32 := by
  simp only [shiftLeft]
  split
  next hlt =>
    rw [UInt32.toNat_shiftLeft, Nat.mod_eq_of_lt (lt_width_iff.mp hlt), Nat.shiftLeft_eq]
  next hge =>
    exact (Nat.mod_eq_zero_of_dvd (Nat.dvd_mul_left_of_dvd (two_pow_dvd hge) _)).symm

theorem shiftRight_value : (shiftRight a b).value.toNat = a.toNat / 2 ^ b.toNat := by
  simp only [shiftRight]
  split
  next hlt =>
    rw [UInt32.toNat_shiftRight, Nat.mod_eq_of_lt (lt_width_iff.mp hlt), Nat.shiftRight_eq_div_pow]
  next hge =>
    have hle : 2 ^ 32 ≤ 2 ^ b.toNat := Nat.le_of_dvd (Nat.two_pow_pos _) (two_pow_dvd hge)
    exact (Nat.div_eq_of_lt (Nat.lt_of_lt_of_le a.toNat_lt hle)).symm

/-- The bits that a shift by less than a word shifts out are those that the opposite shift keeps. -/
theorem shiftedOut_iff {a b : Word} (hpos : 0 < b.toNat) (hlt : b.toNat < 32) :
    a >>> (32 - b) ≠ 0 ↔ 2 ^ 32 ≤ a.toNat * 2 ^ b.toNat := by
  have hcount : (32 - b).toNat % 32 = 32 - b.toNat := by
    simp only [UInt32.toNat_sub, UInt32.reduceToNat]
    omega
  have hsplit : 2 ^ (32 - b.toNat) * 2 ^ b.toNat = 2 ^ 32 := by
    rw [← Nat.pow_add, Nat.sub_add_cancel (Nat.le_of_lt hlt)]
  have hpower := Nat.two_pow_pos (32 - b.toNat)
  rw [ne_eq, ← UInt32.toNat_inj, UInt32.toNat_shiftRight, hcount, Nat.shiftRight_eq_div_pow, ← hsplit,
    Nat.mul_le_mul_right_iff (Nat.two_pow_pos _), UInt32.toNat_zero, Nat.div_eq_zero_iff]
  omega

theorem shiftLeft_carry_iff : (shiftLeft a b).carry = true ↔ 2 ^ 32 ≤ a.toNat * 2 ^ b.toNat := by
  have hcarry : (shiftLeft a b).carry = true ↔
      0 < b.toNat ∧ a.toNat ≠ 0 ∧ (32 ≤ b.toNat ∨ a >>> (32 - b) ≠ 0) := by
    have hzero : a ≠ 0 ↔ a.toNat ≠ 0 := not_congr UInt32.toNat_inj.symm
    simp only [shiftLeft, Bool.and_eq_true, Bool.or_eq_true, decide_eq_true_eq, bne_iff_ne, hzero,
      and_assoc]
    rfl
  have hne : 2 ^ 32 ≤ a.toNat * 2 ^ b.toNat → a.toNat ≠ 0 := by
    intro hcarried hzero
    rw [hzero, Nat.zero_mul] at hcarried
    omega
  rw [hcarry]
  -- Only for counts between zero and 32 does the opposite shift tell which bits are lost.
  rcases Nat.eq_zero_or_pos b.toNat with hnone | hpos
  · have ha := a.toNat_lt
    rw [hnone]
    omega
  · rcases Nat.lt_or_ge b.toNat 32 with hlt | hge
    · rw [shiftedOut_iff hpos hlt]
      constructor
      · rintro ⟨_, _, hlarge | hcarried⟩
        · exact absurd hlarge (Nat.not_le.mpr hlt)
        · exact hcarried
      · exact fun hcarried => ⟨hpos, hne hcarried, .inr hcarried⟩
    · have hpower : 2 ^ 32 ≤ 2 ^ b.toNat := Nat.pow_le_pow_right (by decide) hge
      constructor
      · rintro ⟨_, hfirst, _⟩
        exact Nat.le_trans hpower (Nat.le_mul_of_pos_left _ (Nat.pos_of_ne_zero hfirst))
      · exact fun hcarried => ⟨hpos, hne hcarried, .inl hge⟩

end ArithmeticResult

namespace ArithmeticOp

open Word

variable {op : ArithmeticOp} {a b : Word} {result : ArithmeticResult}

/-! ## Every operation -/

/-- The result that an operation has among the unbounded numbers. Where no carry or overflow is defined,
there is none. -/
def Exact (a b : Word) (result : ArithmeticResult) : ArithmeticOp → Prop
  | add =>
      result.value.toNat = (a.toNat + b.toNat) % 2 ^ 32 ∧
      (result.carry = true ↔ 2 ^ 32 ≤ a.toNat + b.toNat) ∧
      (result.overflow = true ↔ ¬ FitsSigned (a.signed + b.signed))
  | sub =>
      (result.value.toNat : Int) = ((a.toNat : Int) - b.toNat) % 2 ^ 32 ∧
      (result.carry = true ↔ a.toNat < b.toNat) ∧
      (result.overflow = true ↔ ¬ FitsSigned (a.signed - b.signed))
  | mul =>
      result.value.toNat = a.toNat * b.toNat % 2 ^ 32 ∧
      (result.carry = true ↔ 2 ^ 32 ≤ a.toNat * b.toNat) ∧
      (result.overflow = true ↔ ¬ FitsSigned (a.signed * b.signed))
  | shl =>
      result.value.toNat = a.toNat * 2 ^ b.toNat % 2 ^ 32 ∧
      (result.carry = true ↔ 2 ^ 32 ≤ a.toNat * 2 ^ b.toNat) ∧ result.overflow = false
  | shr =>
      result.value.toNat = a.toNat / 2 ^ b.toNat ∧ result.carry = false ∧ result.overflow = false
  | idiv =>
      0 < b.toNat ∧ result.value.toNat = a.toNat / b.toNat ∧
      result.carry = false ∧ result.overflow = false
  | mod =>
      0 < b.toNat ∧ result.value.toNat = a.toNat % b.toNat ∧
      result.carry = false ∧ result.overflow = false
  | or =>
      result.value.toNat = a.toNat ||| b.toNat ∧ result.carry = false ∧ result.overflow = false
  | xor =>
      result.value.toNat = a.toNat ^^^ b.toNat ∧ result.carry = false ∧ result.overflow = false
  | and =>
      result.value.toNat = a.toNat &&& b.toNat ∧ result.carry = false ∧ result.overflow = false

/-- A division that has a result does not divide by zero. -/
theorem divisor_ne_zero (hdivision : op = .idiv ∨ op = .mod) (h : op.result? a b = some result) :
    b ≠ 0 := by
  intro hzero
  rw [result?_eq_none_iff.mpr ⟨hdivision, hzero⟩] at h
  contradiction

theorem exact_of_result? (h : op.result? a b = some result) : op.Exact a b result := by
  cases op with
  | add =>
      obtain rfl := Option.some.inj h
      exact ⟨UInt32.toNat_add a b, ArithmeticResult.sum_carry_iff a b,
        ArithmeticResult.sum_overflow_iff a b⟩
  | sub =>
      obtain rfl := Option.some.inj h
      exact ⟨ArithmeticResult.difference_value a b, ArithmeticResult.difference_carry_iff a b,
        ArithmeticResult.difference_overflow_iff a b⟩
  | mul =>
      obtain rfl := Option.some.inj h
      exact ⟨UInt32.toNat_mul a b, ArithmeticResult.product_carry_iff a b,
        ArithmeticResult.product_overflow_iff a b⟩
  | shl =>
      obtain rfl := Option.some.inj h
      exact ⟨ArithmeticResult.shiftLeft_value a b, ArithmeticResult.shiftLeft_carry_iff a b, rfl⟩
  | shr =>
      obtain rfl := Option.some.inj h
      exact ⟨ArithmeticResult.shiftRight_value a b, rfl, rfl⟩
  | idiv =>
      have hne := divisor_ne_zero (.inl rfl) h
      rw [result?, if_neg (mt beq_iff_eq.mp hne)] at h
      obtain rfl := Option.some.inj h
      exact ⟨UInt32.pos_iff_ne_zero.mpr hne, UInt32.toNat_div a b, rfl, rfl⟩
  | mod =>
      have hne := divisor_ne_zero (.inr rfl) h
      rw [result?, if_neg (mt beq_iff_eq.mp hne)] at h
      obtain rfl := Option.some.inj h
      exact ⟨UInt32.pos_iff_ne_zero.mpr hne, UInt32.toNat_mod a b, rfl, rfl⟩
  | or =>
      obtain rfl := Option.some.inj h
      exact ⟨UInt32.toNat_or a b, rfl, rfl⟩
  | xor =>
      obtain rfl := Option.some.inj h
      exact ⟨UInt32.toNat_xor a b, rfl, rfl⟩
  | and =>
      obtain rfl := Option.some.inj h
      exact ⟨UInt32.toNat_and a b, rfl, rfl⟩

/-- Quotient and remainder are those of the division with remainder. -/
theorem exists_quotient_remainder (hne : b ≠ 0) :
    ∃ quotient remainder, idiv.result? a b = some quotient ∧ mod.result? a b = some remainder ∧
      a.toNat = quotient.value.toNat * b.toNat + remainder.value.toNat ∧
      remainder.value.toNat < b.toNat := by
  obtain ⟨quotient, hquotient⟩ : ∃ quotient, idiv.result? a b = some quotient :=
    Option.ne_none_iff_exists'.mp fun hnone => hne (result?_eq_none_iff.mp hnone).2
  obtain ⟨remainder, hremainder⟩ : ∃ remainder, mod.result? a b = some remainder :=
    Option.ne_none_iff_exists'.mp fun hnone => hne (result?_eq_none_iff.mp hnone).2
  obtain ⟨hpos, hvalue, _⟩ := exact_of_result? hquotient
  obtain ⟨_, hrest, _⟩ := exact_of_result? hremainder
  refine ⟨quotient, remainder, hquotient, hremainder, ?_, ?_⟩
  · rw [hvalue, hrest, Nat.div_add_mod']
  · rw [hrest]
    exact Nat.mod_lt _ hpos

end ArithmeticOp

namespace Board

variable {board : Board} {instruction : Instruction} {calculation : Calculation}
  {result : ArithmeticResult}

theorem op_of_cmp (hcompares : instruction.mnemonic = .cmp)
    (h : board.calculation? instruction = some calculation) : calculation.op = .sub := by
  unfold calculation? at h
  rw [hcompares] at h
  split at h
  next hmnemonic _ => contradiction
  next => rw [← Option.some.inj h]
  next hmnemonic _ => contradiction
  next hmnemonic _ => contradiction
  next => contradiction

/-- What an instruction that calculates leaves: the flags describe the result and the register holds it.
A comparison leaves the registers as they are. -/
theorem exists_executes_calculation
    (hfetch : (board.fetch (board.register .pc)).1 = .ok instruction)
    (hcalculation : (board.advanced instruction).calculation? instruction = some calculation)
    (hresult : calculation.result? = some result) (hne : calculation.register ≠ .fl) :
    ∃ executed, board.Executes instruction executed ∧ executed.flags.Describe result ∧
      if instruction.mnemonic = .cmp then
        ∀ r, r ≠ .fl → executed.register r = (board.advanced instruction).register r
      else executed.register calculation.register = result.value := by
  refine ⟨_, ⟨hfetch, execute_of_calculation? hcalculation hresult⟩, ?_⟩
  by_cases hcompares : instruction.mnemonic = .cmp
  · obtain rfl : .difference calculation.a calculation.b = result := by
      rw [Calculation.result?, op_of_cmp hcompares hcalculation] at hresult
      exact Option.some.inj hresult
    rw [if_pos hcompares, if_pos hcompares]
    exact ⟨describe_compare _ _ _, fun r hne => register_compare_of_ne _ _ _ hne⟩
  · rw [if_neg hcompares, if_neg hcompares, flags_setResult hne]
    exact ⟨Flags.describe_setResult _ _, register_setResult_self⟩

/-- The arithmetic unit is exact: every operation has the result that it has among the unbounded numbers,
but a division by zero has none. An instruction that calculates has the operands of one operation, and
unless that divides by zero, it leaves the flags that describe the result and the register that holds it.
Comparisons replace no register but the flags. -/
theorem arithmetic_is_exact :
    (∀ (op : ArithmeticOp) a b result, op.result? a b = some result → op.Exact a b result) ∧
    (∀ (op : ArithmeticOp) a b, op.result? a b = none ↔ (op = .idiv ∨ op = .mod) ∧ b = 0) ∧
    (∀ a b : Word, b ≠ 0 → ∃ quotient remainder,
      ArithmeticOp.idiv.result? a b = some quotient ∧ ArithmeticOp.mod.result? a b = some remainder ∧
      a.toNat = quotient.value.toNat * b.toNat + remainder.value.toNat ∧
      remainder.value.toNat < b.toNat) ∧
    ∀ (board : Board) (instruction : Instruction),
      (board.fetch (board.register .pc)).1 = .ok instruction →
      instruction.mnemonic.calculates = true →
      ∃ calculation, (board.advanced instruction).calculation? instruction = some calculation ∧
        ∀ result, calculation.result? = some result → calculation.register ≠ .fl →
          ∃ executed, board.Executes instruction executed ∧ executed.flags.Describe result ∧
            if instruction.mnemonic = .cmp then
              ∀ r, r ≠ .fl → executed.register r = (board.advanced instruction).register r
            else executed.register calculation.register = result.value := by
  refine ⟨?_, ?_, ?_, ?_⟩
  · exact fun _ _ _ _ h => ArithmeticOp.exact_of_result? h
  · exact fun _ _ _ => ArithmeticOp.result?_eq_none_iff
  · exact fun _ _ hne => ArithmeticOp.exists_quotient_remainder hne
  · intro board instruction hfetch hcalculates
    have hwell : instruction.WellFormed := wellFormed_of_fetch (Prod.ext hfetch rfl)
    obtain ⟨calculation, hcalculation⟩ := exists_calculation? hwell hcalculates
    refine ⟨calculation, hcalculation, ?_⟩
    intro result hresult hne
    exact exists_executes_calculation hfetch hcalculation hresult hne

/-- Three is shifted left by 31, which leaves one of its bits, and by 32, which leaves none. -/
theorem arithmetic_is_exact_for_wide_shifts :
    let board : Board :=
      { empty {} with
        registers := RegisterFile.zero.write .a 3
        bindings := #[⟨⟨0, 3⟩, .memory ⟨#[0x3A, 0, 32]⟩⟩] }
    let instruction : Instruction :=
      ⟨⟨0x3A, .arithmetic .shl, [.register, .immediate .w8]⟩, [.register .a, .immediate 32 .w8]⟩
    ArithmeticOp.shl.Exact 3 31 ⟨0x80000000, true, false⟩ ∧
    (board.fetch (board.register .pc)).1 = .ok instruction ∧ instruction.mnemonic.calculates = true ∧
    ∃ executed, board.Executes instruction executed ∧ executed.flags.Describe ⟨0, true, false⟩ ∧
      executed.register .a = 0 := by
  intro board instruction
  obtain ⟨hexact, _, _, hexecutes⟩ := arithmetic_is_exact
  have hfetch : (board.fetch (board.register .pc)).1 = .ok instruction := by decide +kernel
  have hcalculates : instruction.mnemonic.calculates = true := rfl
  refine ⟨hexact .shl 3 31 _ (by decide), hfetch, hcalculates, ?_⟩
  obtain ⟨calculation, hcalculation, hcalculated⟩ := hexecutes board instruction hfetch hcalculates
  obtain rfl : ⟨.shl, .a, 3, 32⟩ = calculation :=
    Option.some.inj ((by decide +kernel : _ = some _).symm.trans hcalculation)
  exact hcalculated _ (by decide +kernel) (by decide)

end Board

end TinyComputer
