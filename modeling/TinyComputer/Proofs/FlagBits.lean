import Mathlib.Algebra.Group.Nat.Defs
import TinyComputer.Processor.Arithmetic

/-!
# Flags one by one

Every flag has a bit of `FL` of its own. Writing a flag gives it the value that is written and keeps
all other bits, those above the flags included. A result is described by five flags, each of which says
one thing of the result, and nothing of these flags is left over from before.
-/

namespace TinyComputer

namespace Word

/-- The sign is the most significant bit. -/
theorem negative_eq_msb (word : Word) : word.negative = word.toBitVec.msb := by
  have hbit : (word &&& 0x80000000).toBitVec =
      if word.toBitVec.msb then BitVec.twoPow 32 31 else 0#32 := by
    rw [BitVec.msb_eq_getLsbD_last]
    exact BitVec.and_twoPow word.toBitVec 31
  rw [negative]
  cases hmsb : word.toBitVec.msb with
  | true =>
      rw [hmsb, if_pos rfl] at hbit
      rw [bne_iff_ne]
      intro h
      rw [h] at hbit
      exact absurd hbit (by decide)
  | false =>
      rw [hmsb, if_neg Bool.false_ne_true] at hbit
      rw [bne_eq_false_iff_eq]
      exact UInt32.toBitVec_inj.mp hbit

theorem negative_iff {word : Word} : word.negative = true ↔ 2 ^ 31 ≤ word.toNat := by
  rw [negative_eq_msb, BitVec.msb_eq_decide, decide_eq_true_eq]
  rfl

end Word

namespace Flag

/-- No two flags share a bit. -/
theorem mask_and_mask {flag other : Flag} (hne : flag ≠ other) : flag.mask &&& other.mask = 0 := by
  revert hne
  cases flag <;> cases other <;> decide

end Flag

namespace Flags

/-- What a word has in common with bits that a flag does not have is not changed by writing the flag. -/
theorem and_set {flag : Flag} {bits : Word} (h : flag.mask &&& bits = 0) (flags : Flags)
    (value : Bool) : (flags.set flag value).bits &&& bits = flags.bits &&& bits := by
  cases value with
  | true =>
      have hsplit : (flags.bits ||| flag.mask) &&& bits = flags.bits &&& bits ||| flag.mask &&& bits :=
        UInt32.toBitVec_inj.mp BitVec.and_or_distrib_right
      exact hsplit.trans (by rw [h, UInt32.or_zero])
  | false =>
      -- Bits that have nothing of the mask are in what is left by clearing it.
      have hoff : ~~~flag.mask &&& bits = bits := by
        have hsplit : (flag.mask ||| ~~~flag.mask) &&& bits =
            flag.mask &&& bits ||| ~~~flag.mask &&& bits :=
          UInt32.toBitVec_inj.mp BitVec.and_or_distrib_right
        rw [UInt32.or_not_self, h, UInt32.zero_or, UInt32.and_comm, UInt32.and_neg_one] at hsplit
        exact hsplit.symm
      change flags.bits &&& ~~~flag.mask &&& bits = flags.bits &&& bits
      rw [UInt32.and_assoc, hoff]

@[simp] theorem get_set_self (flags : Flags) (flag : Flag) (value : Bool) :
    (flags.set flag value).get flag = value := by
  cases value with
  | true =>
      have hsplit : (flags.bits ||| flag.mask) &&& flag.mask =
          flags.bits &&& flag.mask ||| flag.mask &&& flag.mask :=
        UInt32.toBitVec_inj.mp BitVec.and_or_distrib_right
      have hmask : flag.mask ≠ 0 := by cases flag <;> decide
      change ((flags.bits ||| flag.mask) &&& flag.mask != 0) = true
      rw [hsplit, UInt32.and_self, bne_iff_ne, ne_eq, UInt32.or_eq_zero_iff]
      exact fun h => hmask h.2
  | false =>
      change (flags.bits &&& ~~~flag.mask &&& flag.mask != 0) = false
      rw [UInt32.and_assoc, UInt32.not_and_self, UInt32.and_zero]
      rfl

theorem get_set_of_ne (flags : Flags) {written flag : Flag} (value : Bool) (hne : flag ≠ written) :
    (flags.set written value).get flag = flags.get flag := by
  rw [get, anySet, and_set (Flag.mask_and_mask hne.symm)]
  rfl

/-- The flags that describe a result. -/
def resultFlags : List Flag :=
  [.carry, .overflow, .zero, .sign, .even]

/-- The flags that tell the order of two words. -/
def comparisonFlags : List Flag :=
  [.greater, .less]

/-- Two words of flags that are the same but for some flags. -/
def AgreeBut (written : List Flag) (before after : Flags) : Prop :=
  ∀ bits : Word, (∀ flag ∈ written, flag.mask &&& bits = 0) →
    after.bits &&& bits = before.bits &&& bits

namespace AgreeBut

variable {written : List Flag} {before middle after : Flags}

theorem refl (written : List Flag) (flags : Flags) : AgreeBut written flags flags :=
  fun _ _ => rfl

theorem set (h : AgreeBut written before after) {flag : Flag} (hmem : flag ∈ written) (value : Bool) :
    AgreeBut written before (after.set flag value) := by
  intro bits hapart
  rw [and_set (hapart flag hmem)]
  exact h bits hapart

theorem trans (hfirst : AgreeBut written before middle) (hsecond : AgreeBut written middle after) :
    AgreeBut written before after :=
  fun bits hapart => (hsecond bits hapart).trans (hfirst bits hapart)

theorem mono {wider : List Flag} (h : AgreeBut written before after) (hsub : written ⊆ wider) :
    AgreeBut wider before after :=
  fun bits hapart => h bits fun flag hmem => hapart flag (hsub hmem)

/-- Flags that are not written keep their values. -/
theorem get_eq (h : AgreeBut written before after) {flag : Flag} (hnot : flag ∉ written) :
    after.get flag = before.get flag := by
  rw [get, get, anySet, anySet, h]
  intro other hmem
  exact Flag.mask_and_mask (ne_of_mem_of_not_mem hmem hnot)

end AgreeBut

/-- The five flags that describe a result say of it what is so: its carry and overflow, whether it is
zero, its bit 31, and whether it is even. -/
structure Describe (flags : Flags) (result : ArithmeticResult) : Prop where
  carry_eq : flags.get .carry = result.carry
  overflow_eq : flags.get .overflow = result.overflow
  zero_iff : flags.get .zero = true ↔ result.value.toNat = 0
  sign_iff : flags.get .sign = true ↔ 2 ^ 31 ≤ result.value.toNat
  even_iff : flags.get .even = true ↔ result.value.toNat % 2 = 0

theorem agreeBut_setResult (flags : Flags) (result : Word) (carry overflow : Bool) :
    AgreeBut resultFlags flags (flags.setResult result carry overflow) := by
  have hmem : ∀ flag ∈ resultFlags, flag ∈ resultFlags := fun _ h => h
  simp only [resultFlags, List.forall_mem_cons] at hmem
  obtain ⟨hcarry, hoverflow, hzero, hsign, heven, _⟩ := hmem
  exact ((((AgreeBut.refl _ flags).set hcarry _).set hoverflow _).set hzero _ |>.set hsign _).set heven _

/-- Writing the flags of a result describes it, whatever the flags were. -/
theorem describe_setResult (flags : Flags) (result : ArithmeticResult) :
    (flags.setResult result.value result.carry result.overflow).Describe result := by
  refine ⟨?_, ?_, ?_, ?_, ?_⟩
  all_goals simp only [setResult, get_set_self, get_set_of_ne, ne_eq, reduceCtorEq, not_false_eq_true]
  · rw [beq_iff_eq, ← UInt32.toNat_inj]
    rfl
  · exact Word.negative_iff
  · rw [beq_iff_eq, ← UInt32.toNat_inj, UInt32.toNat_mod]
    rfl

/-- Flags that agree in what describes a result describe the same. -/
theorem Describe.of_agreeBut {before after : Flags} {result : ArithmeticResult} {written : List Flag}
    (h : before.Describe result) (hagree : AgreeBut written before after)
    (hapart : ∀ flag ∈ resultFlags, flag ∉ written) : after.Describe result := by
  have hget : ∀ flag ∈ resultFlags, after.get flag = before.get flag :=
    fun flag hmem => hagree.get_eq (hapart flag hmem)
  simp only [resultFlags, List.forall_mem_cons] at hget
  obtain ⟨hcarry, hoverflow, hzero, hsign, heven, _⟩ := hget
  refine ⟨?_, ?_, ?_, ?_, ?_⟩
  · rw [hcarry, h.carry_eq]
  · rw [hoverflow, h.overflow_eq]
  · rw [hzero, h.zero_iff]
  · rw [hsign, h.sign_iff]
  · rw [heven, h.even_iff]

theorem agreeBut_setComparison (flags : Flags) (greater less : Bool) :
    AgreeBut comparisonFlags flags (flags.setComparison greater less) :=
  ((AgreeBut.refl _ flags).set List.mem_cons_self _).set (List.mem_cons_of_mem _ List.mem_cons_self) _

theorem get_greater_setComparison (flags : Flags) (greater less : Bool) :
    (flags.setComparison greater less).get .greater = greater := by
  rw [setComparison, get_set_of_ne _ _ (by decide), get_set_self]

theorem get_less_setComparison (flags : Flags) (greater less : Bool) :
    (flags.setComparison greater less).get .less = less :=
  get_set_self _ _ _

end Flags

end TinyComputer
