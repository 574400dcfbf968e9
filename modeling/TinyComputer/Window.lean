import TinyComputer.Word

/-!
# Windows

A window is a contiguous range of addresses, given by its base and its size. It ends before `base +
size`, which may be the bound of the address space or, for windows that are not attached, lie beyond
it. Main fact: two windows with addresses overlap exactly when they share one.
-/

namespace TinyComputer

/-- A contiguous range of addresses. -/
structure Window where
  base : Word
  size : Word
  deriving DecidableEq, Repr

namespace Window

/-- The bound of a window: one more than its last address. -/
def bound (window : Window) : Nat :=
  window.base.toNat + window.size.toNat

/-- Whether an address lies in a window. -/
def contains (window : Window) (address : Word) : Bool :=
  window.base ≤ address && address.toNat < window.bound

/-- Whether each of two windows starts before the other one ends. -/
def overlaps (first second : Window) : Bool :=
  first.base.toNat < second.bound && second.base.toNat < first.bound

theorem contains_iff {window : Window} {address : Word} :
    window.contains address = true ↔
      window.base.toNat ≤ address.toNat ∧ address.toNat < window.bound := by
  simp [contains, UInt32.le_iff_toNat_le]

/-- The offset of an address in its window. -/
theorem toNat_sub_base {window : Window} {address : Word} (h : window.contains address = true) :
    (address - window.base).toNat = address.toNat - window.base.toNat :=
  UInt32.toNat_sub_of_le _ _ (UInt32.le_iff_toNat_le.mpr (contains_iff.mp h).1)

/-- Windows that have addresses overlap exactly when they share one. -/
theorem overlaps_iff {first second : Window} (hfirst : 0 < first.size.toNat)
    (hsecond : 0 < second.size.toNat) :
    first.overlaps second = true ↔
      ∃ address, first.contains address = true ∧ second.contains address = true := by
  have hbound := first.base.toNat_lt
  have hbound' := second.base.toNat_lt
  constructor
  · intro h
    simp only [overlaps, Bool.and_eq_true, decide_eq_true_eq] at h
    rcases Nat.le_total first.base.toNat second.base.toNat with hle | hle
    · exact ⟨second.base, contains_iff.mpr ⟨hle, h.2⟩,
        contains_iff.mpr ⟨Nat.le_refl _, by simp only [bound] at *; omega⟩⟩
    · exact ⟨first.base, contains_iff.mpr ⟨Nat.le_refl _, by simp only [bound] at *; omega⟩,
        contains_iff.mpr ⟨hle, h.1⟩⟩
  · rintro ⟨address, hin, hin'⟩
    rw [contains_iff] at hin hin'
    simp only [overlaps, Bool.and_eq_true, decide_eq_true_eq]
    omega

end Window

end TinyComputer
