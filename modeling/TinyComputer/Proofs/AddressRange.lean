import TinyComputer.Word

/-!
# Ranges of addresses

Accesses of several bytes go through consecutive addresses, and the address space wraps around. An
address is in a range when its distance from the base of the range, modulo the size of the address
space, is below the count of addresses.
-/

namespace TinyComputer

namespace Word

/-- The addresses from `base` upwards, `count` of them. They may wrap around. -/
def Within (base : Word) (count : Nat) (address : Word) : Prop :=
  (address - base).toNat < count

instance (base : Word) (count : Nat) (address : Word) : Decidable (Within base count address) :=
  inferInstanceAs (Decidable (_ < _))

/-- The distance of an address that is given by its distance. -/
theorem add_sub_self (base offset : Word) : base + offset - base = offset := by
  rw [UInt32.add_comm, UInt32.add_sub_cancel]

theorem toNat_sub_add_one {base address : Word} (hne : address ≠ base) :
    (address - base).toNat = (address - (base + 1)).toNat + 1 := by
  have hbase := base.toNat_lt
  have haddress := address.toNat_lt
  have hnat : address.toNat ≠ base.toNat := fun h => hne (UInt32.toNat_inj.mp h)
  simp only [UInt32.toNat_sub, UInt32.toNat_add, UInt32.reduceToNat]
  omega

theorem within_succ {base address : Word} {count : Nat} :
    Within base (count + 1) address ↔ address = base ∨ Within (base + 1) count address := by
  unfold Within
  by_cases heq : address = base
  · simp [heq]
  · rw [toNat_sub_add_one heq]
    simp [heq]

/-- A range is checked address by address. -/
theorem forall_within {base : Word} {count : Nat} {p : Word → Prop}
    (h : ∀ offset < count, p (base + UInt32.ofNat offset)) :
    ∀ address, Within base count address → p address := by
  intro address hwithin
  have haddress := h (address - base).toNat hwithin
  rw [UInt32.ofNat_toNat, UInt32.add_comm, UInt32.sub_add_cancel] at haddress
  exact haddress

/-- Distances from two bases differ by the distance of the bases, modulo the word size. -/
theorem toNat_sub_eq_mod (base offset address : Word) :
    (address - base).toNat =
      ((address - (base + offset)).toNat + offset.toNat) % wordBound := by
  have hbase := base.toNat_lt
  have haddress := address.toNat_lt
  have hoffset := offset.toNat_lt
  simp only [UInt32.toNat_sub, UInt32.toNat_add, Nat.reducePow, wordBound]
  omega

theorem within_of_within_add {base offset address : Word} {count total : Nat}
    (h : Within (base + offset) count address) (htotal : offset.toNat + count ≤ total) :
    Within base total address := by
  unfold Within at h ⊢
  have hmod := Nat.mod_le ((address - (base + offset)).toNat + offset.toNat) wordBound
  rw [toNat_sub_eq_mod base offset]
  omega

/-- Addresses above a range are not in it, as long as nothing wraps around. -/
theorem not_within_of_within_add {base offset address : Word} {count : Nat}
    (h : Within (base + offset) count address) (htotal : offset.toNat + count ≤ wordBound) :
    ¬ Within base offset.toNat address := by
  unfold Within at h ⊢
  have hlt : (address - (base + offset)).toNat + offset.toNat < wordBound := by omega
  rw [toNat_sub_eq_mod base offset, Nat.mod_eq_of_lt hlt]
  omega

theorem sub_ofNat_sub_ofNat (word : Word) (first second : Nat) :
    word - UInt32.ofNat first - UInt32.ofNat second = word - UInt32.ofNat (first + second) := by
  rw [UInt32.ofNat_add]
  grind

theorem sub_ofNat_add_ofNat (word : Word) (first second : Nat) :
    word - UInt32.ofNat (first + second) + UInt32.ofNat second = word - UInt32.ofNat first := by
  rw [UInt32.ofNat_add]
  grind

/-- A range below a top is part of any longer one. -/
theorem within_below {top address : Word} {size count total : Nat}
    (h : Within (top - UInt32.ofNat count) size address) (hsize : size ≤ count)
    (hcount : count ≤ total) : Within (top - UInt32.ofNat total) total address := by
  have hbase := sub_ofNat_add_ofNat top count (total - count)
  have hoffset : (UInt32.ofNat (total - count)).toNat ≤ total - count := Nat.mod_le _ _
  rw [Nat.add_sub_cancel' hcount] at hbase
  rw [← hbase] at h
  exact within_of_within_add h (by omega)

/-- A range that reaches up to a top does not meet the one right below it. -/
theorem not_within_below {top address : Word} {count size : Nat}
    (h : Within (top - UInt32.ofNat count) count address) (hsize : size < wordBound)
    (hbound : count + size ≤ wordBound) :
    ¬ Within (top - UInt32.ofNat (count + size)) size address := by
  have hoffset : (UInt32.ofNat size).toNat = size := Nat.mod_eq_of_lt hsize
  rw [← sub_ofNat_add_ofNat top count size] at h
  have hnot := not_within_of_within_add h (by omega)
  rwa [hoffset] at hnot

theorem sub_four_sub_four (word : Word) : word - 4 - 4 = word - 8 := by
  have hword := word.toNat_lt
  apply UInt32.toNat_inj.mp
  simp only [UInt32.toNat_sub, UInt32.reduceToNat]
  omega

theorem sub_eight_add_four (word : Word) : word - 8 + 4 = word - 4 := by
  rw [← sub_four_sub_four, UInt32.sub_add_cancel]

end Word

end TinyComputer
