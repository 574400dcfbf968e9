import TinyComputer.Word

/-!
# Breakpoints

A set of addresses, kept in ascending order, so that it has one representation and is shown in
order. Main facts: what is in the set after an insertion or a removal.
-/

namespace TinyComputer

/-- A set of addresses. -/
structure Breakpoints where
  addresses : List Word
  ascending : addresses.Pairwise (· < ·)
  deriving DecidableEq, Repr

namespace Breakpoints

def empty : Breakpoints :=
  ⟨[], .nil⟩

def contains (breakpoints : Breakpoints) (address : Word) : Bool :=
  breakpoints.addresses.contains address

/-- Put an address into an ascending list. -/
def insertInto (address : Word) : List Word → List Word
  | [] => [address]
  | first :: rest =>
      if address < first then address :: first :: rest
      else if address = first then first :: rest
      else first :: insertInto address rest

theorem mem_insertInto {address other : Word} {addresses : List Word} :
    other ∈ insertInto address addresses ↔ other = address ∨ other ∈ addresses := by
  induction addresses with
  | nil => simp [insertInto]
  | cons first rest ih =>
      rw [insertInto]
      split
      · simp
      · split
        next heq => simp [heq]
        next => simp only [List.mem_cons, ih]; exact or_left_comm

theorem pairwise_insertInto {address : Word} {addresses : List Word}
    (h : addresses.Pairwise (· < ·)) : (insertInto address addresses).Pairwise (· < ·) := by
  induction addresses with
  | nil => simp [insertInto]
  | cons first rest ih =>
      obtain ⟨hfirst, hrest⟩ := List.pairwise_cons.mp h
      rw [insertInto]
      split
      next hlt =>
        refine List.pairwise_cons.mpr ⟨List.forall_mem_cons.mpr ⟨hlt, ?_⟩, h⟩
        intro other hother
        exact UInt32.lt_trans hlt (hfirst other hother)
      next hge =>
        split
        · exact h
        next hne =>
          refine List.pairwise_cons.mpr ⟨?_, ih hrest⟩
          intro other hother
          rcases mem_insertInto.mp hother with rfl | hmem
          · exact UInt32.lt_of_le_of_ne (UInt32.not_lt.mp hge) (Ne.symm hne)
          · exact hfirst other hmem

def insert (breakpoints : Breakpoints) (address : Word) : Breakpoints :=
  ⟨insertInto address breakpoints.addresses, pairwise_insertInto breakpoints.ascending⟩

def erase (breakpoints : Breakpoints) (address : Word) : Breakpoints :=
  ⟨breakpoints.addresses.filter (· != address), breakpoints.ascending.filter _⟩

@[simp] theorem contains_insert (breakpoints : Breakpoints) (address other : Word) :
    (breakpoints.insert address).contains other =
      (other == address || breakpoints.contains other) := by
  rw [Bool.eq_iff_iff]
  simp [insert, contains, mem_insertInto]

@[simp] theorem contains_erase (breakpoints : Breakpoints) (address other : Word) :
    (breakpoints.erase address).contains other =
      (other != address && breakpoints.contains other) := by
  rw [Bool.eq_iff_iff]
  simp [erase, contains, and_comm]

end Breakpoints

end TinyComputer
