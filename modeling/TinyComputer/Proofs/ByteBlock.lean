import TinyComputer.Word

/-!
# Blocks of bytes

A block holds a fixed count of bytes, each at its place. Bytes that are stored one after the other
replace those at their places and no others, and nothing is stored beyond the last place.
-/

namespace TinyComputer

abbrev ByteBlock (size : Nat) := Vector Byte size

namespace ByteBlock

variable {size : Nat}

/-- Put bytes at a place and above it. -/
def store (block : ByteBlock size) (place : Nat) : List Byte → ByteBlock size
  | [] => block
  | byte :: rest => store (block.setIfInBounds place byte) (place + 1) rest

/-- The bytes at a place and above it. Beyond the last place they are those of `beyond`. -/
def load (block : ByteBlock size) (place count : Nat) (beyond : Nat → Byte) : List Byte :=
  (List.range count).map fun i => block[place + i]?.getD (beyond i)

theorem store_cons (block : ByteBlock size) (place : Nat) (byte : Byte) (rest : List Byte) :
    store block place (byte :: rest) = store (block.setIfInBounds place byte) (place + 1) rest := rfl

theorem load_succ (block : ByteBlock size) (place count : Nat) (beyond : Nat → Byte) :
    load block place (count + 1) beyond =
      block[place]?.getD (beyond 0) :: load block (place + 1) count fun i => beyond (i + 1) := by
  simp only [load, List.range_succ_eq_map, List.map_cons, List.map_map, Function.comp_def,
    Nat.succ_eq_add_one, Nat.add_right_comm place 1, Nat.add_assoc, Nat.add_zero]

/-- A store replaces the bytes that it names and no others. -/
theorem getElem_store (block : ByteBlock size) (place : Nat) (bytes : List Byte) {i : Nat}
    (hi : i < size) :
    (store block place bytes)[i] =
      if place ≤ i then bytes[i - place]?.getD block[i] else block[i] := by
  induction bytes generalizing block place with
  | nil => simp [store]
  | cons byte rest ih =>
      rw [store, ih, Vector.getElem_setIfInBounds]
      rcases Nat.lt_trichotomy place i with hlt | rfl | hgt
      · have hsub : i - place = i - (place + 1) + 1 := by omega
        rw [if_pos (show place + 1 ≤ i from hlt), if_neg (Nat.ne_of_lt hlt), if_pos (Nat.le_of_lt hlt),
          hsub, List.getElem?_cons_succ]
      · rw [if_neg (Nat.not_succ_le_self place), if_pos rfl, if_pos (Nat.le_refl place), Nat.sub_self]
        rfl
      · rw [if_neg (show ¬ place + 1 ≤ i by omega), if_neg (Nat.ne_of_gt hgt),
          if_neg (Nat.not_le.mpr hgt)]

theorem getElem_store_of_not {block : ByteBlock size} {place : Nat} {bytes : List Byte} {i : Fin size}
    (hnot : i < place ∨ place + bytes.length ≤ i) : (store block place bytes)[i] = block[i] := by
  refine (getElem_store block place bytes i.isLt).trans ?_
  split
  next hle =>
    rw [List.getElem?_eq_none (by omega)]
    rfl
  next => rfl

/-- Only bytes that have a place are stored. -/
theorem store_take (block : ByteBlock size) (place : Nat) (bytes : List Byte) :
    store block place (bytes.take (size - place)) = store block place bytes := by
  apply Vector.ext
  intro i hi
  rw [getElem_store _ _ _ hi, getElem_store _ _ _ hi]
  split
  next hle => rw [List.getElem?_take_of_lt (by omega)]
  next => rfl

/-- What lies beyond the last place matters to no load that ends before it. -/
theorem load_congr {block : ByteBlock size} {place count : Nat} (hfits : place + count ≤ size)
    {beyond beyond' : Nat → Byte} :
    load block place count beyond = load block place count beyond' := by
  apply List.map_congr_left
  intro i hi
  have hcount := List.mem_range.mp hi
  rw [Vector.getElem?_eq_getElem (show place + i < size by omega)]
  rfl

end ByteBlock

end TinyComputer
