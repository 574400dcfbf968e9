import Mathlib.Data.Set.Card
import TinyComputer.Proofs.SymbolTable

/-!
# Histories of symbol tables

What a table holds depends on all that was inserted: one insertion can take away two older pairs, that of
its name and that of its address. A pair is there exactly when nothing that shares its name or its address
was inserted after it. The table stays one to one through all of this, and shows its pairs in the order of
their addresses.
-/

namespace TinyComputer

namespace Symbol

/-- The pair that is kept when a symbol is inserted. -/
def kept (symbol : Symbol) : Symbol :=
  ⟨Symbols.fold symbol.name, symbol.address⟩

/-- A pair takes another one away: it has the same name for another address, or another name for the same
address. -/
def Replaces (newer older : Symbol) : Prop :=
  newer.name = older.name ∧ newer.address ≠ older.address ∨
    newer.address = older.address ∧ newer.name ≠ older.name

theorem apart_iff {newer older : Symbol} :
    newer.Apart older ↔ newer ≠ older ∧ ¬ newer.Replaces older := by
  obtain ⟨name, address⟩ := newer
  obtain ⟨name', address'⟩ := older
  simp only [Apart, Replaces, ne_eq, mk.injEq]
  tauto

end Symbol

namespace Symbols

variable {symbols : Symbols} {added : List Symbol} {symbol pair : Symbol}

/-! ## What is left of a history -/

/-- A pair was inserted, and nothing that was inserted after its last insertion has replaced it. -/
def Survives (added : List Symbol) (pair : Symbol) : Prop :=
  ∃ earlier last later, added = earlier ++ last :: later ∧ last.kept = pair ∧
    (∀ newer ∈ later, newer.kept ≠ pair) ∧ ∀ newer ∈ later, ¬ newer.kept.Replaces pair

/-- The latest insertion leaves its own pair, and of the others those that share nothing with it. -/
theorem survives_append_singleton :
    Survives (added ++ [symbol]) pair ↔
      pair = symbol.kept ∨ Survives added pair ∧ symbol.kept.Apart pair := by
  constructor
  · rintro ⟨earlier, last, later, hadded, rfl, hlast, hlater⟩
    -- The last insertion of the pair is the newest one of all, or the newest one came after it.
    rcases List.eq_nil_or_concat later with rfl | ⟨between, newest, rfl⟩
    · obtain ⟨_, hsame⟩ := List.append_inj' hadded rfl
      obtain rfl := List.singleton_inj.mp hsame
      exact .inl rfl
    · rw [List.concat_eq_append, ← List.cons_append, ← List.append_assoc] at hadded
      obtain ⟨rfl, hsame⟩ := List.append_inj' hadded rfl
      obtain rfl := List.singleton_inj.mp hsame
      rw [List.concat_eq_append, List.forall_mem_append, List.forall_mem_singleton] at hlast hlater
      exact .inr ⟨⟨earlier, last, between, rfl, rfl, hlast.1, hlater.1⟩,
        Symbol.apart_iff.mpr ⟨hlast.2, hlater.2⟩⟩
  · rintro (rfl | ⟨⟨earlier, last, later, rfl, rfl, hlast, hlater⟩, hapart⟩)
    · exact ⟨added, symbol, [], rfl, rfl, by simp, by simp⟩
    · obtain ⟨hne, hkeeps⟩ := Symbol.apart_iff.mp hapart
      refine ⟨earlier, last, later ++ [symbol], by simp, rfl, ?_, ?_⟩
      · exact List.forall_mem_append.mpr ⟨hlast, List.forall_mem_singleton.mpr hne⟩
      · exact List.forall_mem_append.mpr ⟨hlater, List.forall_mem_singleton.mpr hkeeps⟩

/-- A table holds what is left of its history. -/
theorem mem_insertAll_empty : pair ∈ (empty.insertAll added).entries ↔ Survives added pair := by
  induction added using List.reverseRecOn generalizing pair with
  | nil => simp [insertAll, empty, Survives]
  | append_singleton added symbol ih =>
      have hinsert : empty.insertAll (added ++ [symbol]) =
          (empty.insertAll added).insert symbol.name symbol.address :=
        insertAll_append empty added [symbol]
      rw [hinsert, mem_insert, survives_append_singleton, ih]
      refine or_congr_right (and_congr_right fun _ => ?_)
      exact and_congr ne_comm ne_comm

/-! ## Both directions -/

/-- A name and an address that are looked up find the same pairs. -/
theorem OneToOne.address?_eq_some_iff_name? (h : symbols.OneToOne) {name : List Char} {address : Word} :
    symbols.address? name = some address ↔ symbols.name? address = some (fold name) := by
  rw [h.address?_eq_some_iff, h.name?_eq_some_iff]

/-! ## In order -/

theorem mem_sorted : symbol ∈ symbols.sorted ↔ symbol ∈ symbols.entries :=
  (List.mergeSort_perm symbols.entries _).mem_iff

theorem length_sorted (symbols : Symbols) : symbols.sorted.length = symbols.size :=
  (List.mergeSort_perm symbols.entries _).length_eq

theorem sorted_pairwise_le (symbols : Symbols) :
    symbols.sorted.Pairwise fun first second => first.address ≤ second.address := by
  have hsorted : symbols.sorted.Pairwise fun first second =>
      decide (first.address ≤ second.address) = true := by
    apply List.pairwise_mergeSort
    · intro _ _ _ hfirst hsecond
      exact decide_eq_true (UInt32.le_trans (of_decide_eq_true hfirst) (of_decide_eq_true hsecond))
    · intro first second
      simpa using UInt32.le_total first.address second.address
  exact hsorted.imp of_decide_eq_true

/-- No two symbols have the same address, so the order is strict. -/
theorem OneToOne.sorted_pairwise_lt (h : symbols.OneToOne) :
    symbols.sorted.Pairwise fun first second => first.address < second.address := by
  have hapart : symbols.sorted.Pairwise Symbol.Apart :=
    (List.mergeSort_perm symbols.entries _).symm.pairwise h fun hpair => symm hpair
  refine (symbols.sorted_pairwise_le.and hapart).imp ?_
  rintro first second ⟨hle, _, hne⟩
  exact UInt32.lt_of_le_of_ne hle hne

theorem OneToOne.nodup_sorted (h : symbols.OneToOne) : symbols.sorted.Nodup := by
  refine h.sorted_pairwise_lt.imp ?_
  rintro first second hlt rfl
  exact UInt32.lt_irrefl _ hlt

/-- A list without repetitions is as long as the set of its elements is large. -/
theorem OneToOne.ncard_eq_size (h : symbols.OneToOne) :
    {pair | pair ∈ symbols.sorted}.ncard = symbols.size := by
  rw [← List.coe_toFinset, Set.ncard_coe_finset, List.toFinset_card_of_nodup h.nodup_sorted,
    length_sorted]

/-- However symbols are inserted into an empty table, names and addresses stay one to one: a name finds
an address, in any case of its letters, exactly when the address finds the name in upper case. The pairs
of the table are those that were inserted and not replaced after their last insertion. They are listed by
ascending addresses, each of them once, and the size is their number. -/
theorem insertions_stay_one_to_one (added : List Symbol) :
    let symbols := empty.insertAll added
    let Present := fun pair : Symbol => symbols.name? pair.address = some pair.name
    (∀ name address, symbols.address? name = some address ↔
      symbols.name? address = some (fold name)) ∧
    (∀ pair, Present pair ↔ Survives added pair) ∧
    ((∀ pair, pair ∈ symbols.sorted ↔ Present pair) ∧ symbols.sorted.Nodup ∧
      symbols.sorted.Pairwise fun first second => first.address < second.address) ∧
    symbols.size = {pair | Present pair}.ncard ∧ (symbols.size = 0 ↔ symbols.isEmpty = true) := by
  intro symbols Present
  have hone : symbols.OneToOne := oneToOne_empty.insertAll added
  have hpresent : ∀ pair, Present pair ↔ pair ∈ symbols.entries := fun _ => hone.name?_eq_some_iff
  have hlisted : ∀ pair, pair ∈ symbols.sorted ↔ Present pair :=
    fun pair => mem_sorted.trans (hpresent pair).symm
  refine ⟨fun _ _ => hone.address?_eq_some_iff_name?, ?_,
    ⟨hlisted, hone.nodup_sorted, hone.sorted_pairwise_lt⟩, ?_, ?_⟩
  · exact fun pair => (hpresent pair).trans mem_insertAll_empty
  · simp only [← hlisted, hone.ncard_eq_size]
  · rw [size, isEmpty, List.length_eq_zero_iff, List.isEmpty_iff]

/-- A pair that shares its name with one pair and its address with another takes both away. -/
example :
    (empty.insertAll [⟨['x'], 1⟩, ⟨['y'], 2⟩, ⟨['z'], 3⟩, ⟨['X'], 2⟩]).entries =
      [⟨['Z'], 3⟩, ⟨['X'], 2⟩] := by
  decide

end Symbols

end TinyComputer
