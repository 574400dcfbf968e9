import Mathlib.Data.List.Pairwise
import TinyComputer.Symbols

/-!
# Symbol tables

No two symbols of a table share a name or an address, so that looking up either of them finds the symbol
that holds it. A table that is given several symbols at new addresses holds these afterwards, and of the
older ones those with other names.
-/

namespace TinyComputer

/-- Neither the names nor the addresses of two symbols are the same. -/
def Symbol.Apart (first second : Symbol) : Prop :=
  first.name ≠ second.name ∧ first.address ≠ second.address

instance : Std.Symm Symbol.Apart where
  symm _ _ h := ⟨h.1.symm, h.2.symm⟩

namespace Symbols

variable {symbols : Symbols} {symbol first second : Symbol} {name : List Char} {address : Word}

theorem mem_insert :
    symbol ∈ (symbols.insert name address).entries ↔
      symbol = ⟨fold name, address⟩ ∨
        symbol ∈ symbols.entries ∧ symbol.name ≠ fold name ∧ symbol.address ≠ address := by
  simp [insert, or_comm]

/-- No two symbols share a name or an address. -/
def OneToOne (symbols : Symbols) : Prop :=
  symbols.entries.Pairwise Symbol.Apart

theorem oneToOne_empty : empty.OneToOne :=
  .nil

/-- The pairs that share something with a new one have made way for it. -/
theorem OneToOne.insert (h : symbols.OneToOne) (name : List Char) (address : Word) :
    (symbols.insert name address).OneToOne := by
  refine List.pairwise_append.mpr ⟨h.filter _, List.pairwise_singleton _ _, ?_⟩
  intro older holder newer hnewer
  obtain rfl := List.mem_singleton.mp hnewer
  simpa [Symbol.Apart] using (List.mem_filter.mp holder).2

theorem OneToOne.eq_of_shared (h : symbols.OneToOne) (hfirst : first ∈ symbols.entries)
    (hsecond : second ∈ symbols.entries)
    (hshared : first.name = second.name ∨ first.address = second.address) : first = second := by
  by_contra hne
  obtain ⟨hname, haddress⟩ := List.Pairwise.forall h hfirst hsecond hne
  exact hshared.elim hname haddress

/-- A search for what only one symbol can have finds every symbol that has it. -/
theorem OneToOne.find?_eq_some_iff (h : symbols.OneToOne) {p : Symbol → Bool}
    (hshared : ∀ first second : Symbol, p first = true → p second = true →
      first.name = second.name ∨ first.address = second.address) :
    symbols.entries.find? p = some symbol ↔ symbol ∈ symbols.entries ∧ p symbol = true := by
  constructor
  · intro hfind
    exact ⟨List.mem_of_find?_eq_some hfind, List.find?_some hfind⟩
  · rintro ⟨hmem, hsymbol⟩
    obtain ⟨found, hfind⟩ : ∃ found, symbols.entries.find? p = some found :=
      Option.isSome_iff_exists.mp (List.find?_isSome.mpr ⟨symbol, hmem, hsymbol⟩)
    have hsame := h.eq_of_shared (List.mem_of_find?_eq_some hfind) hmem
      (hshared found symbol (List.find?_some hfind) hsymbol)
    rw [hfind, hsame]

theorem OneToOne.address?_eq_some_iff (h : symbols.OneToOne) :
    symbols.address? name = some address ↔ ⟨fold name, address⟩ ∈ symbols.entries := by
  have hname : ∀ first second : Symbol, (first.name == fold name) = true →
      (second.name == fold name) = true →
      first.name = second.name ∨ first.address = second.address :=
    fun _ _ hfirst hsecond => .inl ((eq_of_beq hfirst).trans (eq_of_beq hsecond).symm)
  simp only [address?, Option.map_eq_some_iff, h.find?_eq_some_iff hname, beq_iff_eq]
  constructor
  · rintro ⟨⟨_, _⟩, ⟨hmem, rfl⟩, rfl⟩
    exact hmem
  · intro hmem
    exact ⟨_, ⟨hmem, rfl⟩, rfl⟩

theorem OneToOne.name?_eq_some_iff (h : symbols.OneToOne) :
    symbols.name? address = some name ↔ ⟨name, address⟩ ∈ symbols.entries := by
  have haddress : ∀ first second : Symbol, (first.address == address) = true →
      (second.address == address) = true →
      first.name = second.name ∨ first.address = second.address :=
    fun _ _ hfirst hsecond => .inr ((eq_of_beq hfirst).trans (eq_of_beq hsecond).symm)
  simp only [name?, Option.map_eq_some_iff, h.find?_eq_some_iff haddress, beq_iff_eq]
  constructor
  · rintro ⟨⟨_, _⟩, ⟨hmem, rfl⟩, rfl⟩
    exact hmem
  · intro hmem
    exact ⟨_, ⟨hmem, rfl⟩, rfl⟩

/-! ## Several insertions -/

/-- Insert symbols one after the other. -/
def insertAll (symbols : Symbols) (added : List Symbol) : Symbols :=
  added.foldl (fun symbols symbol => symbols.insert symbol.name symbol.address) symbols

theorem ofBoard_eq (board : Board) :
    ofBoard board = empty.insertAll (board.bindings.toList.flatMap ofBinding) := rfl

theorem insertAll_append (symbols : Symbols) (first second : List Symbol) :
    symbols.insertAll (first ++ second) = (symbols.insertAll first).insertAll second :=
  List.foldl_append

theorem OneToOne.insertAll (h : symbols.OneToOne) (added : List Symbol) :
    (symbols.insertAll added).OneToOne := by
  induction added generalizing symbols with
  | nil => exact h
  | cons symbol rest ih => exact ih (h.insert symbol.name symbol.address)

/-- Symbols that share nothing with each other and are at addresses that a table does not name are all
in it afterwards, in place of the older ones with the same names. -/
theorem mem_insertAll {added : List Symbol} (hfold : ∀ symbol ∈ added, fold symbol.name = symbol.name)
    (hadded : OneToOne ⟨added⟩)
    (hnew : ∀ newer ∈ added, ∀ older ∈ symbols.entries, older.address ≠ newer.address) :
    symbol ∈ (symbols.insertAll added).entries ↔
      symbol ∈ added ∨ symbol ∈ symbols.entries ∧ ∀ newer ∈ added, symbol.name ≠ newer.name := by
  induction added generalizing symbols with
  | nil => simp [insertAll]
  | cons head rest ih =>
      obtain ⟨hhead, hrest⟩ := List.pairwise_cons.mp hadded
      obtain ⟨hfoldhead, hfoldrest⟩ := List.forall_mem_cons.mp hfold
      obtain ⟨hnewhead, hnewrest⟩ := List.forall_mem_cons.mp hnew
      have hsame : (⟨fold head.name, head.address⟩ : Symbol) = head := by rw [hfoldhead]
      have hinserted : ∀ newer ∈ rest,
          ∀ older ∈ (symbols.insert head.name head.address).entries, older.address ≠ newer.address := by
        intro newer hnewer older holder
        rcases mem_insert.mp holder with rfl | ⟨holder, _⟩
        · exact (hhead newer hnewer).2
        · exact hnewrest newer hnewer older holder
      have hstep := ih hfoldrest hrest hinserted
      rw [mem_insert, hsame, hfoldhead] at hstep
      refine hstep.trans ?_
      rw [List.mem_cons, List.forall_mem_cons]
      constructor
      · rintro (hmem | ⟨rfl | ⟨holder, hname, _⟩, hothers⟩)
        · exact .inl (.inr hmem)
        · exact .inl (.inl rfl)
        · exact .inr ⟨holder, hname, hothers⟩
      · rintro ((rfl | hmem) | ⟨holder, hname, hothers⟩)
        · exact .inr ⟨.inl rfl, fun newer hnewer => (hhead newer hnewer).1⟩
        · exact .inl hmem
        · exact .inr ⟨.inr ⟨holder, hname, hnewhead symbol holder⟩, hothers⟩

end Symbols

end TinyComputer
