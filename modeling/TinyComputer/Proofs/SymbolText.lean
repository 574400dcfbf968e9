import TinyComputer.Proofs.FormChoice
import TinyComputer.Proofs.OperandGrammar
import TinyComputer.Proofs.ProgramImage
import TinyComputer.Proofs.SymbolRouting

/-!
# Instructions with symbols as text

The names in the symbol table of a board are the names of places of devices. All of them have an
underscore, which no register and no numeral has, and none has a character that ends an operand. So an
operand is told by its text, whether a name stands in it or not: the count of digits tells the width of a
value, and a name tells the address that it stands for. The text of an instruction is cut into its
mnemonic and its operands, which determine the form.
-/

namespace TinyComputer

open Text

/-! ## Operands without symbols -/

namespace Operand

/-- The text of an operand tells the operand: what it names is read back, and the count of digits is that
of its width. -/
theorem eq_of_render_eq {first second : Operand} (hfirst : first.Fits) (hsecond : second.Fits)
    (h : first.render = second.render) : first = second := by
  have hnarrowed : first.narrowed = second.narrowed := by
    rw [← Except.ok.injEq, ← parse_render hfirst, ← parse_render hsecond, h]
  cases first with
  | immediate value width =>
      cases second with
      | immediate value' width' =>
          obtain ⟨rfl, _⟩ := immediate.inj hnarrowed
          have hlength := congrArg List.length h
          simp only [render, List.length_append, length_hexFixed, Nat.add_left_cancel_iff] at hlength
          have hwidth : width = width' := by
            revert hlength
            cases width <;> cases width' <;> decide
          rw [hwidth]
      | _ => cases hnarrowed
  | _ => cases second <;> simp_all [narrowed]

theorem underscore_notMem_render (operand : Operand) : '_' ∉ operand.render := by
  have hname : ∀ r : Register, '_' ∉ r.name.toList := by
    intro r
    cases r <;> decide +kernel
  have hdigits : ∀ count n, '_' ∉ hexFixed count n := by
    intro count n hmem
    have hne : ∀ c ∈ hexFixed count n, c ≠ '_' := forall_mem_hexFixed (by decide) count n
    exact hne '_' hmem rfl
  cases operand <;> simp [render, hname, hdigits]

end Operand

namespace Symbols

/-! ## Names of places -/

/-- The names of a table are names of places of devices. -/
structure NamesPlaces (symbols : Symbols) : Prop where
  oneToOne : symbols.OneToOne
  exists_place : ∀ symbol ∈ symbols.entries,
    ∃ kind : DeviceKind, ∃ place ∈ kind.places, symbol.name = kind.symbolName place.1

theorem namesPlaces_empty : empty.NamesPlaces :=
  ⟨oneToOne_empty, fun _ hmem => absurd hmem List.not_mem_nil⟩

/-- What holds of all names that are given to a table holds of the names in it. -/
theorem forall_mem_insertAll {symbols : Symbols} {added : List Symbol} {p : List Char → Prop}
    (h : ∀ symbol ∈ symbols.entries, p symbol.name) (hadded : ∀ symbol ∈ added, p (fold symbol.name)) :
    ∀ symbol ∈ (symbols.insertAll added).entries, p symbol.name := by
  induction added generalizing symbols with
  | nil => exact h
  | cons head rest ih =>
      obtain ⟨hhead, hrest⟩ := List.forall_mem_cons.mp hadded
      apply ih _ hrest
      intro symbol hmem
      rcases mem_insert.mp hmem with rfl | ⟨holder, _⟩
      · exact hhead
      · exact h symbol holder

theorem namesPlaces_ofBoard (board : Board) : (ofBoard board).NamesPlaces := by
  rw [ofBoard_eq]
  refine ⟨oneToOne_empty.insertAll _, ?_⟩
  refine forall_mem_insertAll (p := fun name => ∃ kind : DeviceKind, ∃ place ∈ kind.places,
    name = kind.symbolName place.1) (fun _ hmem => absurd hmem List.not_mem_nil) ?_
  intro symbol hmem
  obtain ⟨binding, _, hsymbol⟩ := List.mem_flatMap.mp hmem
  rw [Binding.fold_name_of_mem hsymbol]
  rw [Binding.ofBinding_eq, List.mem_map] at hsymbol
  obtain ⟨place, hplace, rfl⟩ := hsymbol
  exact ⟨binding.device.kind, place, hplace, rfl⟩

end Symbols

/-- A name of a place is a token without brackets. -/
theorem DeviceKind.forall_mem_symbolName (kind : DeviceKind) : ∀ place ∈ kind.places,
    ∀ c ∈ kind.symbolName place.1, Operand.IsTokenChar c ∧ Atom.isBracket c = false := by
  have hall : kind.places.all (fun place => (kind.symbolName place.1).all fun c =>
      decide (Operand.IsTokenChar c) && !Atom.isBracket c) = true := by
    cases kind <;> decide +kernel
  simpa only [List.all_eq_true, Bool.and_eq_true, Bool.not_eq_true', decide_eq_true_eq] using hall

namespace Symbols

variable {symbols : Symbols} {name : List Char} {address : Word}

theorem NamesPlaces.name_chars (h : symbols.NamesPlaces) (hname : symbols.name? address = some name) :
    '_' ∈ name ∧ ∀ c ∈ name, Operand.IsTokenChar c ∧ Atom.isBracket c = false := by
  have hmem := h.oneToOne.name?_eq_some_iff.mp hname
  obtain ⟨kind, place, hplace, rfl⟩ := h.exists_place _ hmem
  exact ⟨List.mem_append_right _ List.mem_cons_self, kind.forall_mem_symbolName place hplace⟩

/-- A name stands for one address. -/
theorem OneToOne.address_eq (h : symbols.OneToOne) {other : Word}
    (hname : symbols.name? address = some name) (hother : symbols.name? other = some name) :
    address = other :=
  congrArg Symbol.address (h.eq_of_shared (h.name?_eq_some_iff.mp hname)
    (h.name?_eq_some_iff.mp hother) (.inl rfl))

/-! ## Operands -/

/-- How an operand is written: as it is, or with the name of the address or of the value. -/
inductive Shows (symbols : Symbols) : Operand → List Char → Prop
  | plain (operand : Operand) : Shows symbols operand operand.render
  | value {value : Word} {name : List Char} : symbols.name? value = some name →
      Shows symbols (.immediate value .w32) name
  | address {address : Word} {name : List Char} : symbols.name? address = some name →
      Shows symbols (.indirectImmediate address) (Operand.bracketed name)

theorem shows_renderOperand (symbols : Symbols) (operand : Operand) :
    symbols.Shows operand (symbols.renderOperand operand) := by
  unfold renderOperand
  split
  next value =>
    cases hname : symbols.name? value with
    | none => exact .plain _
    | some name => exact .value hname
  next address =>
    split
    next name hname => exact .address hname
    next => exact .plain _
  next => exact .plain _

theorem NamesPlaces.underscore_mem_bracketed (h : symbols.NamesPlaces)
    (hname : symbols.name? address = some name) : '_' ∈ Operand.bracketed name :=
  List.mem_append_left _ (List.mem_append_right _ (h.name_chars hname).1)

theorem NamesPlaces.ne_bracketed (h : symbols.NamesPlaces) (hname : symbols.name? address = some name)
    (inner : List Char) : name ≠ Operand.bracketed inner := by
  rintro rfl
  obtain ⟨c, hmem, hbracket⟩ := Operand.isBracket_mem_bracketed inner
  exact Bool.false_ne_true (((h.name_chars hname).2 c hmem).2.symm.trans hbracket)

/-- Different operands are not written alike. -/
theorem NamesPlaces.eq_of_shows (h : symbols.NamesPlaces) {first second : Operand} {text : List Char}
    (hfits : first.Fits) (hfits' : second.Fits) (hfirst : symbols.Shows first text)
    (hsecond : symbols.Shows second text) : first = second := by
  -- Only a name has an underscore, and brackets tell whether it is that of an address or of a value.
  generalize htext : text = text' at hsecond
  cases hfirst with
  | plain =>
      cases hsecond with
      | plain => exact Operand.eq_of_render_eq hfits hfits' htext
      | value hname =>
          exact absurd (htext ▸ (h.name_chars hname).1) first.underscore_notMem_render
      | address hname =>
          exact absurd (htext ▸ h.underscore_mem_bracketed hname) first.underscore_notMem_render
  | value hname =>
      cases hsecond with
      | plain => exact absurd (htext ▸ (h.name_chars hname).1) second.underscore_notMem_render
      | value hname' =>
          subst htext
          rw [h.oneToOne.address_eq hname hname']
      | address _ => exact absurd htext (h.ne_bracketed hname _)
  | address hname =>
      cases hsecond with
      | plain =>
          exact absurd (htext ▸ h.underscore_mem_bracketed hname) second.underscore_notMem_render
      | value hname' => exact absurd htext.symm (h.ne_bracketed hname' _)
      | address hname' =>
          obtain rfl := Operand.bracketed_injective htext
          rw [h.oneToOne.address_eq hname hname']

theorem NamesPlaces.isTokenChar (h : symbols.NamesPlaces) (operand : Operand) :
    ∀ c ∈ symbols.renderOperand operand, Operand.IsTokenChar c := by
  have hshows := symbols.shows_renderOperand operand
  generalize symbols.renderOperand operand = text at hshows
  cases hshows with
  | plain => exact operand.isTokenChar_of_mem_render
  | value hname => exact fun c hc => ((h.name_chars hname).2 c hc).1
  | address hname =>
      simp only [Operand.bracketed, List.forall_mem_append, List.forall_mem_singleton]
      exact ⟨⟨by decide, fun c hc => ((h.name_chars hname).2 c hc).1⟩, by decide⟩

theorem NamesPlaces.renderOperand_ne_nil (h : symbols.NamesPlaces) (operand : Operand) :
    symbols.renderOperand operand ≠ [] := by
  have hshows := symbols.shows_renderOperand operand
  generalize symbols.renderOperand operand = text at hshows
  cases hshows with
  | plain => exact operand.render_ne_nil
  | value hname => exact List.ne_nil_of_mem (h.name_chars hname).1
  | address hname => exact List.cons_ne_nil _ _

end Symbols

/-! ## Instructions -/

/-- The only slot that can hold an operand. -/
def Operand.slot : Operand → Slot
  | register _ => .register
  | immediate _ width => .immediate width
  | indirectRegister _ => .indirectRegister
  | indirectImmediate _ => .indirectImmediate

theorem Slot.eq_slot_of_holds {slot : Slot} {operand : Operand} (h : slot.Holds operand) :
    slot = operand.slot := by
  obtain ⟨haccepts, hfit⟩ := h
  cases slot <;> cases operand <;> simp_all [accepts, fit, Operand.slot]

namespace Instruction

variable {first second : Instruction}

theorem slots_eq_map {instruction : Instruction} (h : instruction.WellFormed) :
    instruction.form.slots = instruction.operands.map Operand.slot := by
  obtain ⟨_, hholds⟩ := wellFormed_iff.mp h
  generalize instruction.form.slots = slots, instruction.operands = operands at hholds ⊢
  induction hholds with
  | nil => rfl
  | cons hslot _ ih => rw [List.map_cons, ih, Slot.eq_slot_of_holds hslot]

/-- The mnemonic and the operands tell the form. -/
theorem eq_of_operands_eq (hfirst : first.WellFormed) (hsecond : second.WellFormed)
    (hmnemonic : first.mnemonic = second.mnemonic) (hoperands : first.operands = second.operands) :
    first = second := by
  have hslots : first.form.slots = second.form.slots := by
    rw [slots_eq_map hfirst, slots_eq_map hsecond, hoperands]
  have hshape : first.form.shape = second.form.shape :=
    congrArg₂ (fun mnemonic slots => (mnemonic, slots.map Slot.widened, 1 + Slot.totalSize slots))
      hmnemonic hslots
  have hform := List.inj_on_of_nodup_map Form.nodup_shapes hfirst.1 hsecond.1 hshape
  obtain ⟨form, operands⟩ := first
  obtain ⟨form', operands'⟩ := second
  exact congrArg₂ Instruction.mk hform hoperands

end Instruction

namespace Symbols

variable {symbols : Symbols} {first second : Instruction}

theorem NamesPlaces.eq_of_map_renderOperand_eq (h : symbols.NamesPlaces) {operands others : List Operand}
    (hfits : ∀ operand ∈ operands, operand.Fits) (hfits' : ∀ operand ∈ others, operand.Fits)
    (htext : operands.map symbols.renderOperand = others.map symbols.renderOperand) :
    operands = others := by
  induction operands generalizing others with
  | nil => exact (List.map_eq_nil_iff.mp htext.symm).symm
  | cons operand rest ih =>
      cases others with
      | nil => contradiction
      | cons other rest' =>
          obtain ⟨hfirst, hrest⟩ := List.cons.inj htext
          obtain ⟨hoperand, hoperands⟩ := List.forall_mem_cons.mp hfits
          obtain ⟨hother, hothers⟩ := List.forall_mem_cons.mp hfits'
          have hshows := symbols.shows_renderOperand other
          rw [← hfirst] at hshows
          rw [h.eq_of_shows hoperand hother (symbols.shows_renderOperand operand) hshows,
            ih hoperands hothers hrest]

/-- Different instructions are not written alike. -/
theorem NamesPlaces.eq_of_render_eq (h : symbols.NamesPlaces) (hfirst : first.WellFormed)
    (hsecond : second.WellFormed) (htext : symbols.render first = symbols.render second) :
    first = second := by
  have hplain : ∀ {instruction : Instruction}, instruction.WellFormed →
      (instruction.lineWith symbols.renderOperand).Plain :=
    fun hwell => Instruction.plain_lineWith hwell h.renderOperand_ne_nil h.isTokenChar
  have hline : first.lineWith symbols.renderOperand = second.lineWith symbols.renderOperand := by
    rw [← Option.some.injEq, ← Line.parse?_render (hplain hfirst),
      ← Line.parse?_render (hplain hsecond), Instruction.render_lineWith, Instruction.render_lineWith]
    exact congrArg Line.parse? htext
  obtain ⟨hname, htokens⟩ := Line.mk.inj hline
  have hmnemonic : first.mnemonic = second.mnemonic := by
    rw [← Option.some.injEq, ← Mnemonic.ofName?_name _ first.mnemonic.mem_all,
      ← Mnemonic.ofName?_name _ second.mnemonic.mem_all, hname]
  exact Instruction.eq_of_operands_eq hfirst hsecond hmnemonic
    (h.eq_of_map_renderOperand_eq (Instruction.fits_of_mem_operands hfirst)
      (Instruction.fits_of_mem_operands hsecond) htokens)

end Symbols

/-! ## Rows -/

/-- Numerals of the same length tell their numbers. -/
theorem Text.eq_of_hexFixed_eq {count first second : Nat} (hcount : 0 < count)
    (hfirst : first < 16 ^ count) (hsecond : second < 16 ^ count)
    (h : hexFixed count first = hexFixed count second) : first = second := by
  rw [← Option.some.injEq, ← readNumeral?_hexFixed hcount hfirst, h,
    readNumeral?_hexFixed hcount hsecond]

theorem DisassemblyRow.eq_of_data_eq {first second : Byte} (h : data first = data second) :
    first = second := by
  have hdigits := List.append_cancel_left (congrArg text h)
  exact UInt8.toNat_inj.mp
    (eq_of_hexFixed_eq (by decide) first.toNat_lt second.toNat_lt hdigits)

end TinyComputer
