import TinyComputer.Proofs.RegisterEffects
import TinyComputer.Proofs.StackEntries

/-!
# Saving the general purpose registers

One instruction pushes all general purpose registers and another one pops them in the opposite order.
What is done in between to these registers and to the rest of memory does not matter: with the stack
pointer where it was, every register gets the word again that it was pushed with.
-/

namespace TinyComputer.Board

open StackEntry

variable {start before board : Board} {depth : Nat} {entries : List StackEntry} {rs : List Register}
  {instruction : Instruction}

/-! ## Several registers -/

/-- The entry that a push of a register makes. -/
def registerEntry (board : Board) (r : Register) : StackEntry :=
  ⟨.w32, board.register r⟩

theorem totalSize_registerEntries (board : Board) (rs : List Register) :
    totalSize (rs.map board.registerEntry) = 4 * rs.length := by
  induction rs with
  | nil => rfl
  | cons r rest ih =>
      rw [List.map_cons, totalSize_cons, ih, List.length_cons, Nat.mul_succ, Nat.add_comm]
      rfl

/-- Registers are pushed one below the other, and pushing them changes none. -/
theorem HoldsEntries.pushRegisters (h : HoldsEntries start depth entries board) (hsp : .sp ∉ rs)
    (hroom : totalSize entries + 4 * rs.length ≤ depth) (hbound : depth ≤ wordBound) :
    HoldsEntries start depth (rs.reverse.map board.registerEntry ++ entries)
        (rs.foldl pushRegister board) ∧
      ∀ r, r ≠ .sp → (rs.foldl pushRegister board).register r = board.register r := by
  induction rs generalizing board entries with
  | nil => exact ⟨h, fun _ _ => rfl⟩
  | cons r rest ih =>
      obtain ⟨hne, hrest⟩ := not_or.mp (mt List.mem_cons.mpr hsp)
      rw [List.length_cons] at hroom
      have hfirst : totalSize entries + Width.w32.bytes ≤ depth :=
        Nat.le_trans (Nat.add_le_add_left (by change 4 ≤ _; omega) _) hroom
      have hregister : ∀ other, other ≠ .sp →
          (board.pushRegister r).register other = board.register other :=
        fun other hother => (h.pushed hfirst (board.register r)).register_eq hother
      have hentries : rest.reverse.map (board.pushRegister r).registerEntry =
          rest.reverse.map board.registerEntry := by
        apply List.map_congr_left
        intro other hmem
        rw [registerEntry, registerEntry, hregister]
        rintro rfl
        exact hrest (List.mem_reverse.mp hmem)
      have hpushed : HoldsEntries start depth (board.registerEntry r :: entries)
          (board.pushRegister r) := h.push .w32 (board.register r) hfirst hbound
      obtain ⟨hholds, hkept⟩ := ih hpushed hrest (by rw [totalSize_cons]; change 4 + _ + _ ≤ _; omega)
      refine ⟨?_, fun other hother => (hkept other hother).trans (hregister other hother)⟩
      rw [hentries] at hholds
      rw [List.reverse_cons, List.map_append, List.append_assoc]
      exact hholds

/-- A word that memory holds at the stack pointer is popped into a register. -/
theorem popInto_of_stores {word : Word} (r : Register)
    (h : board.Stores (board.register .sp) (Word.toBytes 4 word)) :
    board.popInto .w32 r =
      (board.setRegister .sp (board.register .sp + 4)).setRegister r word := by
  have hpop : board.pop .w32 =
      (word &&& Width.w32.mask, board.setRegister .sp (board.register .sp + 4)) := Stores.pop_eq h
  simp only [popInto, hpop, Width.and_mask_w32]

/-- Words that memory holds at the stack pointer one after the other are popped into as many
registers. -/
theorem popRegisters_of_stores {words : Register → Word}
    (h : board.Stores (board.register .sp) (rs.flatMap fun r => Word.toBytes 4 (words r)))
    (hsp : .sp ∉ rs) (hnodup : rs.Nodup) :
    (∀ r ∈ rs, (rs.foldl (popInto · .w32 ·) board).register r = words r) ∧
      (rs.foldl (popInto · .w32 ·) board).register .sp =
        board.register .sp + UInt32.ofNat (4 * rs.length) ∧
      ∀ address, (rs.foldl (popInto · .w32 ·) board).memoryByte? address =
        board.memoryByte? address := by
  induction rs generalizing board with
  | nil => exact ⟨fun _ hmem => absurd hmem List.not_mem_nil, (UInt32.add_zero _).symm, fun _ => rfl⟩
  | cons r rest ih =>
      obtain ⟨hne, hrest⟩ := not_or.mp (mt List.mem_cons.mpr hsp)
      obtain ⟨hfresh, hnodup⟩ := List.nodup_cons.mp hnodup
      rw [List.flatMap_cons, stores_append, Word.length_toBytes] at h
      have hpopped := popInto_of_stores r h.1
      have hpointer : (board.popInto .w32 r).register .sp = board.register .sp + 4 := by
        rw [hpopped, register_setRegister_of_ne _ _ hne, register_setRegister_self]
      have hview : ∀ address, (board.popInto .w32 r).memoryByte? address =
          board.memoryByte? address := by
        intro address
        rw [hpopped]
        rfl
      have hstores : (board.popInto .w32 r).Stores ((board.popInto .w32 r).register .sp)
          (rest.flatMap fun r => Word.toBytes 4 (words r)) := by
        rw [hpointer]
        exact h.2.congr fun other _ => hview other
      obtain ⟨hwords, hsp, hmemory⟩ := ih hstores hrest hnodup
      rw [List.foldl_cons]
      refine ⟨?_, ?_, fun address => (hmemory address).trans (hview address)⟩
      · intro other hmem
        rcases List.mem_cons.mp hmem with rfl | hmem
        · -- No later pop goes to this register.
          have hlater := List.not_mem_cons_of_ne_of_not_mem (Ne.symm hne) hfresh
          rw [keepsBut_popRegisters rest _ _ hlater, hpopped, register_setRegister_self]
        · exact hwords other hmem
      · rw [hsp, hpointer, List.length_cons, Nat.mul_succ, Nat.add_comm, UInt32.ofNat_add,
          UInt32.add_assoc]
        rfl

/-- The place of a saved register goes by its number. -/
theorem HoldsEntries.stores_register {k : Nat} {r : Register}
    (h : HoldsEntries start depth (rs.reverse.map before.registerEntry) board)
    (hget : rs[k]? = some r) :
    board.Stores (start.register .sp - UInt32.ofNat (4 * (k + 1)))
      (Word.toBytes 4 (before.register r)) := by
  obtain ⟨hk, hr⟩ := List.getElem?_eq_some_iff.mp hget
  have hsplit : rs.reverse.map before.registerEntry =
      (rs.drop (k + 1)).reverse.map before.registerEntry ++
        before.registerEntry r :: (rs.take k).reverse.map before.registerEntry := by
    conv_lhs => rw [← List.take_append_drop k rs, List.drop_eq_getElem_cons hk, hr]
    simp only [List.reverse_append, List.reverse_cons, List.map_append, List.map_cons,
      List.append_assoc, List.singleton_append]
  have hsize : totalSize (before.registerEntry r :: (rs.take k).reverse.map before.registerEntry) =
      4 * (k + 1) := by
    rw [← List.map_cons, totalSize_registerEntries, List.length_cons, List.length_reverse,
      List.length_take, Nat.min_eq_left (Nat.le_of_lt hk)]
  rw [hsplit] at h
  have hstores := h.stores_entry
  rwa [hsize] at hstores

/-! ## All general purpose registers -/

theorem ne_of_mem_generalPurpose : ∀ r ∈ Register.generalPurpose, r ≠ .sp ∧ r ≠ .pc := by
  decide

/-- How a board is left by an instruction that saves the general purpose registers. -/
structure RegistersSaved (before after : Board) : Prop where
  sp_eq : after.register .sp = before.register .sp - 48
  stores : ∀ (k : Nat) (r : Register), Register.generalPurpose[k]? = some r →
    after.Stores (before.register .sp - UInt32.ofNat (4 * (k + 1)))
      (Word.toBytes 4 (before.register r))
  register_eq : ∀ r, r ≠ .sp → r ≠ .pc → after.register r = before.register r
  memoryByte?_eq : ∀ address, ¬ Word.Within (before.register .sp - 48) 48 address →
    after.memoryByte? address = before.memoryByte? address

/-- The general purpose registers hold the same words on two boards, and so does the stack pointer. -/
structure RegistersRestored (before after : Board) : Prop where
  register_eq : ∀ r ∈ Register.generalPurpose, after.register r = before.register r
  sp_eq : after.register .sp = before.register .sp

/-- Saving registers on a stack in memory puts them all on it as entries. -/
theorem exists_executes_pushAll (hfetch : (board.fetch (board.register .pc)).1 = .ok instruction)
    (hpush : instruction.mnemonic = .pushAll)
    (hmemory : ∀ address, Word.Within (board.register .sp - 48) 48 address → board.InMemory address) :
    ∃ saved, board.Executes instruction saved ∧
      HoldsEntries board 48 (Register.generalPurpose.reverse.map board.registerEntry) saved ∧
      ∀ r, r ≠ .sp → r ≠ .pc → saved.register r = board.register r := by
  have hwell : instruction.WellFormed := wellFormed_of_fetch (Prod.ext hfetch rfl)
  have hready : HoldsEntries board 48 [] (board.advanced instruction) :=
    (HoldsEntries.nil hmemory).keepsStack (keepsStack_advanced board instruction)
  have hsp : .sp ∉ Register.generalPurpose := by decide
  obtain ⟨hholds, hkept⟩ := hready.pushRegisters hsp (by decide) (by decide)
  have hentries : Register.generalPurpose.reverse.map (board.advanced instruction).registerEntry =
      Register.generalPurpose.reverse.map board.registerEntry := by
    apply List.map_congr_left
    intro r hmem
    rw [registerEntry, registerEntry, register_advanced_of_ne _ _
      (ne_of_mem_generalPurpose r (List.mem_reverse.mp hmem)).2]
  rw [hentries, List.append_nil] at hholds
  refine ⟨_, ⟨hfetch, ?_⟩, hholds, ?_⟩
  · simp only [execute, hpush, Instruction.operands_eq_nil hwell hpush rfl]
  · intro r hsp hpc
    rw [hkept r hsp, register_advanced_of_ne _ _ hpc]

/-- Restoring registers from entries that lie at the stack pointer. -/
theorem exists_executes_popAll {words : Register → Word}
    (hfetch : (board.fetch (board.register .pc)).1 = .ok instruction)
    (hpop : instruction.mnemonic = .popAll)
    (h : board.Stores (board.register .sp)
      (Register.generalPurpose.reverse.flatMap fun r => Word.toBytes 4 (words r))) :
    ∃ restored, board.Executes instruction restored ∧
      (∀ r ∈ Register.generalPurpose, restored.register r = words r) ∧
      restored.register .sp = board.register .sp + 48 ∧
      ∀ address, restored.memoryByte? address = board.memoryByte? address := by
  have hwell : instruction.WellFormed := wellFormed_of_fetch (Prod.ext hfetch rfl)
  have hkept := keepsStack_advanced board instruction
  have hstores : (board.advanced instruction).Stores ((board.advanced instruction).register .sp)
      (Register.generalPurpose.reverse.flatMap fun r => Word.toBytes 4 (words r)) := by
    rw [hkept.sp_eq]
    exact h.congr fun other _ => hkept.memoryByte?_eq other
  obtain ⟨hwords, hsp, hmemory⟩ := popRegisters_of_stores hstores (by decide) (by decide)
  refine ⟨_, ⟨hfetch, ?_⟩, fun r hmem => hwords r (List.mem_reverse.mpr hmem), ?_,
    fun address => (hmemory address).trans (hkept.memoryByte?_eq address)⟩
  · simp only [execute, hpop, Instruction.operands_eq_nil hwell hpop rfl]
  · rw [hsp, hkept.sp_eq]
    rfl

/-- Registers that were saved on a stack in memory come back. In between, they and all memory but the
forty-eight bytes that were pushed may be changed in any way, and so may devices, as long as the stack
pointer is where it was left. -/
theorem saved_registers_come_back
    (hfetch : (board.fetch (board.register .pc)).1 = .ok instruction)
    (hpush : instruction.mnemonic = .pushAll)
    (hmemory : ∀ address, Word.Within (board.register .sp - 48) 48 address → board.InMemory address) :
    ∃ saved, board.Executes instruction saved ∧ RegistersSaved board saved ∧
      ∀ (changed : Board) (popping : Instruction),
        changed.register .sp = saved.register .sp →
        (∀ address, Word.Within (board.register .sp - 48) 48 address →
          changed.memoryByte? address = saved.memoryByte? address) →
        (changed.fetch (changed.register .pc)).1 = .ok popping → popping.mnemonic = .popAll →
        ∃ restored, changed.Executes popping restored ∧ RegistersRestored board restored ∧
          ∀ address, restored.memoryByte? address = changed.memoryByte? address := by
  obtain ⟨saved, hexecutes, hholds, hregisters⟩ := exists_executes_pushAll hfetch hpush hmemory
  have hsize : totalSize (Register.generalPurpose.reverse.map board.registerEntry) = 48 := by
    rw [totalSize_registerEntries]
    rfl
  have hsp : saved.register .sp = board.register .sp - 48 := by
    rw [hholds.sp_eq, hsize]
    rfl
  refine ⟨saved, hexecutes, ⟨hsp, fun k r => hholds.stores_register, hregisters,
    hholds.memoryByte?_eq⟩, ?_⟩
  intro changed popping hpointer hkept hfetch hpop
  have hstores : changed.Stores (changed.register .sp)
      (Register.generalPurpose.reverse.flatMap fun r => Word.toBytes 4 (board.register r)) := by
    have hsaved : changed.Stores (saved.register .sp)
        ((Register.generalPurpose.reverse.map board.registerEntry).flatMap bytes) := by
      apply hholds.stores.congr
      intro other hwithin
      rw [length_flatMap_bytes, hsize, hsp] at hwithin
      exact hkept other hwithin
    rwa [← hpointer, List.flatMap_map] at hsaved
  obtain ⟨restored, hexecutes, hwords, hback, hview⟩ := exists_executes_popAll hfetch hpop hstores
  refine ⟨restored, hexecutes, ⟨hwords, ?_⟩, hview⟩
  rw [hback, hpointer, hsp, UInt32.sub_add_cancel]

/-- Two registers and a byte below the saved words are changed before the registers are restored. -/
theorem saved_registers_come_back_after_changes :
    let board : Board :=
      (({ empty { stackTop := 64 } with
        bindings := #[⟨⟨0, 64⟩, .memory (((Memory.zeros 64).write 0 0x7E).write 1 0x82)⟩] } :
          Board).setRegister .a 1).setRegister .l 0xAABBCCDD
    let pushing : Instruction := ⟨⟨0x7E, .pushAll, []⟩, []⟩
    let popping : Instruction := ⟨⟨0x82, .popAll, []⟩, []⟩
    let change (saved : Board) : Board :=
      ((saved.setRegister .a 5).setRegister .l 0).write 8 0xFF
    (board.fetch (board.register .pc)).1 = .ok pushing ∧ pushing.mnemonic = .pushAll ∧
    (∀ address, Word.Within (board.register .sp - 48) 48 address → board.InMemory address) ∧
    ∃ saved, board.Executes pushing saved ∧ saved.Stores 60 [1, 0, 0, 0] ∧
      saved.Stores 16 [0xDD, 0xCC, 0xBB, 0xAA] ∧
      ((change saved).fetch ((change saved).register .pc)).1 = .ok popping ∧
      popping.mnemonic = .popAll ∧
      ∃ restored, (change saved).Executes popping restored ∧ restored.register .a = 1 ∧
        restored.register .l = 0xAABBCCDD ∧ restored.register .sp = 64 ∧
        restored.memoryByte? 8 = some 0xFF := by
  intro board pushing popping change
  have hfetch : (board.fetch (board.register .pc)).1 = .ok pushing := by decide +kernel
  have hmemory : ∀ address, Word.Within (board.register .sp - 48) 48 address →
      board.InMemory address := Word.forall_within (by decide +kernel)
  have hsp : board.register .sp = 64 := by decide +kernel
  have ha : board.register .a = 1 := by decide +kernel
  have hl : board.register .l = 0xAABBCCDD := by decide +kernel
  obtain ⟨saved, hexecutes, hsaved, hrestores⟩ := saved_registers_come_back hfetch rfl hmemory
  -- What is executed is computed, so that the changed board can be looked at.
  have heq : saved = ((board.advanced pushing).execute (board.register .pc) pushing).2 :=
    (congrArg Prod.snd hexecutes.execute_eq).symm
  have hpointer : (change saved).register .sp = saved.register .sp := by
    rw [heq]
    decide +kernel
  have hkept : ∀ address, Word.Within (board.register .sp - 48) 48 address →
      (change saved).memoryByte? address = saved.memoryByte? address := by
    rw [heq]
    exact Word.forall_within (by decide +kernel)
  have hnext : ((change saved).fetch ((change saved).register .pc)).1 = .ok popping := by
    rw [heq]
    decide +kernel
  have hchanged : (change saved).memoryByte? 8 = some 0xFF := by
    rw [heq]
    decide +kernel
  have hfirst := hsaved.stores 0 .a rfl
  have hlast := hsaved.stores 11 .l rfl
  rw [hsp, ha] at hfirst
  rw [hsp, hl] at hlast
  obtain ⟨restored, hpops, hrestored, hview⟩ :=
    hrestores (change saved) popping hpointer hkept hnext rfl
  refine ⟨hfetch, rfl, hmemory, saved, hexecutes, hfirst, hlast, hnext, rfl, restored, hpops,
    ?_, ?_, ?_, (hview 8).trans hchanged⟩
  · exact (hrestored.register_eq .a (by decide)).trans ha
  · exact (hrestored.register_eq .l (by decide)).trans hl
  · exact hrestored.sp_eq.trans hsp

end TinyComputer.Board
