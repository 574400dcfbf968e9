import TinyComputer.Proofs.Execution
import TinyComputer.Proofs.Stack

/-!
# Sized moves

A sized move takes as many bytes as its width says from its source and puts them into its destination.
An indirect operand stands for the memory at its effective address, which a store to a fixed address
takes from a pointer in memory, for the source as well. A register is replaced by the bytes as a number,
which is described in the flags; memory is changed where the bytes go, and nowhere else.
-/

namespace TinyComputer

namespace Operand

/-- Whether an operand is the memory at a fixed address. -/
def isFixed : Operand → Bool
  | indirectImmediate _ => true
  | _ => false

end Operand

/-- A slot for a fixed address holds nothing else, and no other slot holds one. -/
theorem Slot.Holds.beq_indirectImmediate {slot : Slot} {operand : Operand} (h : slot.Holds operand) :
    (slot == .indirectImmediate) = operand.isFixed := by
  have haccepts := h.1
  cases slot <;> cases operand <;> first | rfl | exact absurd haccepts Bool.false_ne_true

/-- A move stores through a pointer when its destination is a fixed address. -/
theorem Instruction.WellFormed.storesThroughPointer_eq {instruction : Instruction}
    {destination : Operand} {rest : List Operand} (h : instruction.WellFormed)
    (hoperands : instruction.operands = destination :: rest) :
    instruction.form.storesThroughPointer = destination.isFixed := by
  obtain ⟨_, hholds⟩ := Instruction.wellFormed_iff.mp h
  rw [hoperands, List.forall₂_cons_right_iff] at hholds
  obtain ⟨slot, slots, hslot, _, hslots⟩ := hholds
  rw [Form.storesThroughPointer, hslots]
  exact hslot.beq_indirectImmediate

/-- In the opcode table, a sized move has no slot for an immediate where its destination is. -/
theorem Form.head?_slots_of_movSized : ∀ form ∈ Form.table,
    form.mnemonic ∈ Width.all.map Mnemonic.movSized →
      form.slots.head? ∈ [some .register, some .indirectRegister, some .indirectImmediate] := by
  decide +kernel

namespace Board

variable {board before after : Board} {width : Width} {throughPointer : Bool} {operand : Operand}
  {address : Word}

/-! ## Operands in memory -/

/-- The address in memory that an operand stands for. Through a pointer, a fixed address is the place of
the address. -/
def effectiveAddress? (board : Board) (throughPointer : Bool) : Operand → Option Word
  | .register _ | .immediate _ _ => none
  | .indirectRegister r => some (board.register r)
  | .indirectImmediate address =>
      some (if throughPointer then Word.ofBytes (board.memoryBytes address 4) else address)

/-- The bytes of the given width that a source holds. -/
def sourceBytes (board : Board) (width : Width) (throughPointer : Bool) (source : Operand) :
    List Byte :=
  match board.effectiveAddress? throughPointer source with
  | some address => board.memoryBytes address width.bytes
  | none => Word.toBytes width.bytes (board.operandValue source)

/-- A move accesses an address for an operand: there lies the pointer of the operand, or a byte that is
moved. -/
inductive Accesses (board : Board) (width : Width) (throughPointer : Bool) (operand : Operand)
    (address : Word) : Prop
  | pointer {place : Word} : throughPointer = true → operand = .indirectImmediate place →
      Word.Within place 4 address → Accesses board width throughPointer operand address
  | moved {base : Word} : board.effectiveAddress? throughPointer operand = some base →
      Word.Within base width.bytes address → Accesses board width throughPointer operand address

theorem effectiveAddress?_congr (hregisters : after.registers = before.registers)
    (hmemory : ∀ address, after.memoryByte? address = before.memoryByte? address)
    (throughPointer : Bool) (operand : Operand) :
    after.effectiveAddress? throughPointer operand =
      before.effectiveAddress? throughPointer operand := by
  cases operand with
  | register r => rfl
  | immediate value width => rfl
  | indirectRegister r => rw [effectiveAddress?, effectiveAddress?, register, register, hregisters]
  | indirectImmediate address =>
      rw [effectiveAddress?, effectiveAddress?, memoryBytes_congr fun other _ => hmemory other]

theorem operandValue_congr (hregisters : after.registers = before.registers) (operand : Operand) :
    after.operandValue operand = before.operandValue operand := by
  cases operand <;> simp only [operandValue, register, hregisters]

theorem sourceBytes_congr (hregisters : after.registers = before.registers)
    (hmemory : ∀ address, after.memoryByte? address = before.memoryByte? address) (width : Width)
    (throughPointer : Bool) (source : Operand) :
    after.sourceBytes width throughPointer source =
      before.sourceBytes width throughPointer source := by
  rw [sourceBytes, sourceBytes, effectiveAddress?_congr hregisters hmemory,
    operandValue_congr hregisters]
  split
  next address _ => exact memoryBytes_congr fun other _ => hmemory other
  next => rfl

theorem Accesses.congr (h : before.Accesses width throughPointer operand address)
    (hregisters : after.registers = before.registers)
    (hmemory : ∀ address, after.memoryByte? address = before.memoryByte? address) :
    after.Accesses width throughPointer operand address := by
  cases h with
  | pointer hpointer hfixed hwithin => exact .pointer hpointer hfixed hwithin
  | moved hbase hwithin =>
      exact .moved ((effectiveAddress?_congr hregisters hmemory _ _).trans hbase) hwithin

theorem length_sourceBytes (board : Board) (width : Width) (throughPointer : Bool)
    (source : Operand) : (board.sourceBytes width throughPointer source).length = width.bytes := by
  rw [sourceBytes]
  split
  next => exact length_memoryBytes _ _ _
  next => exact Word.length_toBytes _ _

/-! ## Loads and stores -/

/-- A pointer in memory is followed without changing anything. -/
theorem operandAddress_of_accesses
    (hmemory : ∀ address, board.Accesses width throughPointer operand address →
      board.InMemory address)
    (h : board.effectiveAddress? throughPointer operand = some address) :
    board.operandAddress throughPointer operand = (address, board) := by
  cases operand with
  | register r => contradiction
  | immediate value width => contradiction
  | indirectRegister r =>
      obtain rfl := Option.some.inj h
      rfl
  | indirectImmediate place =>
      obtain rfl := Option.some.inj h
      rw [operandAddress]
      split
      next hpointer =>
        exact readValue_of_inMemory fun other hwithin => hmemory other (.pointer hpointer rfl hwithin)
      next => rfl

/-- A load from memory, a register or an immediate gives the bytes of the source as a number. -/
theorem load_of_accesses
    (hmemory : ∀ address, board.Accesses width throughPointer operand address →
      board.InMemory address) :
    board.load width throughPointer operand =
      (Word.ofBytes (board.sourceBytes width throughPointer operand), board) := by
  have hload : ∀ address, board.effectiveAddress? throughPointer operand = some address →
      board.readValue address width.bytes =
        (Word.ofBytes (board.sourceBytes width throughPointer operand), board) := by
    intro address haddress
    rw [sourceBytes, haddress]
    exact readValue_of_inMemory fun other hwithin => hmemory other (.moved haddress hwithin)
  cases operand with
  | register r =>
      rw [load, sourceBytes, effectiveAddress?, Width.ofBytes_toBytes_eq_and_mask, operandValue]
  | immediate value size =>
      rw [load, sourceBytes, effectiveAddress?, Width.ofBytes_toBytes_eq_and_mask, operandValue]
  | indirectRegister r =>
      simp only [load, operandAddress_of_accesses hmemory rfl, hload _ rfl]
  | indirectImmediate place =>
      simp only [load, operandAddress_of_accesses hmemory rfl, hload _ rfl]

/-- A store to an operand in memory writes at its effective address. -/
theorem store_of_accesses
    (hmemory : ∀ address, board.Accesses width throughPointer operand address →
      board.InMemory address)
    (h : board.effectiveAddress? throughPointer operand = some address) (value : Word) :
    board.store width throughPointer operand value = board.writeValue address width.bytes value := by
  have haddress := operandAddress_of_accesses hmemory h
  cases operand with
  | register r => contradiction
  | immediate value width => contradiction
  | indirectRegister r => simp only [store, haddress]
  | indirectImmediate place => simp only [store, haddress]

/-! ## Moves -/

/-- A register holds the bytes that were moved into it, as a number. Unless it is the register of the
flags, these describe the number. Other registers and memory are as they were. -/
structure MovedToRegister (r : Register) (bytes : List Byte) (ready executed : Board) : Prop where
  register_eq : executed.register r = Word.ofBytes bytes
  describe : r ≠ .fl → executed.flags.Describe { value := Word.ofBytes bytes }
  agreeBut_flags : r ≠ .fl → Flags.AgreeBut Flags.resultFlags ready.flags executed.flags
  register_other : ∀ other, other ≠ r → other ≠ .fl → executed.register other = ready.register other
  memoryByte?_eq : ∀ address, executed.memoryByte? address = ready.memoryByte? address

/-- Memory holds the bytes that were moved there. All other memory and the registers are as they were,
the flags included. -/
structure MovedToMemory (width : Width) (target : Word) (bytes : List Byte) (ready executed : Board) :
    Prop where
  bytes_eq : executed.memoryBytes target width.bytes = bytes
  memoryByte?_eq : ∀ address, ¬ Word.Within target width.bytes address →
    executed.memoryByte? address = ready.memoryByte? address
  registers_eq : executed.registers = ready.registers

theorem MovedToRegister.congr {r : Register} {bytes : List Byte} {executed : Board}
    (h : MovedToRegister r bytes before executed) (hregisters : after.registers = before.registers)
    (hmemory : ∀ address, after.memoryByte? address = before.memoryByte? address) :
    MovedToRegister r bytes after executed := by
  refine ⟨h.register_eq, h.describe, ?_, ?_, ?_⟩
  · rw [flags, hregisters]
    exact h.agreeBut_flags
  · intro other hne hfl
    rw [h.register_other other hne hfl, register, register, hregisters]
  · intro address
    rw [h.memoryByte?_eq, hmemory]

theorem MovedToMemory.congr {target : Word} {bytes : List Byte} {executed : Board}
    (h : MovedToMemory width target bytes before executed)
    (hregisters : after.registers = before.registers)
    (hmemory : ∀ address, after.memoryByte? address = before.memoryByte? address) :
    MovedToMemory width target bytes after executed := by
  refine ⟨h.bytes_eq, ?_, h.registers_eq.trans hregisters.symm⟩
  intro address hnot
  rw [h.memoryByte?_eq address hnot, hmemory]

/-- Replacing a register by a result that is its value alone moves the value there. -/
theorem movedToRegister_setResult (board : Board) (r : Register) (bytes : List Byte) :
    MovedToRegister r bytes board (board.setResult r { value := Word.ofBytes bytes }) := by
  refine ⟨register_setResult_self, ?_, ?_, ?_, fun _ => rfl⟩
  · intro hne
    rw [flags_setResult hne]
    exact Flags.describe_setResult _ { value := Word.ofBytes bytes }
  · intro hne
    rw [flags_setResult hne]
    exact Flags.agreeBut_setResult _ _ _ _
  · intro other hne hfl
    exact (register_setRegister_of_ne _ _ hne).trans (register_setRegister_of_ne _ _ hfl)

theorem movedToRegister_move {r : Register} {source : Operand}
    (hmemory : ∀ address, board.Accesses width throughPointer source address → board.InMemory address) :
    MovedToRegister r (board.sourceBytes width throughPointer source) board
      (board.move width throughPointer (.register r) source) := by
  have hmove : board.move width throughPointer (.register r) source =
      board.setResult r { value := Word.ofBytes (board.sourceBytes width throughPointer source) } := by
    simp only [move, load_of_accesses hmemory]
    rfl
  rw [hmove]
  exact movedToRegister_setResult _ _ _

/-- The source is read before anything is written, so that the two may overlap, and the destination may
overlap its own pointer. -/
theorem movedToMemory_move {destination source : Operand} {target : Word}
    (hsource : ∀ address, board.Accesses width throughPointer source address → board.InMemory address)
    (hdestination : ∀ address, board.Accesses width throughPointer destination address →
      board.InMemory address)
    (htarget : board.effectiveAddress? throughPointer destination = some target) :
    MovedToMemory width target (board.sourceBytes width throughPointer source) board
      (board.move width throughPointer destination source) := by
  have hmove : board.move width throughPointer destination source =
      board.writeValue target width.bytes
        (Word.ofBytes (board.sourceBytes width throughPointer source)) := by
    simp only [move, load_of_accesses hsource, store_of_accesses hdestination htarget]
  have hmemory : ∀ address, Word.Within target width.bytes address → board.InMemory address :=
    fun address hwithin => hdestination address (.moved htarget hwithin)
  obtain ⟨hagree, hregisters, hbytes⟩ := writeValue_of_inMemory hmemory
    (Word.ofBytes (board.sourceBytes width throughPointer source))
  rw [Width.toBytes_ofBytes (board.length_sourceBytes width throughPointer source)] at hbytes
  rw [hmove]
  exact ⟨hbytes, hagree.memoryByte?_eq, hregisters⟩

/-- A move has a source, and its destination is a register or stands for memory. -/
theorem exists_operands_of_movSized {instruction : Instruction} (hwell : instruction.WellFormed)
    (hmoves : instruction.mnemonic = .movSized width) :
    ∃ destination source, instruction.operands = [destination, source] ∧
      ∀ value size, destination ≠ .immediate value size := by
  obtain ⟨hmem, hholds⟩ := Instruction.wellFormed_iff.mp hwell
  have hlength := Instruction.length_operands hwell
  rw [hmoves] at hlength
  obtain ⟨destination, source, hoperands⟩ := List.length_eq_two.mp hlength
  refine ⟨destination, source, hoperands, ?_⟩
  rintro value size rfl
  rw [hoperands, List.forall₂_cons_right_iff] at hholds
  obtain ⟨slot, slots, hslot, _, hslots⟩ := hholds
  have hsized : instruction.mnemonic ∈ Width.all.map Mnemonic.movSized := by
    rw [hmoves]
    cases width <;> decide
  have hhead := Form.head?_slots_of_movSized _ hmem hsized
  rw [hslots] at hhead
  have haccepts := hslot.1
  cases slot with
  | immediate width => simp at hhead
  | _ => contradiction

/-- A sized move whose operands lie in memory copies its bytes exactly. It completes, with operands that
are taken when the program counter is past the instruction. Either its destination is a register, which
gets the bytes as a number, or they are at the effective address of its destination afterwards. -/
theorem sized_move_is_exact {instruction : Instruction}
    (hfetch : (board.fetch (board.register .pc)).1 = .ok instruction)
    (hmoves : instruction.mnemonic = .movSized width) :
    ∃ destination source, instruction.operands = [destination, source] ∧
      let ready := board.setRegister .pc (board.register .pc + UInt32.ofNat instruction.length)
      let throughPointer := destination.isFixed
      let bytes := ready.sourceBytes width throughPointer source
      (∀ operand ∈ instruction.operands, ∀ address,
        ready.Accesses width throughPointer operand address → board.InMemory address) →
      ∃ executed, board.Executes instruction executed ∧
        ((∃ r, destination = .register r ∧ MovedToRegister r bytes ready executed) ∨
          ∃ target, ready.effectiveAddress? throughPointer destination = some target ∧
            MovedToMemory width target bytes ready executed) := by
  have hwell : instruction.WellFormed := wellFormed_of_fetch (Prod.ext hfetch rfl)
  obtain ⟨destination, source, hoperands, himmediate⟩ := exists_operands_of_movSized hwell hmoves
  refine ⟨destination, source, hoperands, ?_⟩
  intro ready throughPointer bytes hmemory
  -- Fetching shows in the queues of keyboards only, so operands are the same on both boards.
  have hregisters : ready.registers = (board.advanced instruction).registers :=
    (registers_advanced board instruction).symm
  have hview : ∀ address, ready.memoryByte? address =
      (board.advanced instruction).memoryByte? address :=
    fun address => (memoryByte?_advanced board instruction address).symm
  have hexecutes : board.Executes instruction
      ((board.advanced instruction).move width throughPointer destination source) := by
    refine ⟨hfetch, ?_⟩
    simp only [execute, hmoves, hoperands, hwell.storesThroughPointer_eq hoperands]
    rfl
  have haccesses : ∀ operand ∈ instruction.operands, ∀ address,
      (board.advanced instruction).Accesses width throughPointer operand address →
        (board.advanced instruction).InMemory address := by
    intro operand hmem address haccess
    exact inMemory_advanced (hmemory operand hmem address (haccess.congr hregisters hview)) _
  rw [hoperands, List.forall_mem_cons, List.forall_mem_singleton] at haccesses
  obtain ⟨hdestination, hsource⟩ := haccesses
  have hbytes : bytes = (board.advanced instruction).sourceBytes width throughPointer source :=
    sourceBytes_congr hregisters hview width throughPointer source
  refine ⟨_, hexecutes, ?_⟩
  rw [hbytes]
  cases destination with
  | register r =>
      exact .inl ⟨r, rfl, (movedToRegister_move hsource).congr hregisters hview⟩
  | immediate value size => exact absurd rfl (himmediate value size)
  | indirectRegister r =>
      have htarget := effectiveAddress?_congr hregisters hview throughPointer (.indirectRegister r)
      exact .inr ⟨_, htarget, (movedToMemory_move hsource hdestination rfl).congr hregisters hview⟩
  | indirectImmediate place =>
      have htarget := effectiveAddress?_congr hregisters hview throughPointer
        (.indirectImmediate place)
      exact .inr ⟨_, htarget, (movedToMemory_move hsource hdestination rfl).congr hregisters hview⟩

/-- The destination of this move overlaps the pointer that it is reached by, and the pointer is changed
by the move. -/
theorem sized_move_is_exact_onto_own_pointer :
    let board : Board :=
      { empty {} with
        bindings := #[⟨⟨0, 24⟩, .memory ⟨#[0x28, 12, 0, 0, 0, 16, 0, 0, 0, 0, 0, 0,
          14, 0, 0, 0, 20, 0, 0, 0, 0xAA, 0xBB, 0, 0]⟩⟩] }
    let instruction : Instruction :=
      ⟨⟨0x28, .movSized .w16, [.indirectImmediate, .indirectImmediate]⟩,
        [.indirectImmediate 12, .indirectImmediate 16]⟩
    (board.fetch (board.register .pc)).1 = .ok instruction ∧
    instruction.mnemonic = .movSized .w16 ∧
    ∃ executed, board.Executes instruction executed ∧
      executed.memoryBytes 14 2 = [0xAA, 0xBB] ∧ executed.memoryByte? 12 = some 14 ∧
      executed.register .fl = 0 := by
  intro board instruction
  have hfetch : (board.fetch (board.register .pc)).1 = .ok instruction := by decide +kernel
  have hmoves : instruction.mnemonic = .movSized .w16 := rfl
  obtain ⟨destination, source, hoperands, hmoved⟩ := sized_move_is_exact hfetch hmoves
  obtain ⟨rfl, rfl⟩ : destination = .indirectImmediate 12 ∧ source = .indirectImmediate 16 := by
    simpa [instruction] using hoperands.symm
  let ready := board.setRegister .pc (board.register .pc + UInt32.ofNat instruction.length)
  have hto : ready.effectiveAddress? true (.indirectImmediate 12) = some 14 := by decide +kernel
  have hfrom : ready.effectiveAddress? true (.indirectImmediate 16) = some 20 := by decide +kernel
  obtain ⟨executed, hexecutes, hcases⟩ := hmoved <| by
    intro operand hmem address haccess
    rw [hoperands, List.mem_cons, List.mem_singleton] at hmem
    cases haccess with
    | pointer _ hplace hwithin =>
        rcases hmem with rfl | rfl
        · obtain rfl := Operand.indirectImmediate.inj hplace
          exact Word.forall_within (by decide +kernel) address hwithin
        · obtain rfl := Operand.indirectImmediate.inj hplace
          exact Word.forall_within (by decide +kernel) address hwithin
    | moved hbase hwithin =>
        rcases hmem with rfl | rfl
        · obtain rfl := Option.some.inj (hto.symm.trans hbase)
          exact Word.forall_within (by decide +kernel) address hwithin
        · obtain rfl := Option.some.inj (hfrom.symm.trans hbase)
          exact Word.forall_within (by decide +kernel) address hwithin
  rcases hcases with ⟨r, hregister, _⟩ | ⟨target, htarget, hbytes, hother, hregisters⟩
  · contradiction
  · obtain rfl := Option.some.inj (hto.symm.trans htarget)
    refine ⟨hfetch, rfl, executed, hexecutes, hbytes.trans (by decide +kernel), ?_, ?_⟩
    · exact (hother 12 (by decide)).trans (by decide +kernel)
    · rw [register, hregisters]
      rfl

end Board

end TinyComputer
