import TinyComputer.Proofs.Execution
import TinyComputer.Proofs.InterruptDispatch

/-!
# Returning from an interrupt

A handler is entered with the context of the program at its stack pointer: four bytes of flags and
above them the address to come back to. A handler that keeps these eight bytes and comes back to the
stack pointer that it was entered with may change all else: `iret` and `sret` give the program its
program counter, its flags and its stack pointer again, and change nothing beside them.
-/

namespace TinyComputer

theorem RegisterFile.write_write (registers : RegisterFile) (r : Register) (first second : Word) :
    (registers.write r first).write r second = registers.write r second := by
  simp only [write, Vector.set_set]

namespace Board

variable {board before entered handled : Board} {bits returnAddress : Word}

/-! ## The context at the stack pointer -/

/-- The context of a program lies at the stack pointer, in memory. -/
structure HoldsContext (bits returnAddress : Word) (board : Board) : Prop where
  inMemory : ∀ address, Word.Within (board.register .sp) 8 address → board.InMemory address
  flags_eq : board.memoryBytes (board.register .sp) 4 = Word.toBytes 4 bits
  returnAddress_eq : board.memoryBytes (board.register .sp + 4) 4 = Word.toBytes 4 returnAddress

/-- What a handler has to keep: the stack pointer that it was entered with, and the eight bytes of
the context there. -/
structure KeepsContext (entered handled : Board) : Prop where
  sp_eq : handled.register .sp = entered.register .sp
  memoryByte?_eq : ∀ address, Word.Within (entered.register .sp) 8 address →
    handled.memoryByte? address = entered.memoryByte? address

/-- The lower half of the context. -/
theorem within_context_lower {sp other : Word} (h : Word.Within sp 4 other) :
    Word.Within sp 8 other :=
  Nat.lt_of_lt_of_le h (by decide)

/-- The upper half of the context. -/
theorem within_context_upper {sp other : Word} (h : Word.Within (sp + 4) 4 other) :
    Word.Within sp 8 other :=
  Word.within_of_within_add h (Nat.le_refl 8)

theorem HoldsContext.of_keepsContext (h : HoldsContext bits returnAddress entered)
    (hkept : KeepsContext entered handled) : HoldsContext bits returnAddress handled := by
  refine ⟨?_, ?_, ?_⟩
  · intro address hwithin
    rw [hkept.sp_eq] at hwithin
    rw [InMemory, hkept.memoryByte?_eq address hwithin]
    exact h.inMemory address hwithin
  · rw [hkept.sp_eq, ← h.flags_eq]
    exact memoryBytes_congr fun other hwithin =>
      hkept.memoryByte?_eq other (within_context_lower hwithin)
  · rw [hkept.sp_eq, ← h.returnAddress_eq]
    exact memoryBytes_congr fun other hwithin =>
      hkept.memoryByte?_eq other (within_context_upper hwithin)

/-- Reads keep the context, wherever they go. -/
theorem AgreeButQueues.keepsContext {reached : Word → Prop}
    (h : AgreeButQueues reached before handled) : KeepsContext before handled where
  sp_eq := by rw [register, register, h.registers_eq]
  memoryByte?_eq := fun address _ => h.memoryByte?_eq address

theorem KeepsContext.trans {middle : Board} (hfirst : KeepsContext before middle)
    (hsecond : KeepsContext middle handled) : KeepsContext before handled := by
  refine ⟨hsecond.sp_eq.trans hfirst.sp_eq, ?_⟩
  intro address hwithin
  rw [hsecond.memoryByte?_eq address (by rwa [hfirst.sp_eq]), hfirst.memoryByte?_eq address hwithin]

/-- Registers are no memory. -/
theorem keepsContext_setRegister (board : Board) {r : Register} (hne : r ≠ .sp) (value : Word) :
    KeepsContext board (board.setRegister r value) where
  sp_eq := register_setRegister_of_ne _ _ hne.symm
  memoryByte?_eq := fun _ _ => rfl

/-! ## Entering -/

theorem ContextSaved.holdsContext (h : ContextSaved returnAddress before entered)
    (hstack : ∀ address, Word.Within (before.register .sp - 8) 8 address →
      before.InMemory address) :
    HoldsContext (before.register .fl) returnAddress entered := by
  refine ⟨?_, ?_, ?_⟩
  · intro address hwithin
    rw [h.sp_eq] at hwithin
    exact (h.frame.inMemory_iff address).mpr (hstack address hwithin)
  · rw [h.sp_eq]
    exact h.savedFlags_eq
  · rw [h.sp_eq, Word.sub_eight_add_four]
    exact h.returnAddress_eq

/-- Once the context is saved, the vector is read, from wherever it is, and the program counter is
set. -/
theorem exists_enterInterrupt_eq (board : Board) (returnAddress : Word) (line : Byte) :
    ∃ handler final reached, AgreeButQueues reached (board.saveContext returnAddress) final ∧
      board.enterInterrupt returnAddress line = final.setRegister .pc handler := by
  have hagree := agreeButQueues_readValue (board.saveContext returnAddress)
    ((board.saveContext returnAddress).config.vectorAddress line) 4
  simp only [enterInterrupt_eq]
  cases hread : (board.saveContext returnAddress).readValue
    ((board.saveContext returnAddress).config.vectorAddress line) 4 with
  | mk handler final =>
      rw [hread] at hagree
      exact ⟨handler, final, _, hagree, rfl⟩

/-- A handler is entered with the context at its stack pointer, and with interrupts disabled. -/
theorem holdsContext_enterInterrupt (returnAddress : Word) (line : Byte)
    (hstack : ∀ address, Word.Within (board.register .sp - 8) 8 address →
      board.InMemory address) :
    HoldsContext (board.register .fl) returnAddress (board.enterInterrupt returnAddress line) ∧
      (board.enterInterrupt returnAddress line).register .sp = board.register .sp - 8 ∧
      (board.enterInterrupt returnAddress line).flags.get .interrupts = false := by
  have hcontext := contextSaved_saveContext returnAddress hstack
  obtain ⟨handler, final, reached, hagree, hentered⟩ :=
    board.exists_enterInterrupt_eq returnAddress line
  have hkept : KeepsContext (board.saveContext returnAddress) (final.setRegister .pc handler) :=
    hagree.keepsContext.trans (keepsContext_setRegister final (by decide) handler)
  have hflags : (final.setRegister .pc handler).flags = board.flags.set .interrupts false := by
    rw [← hcontext.flags_eq, flags, flags, ← hagree.registers_eq]
    exact congrArg Flags.mk (register_setRegister_of_ne final handler (by decide))
  rw [hentered]
  refine ⟨(hcontext.holdsContext hstack).of_keepsContext hkept, ?_, ?_⟩
  · exact hkept.sp_eq.trans hcontext.sp_eq
  · rw [hflags, Flags.get_set_self]

/-! ## Leaving -/

/-- The registers that a return from a handler leaves. -/
def returnRegisters (registers : RegisterFile) (sp bits returnAddress : Word) : RegisterFile :=
  ((registers.write .sp sp).write .fl bits).write .pc returnAddress

/-- The flags are popped before the return address, as they lie below it. -/
theorem leaveInterrupt_of_holdsContext (h : HoldsContext bits returnAddress board) :
    board.leaveInterrupt =
      { board with
        registers :=
          returnRegisters board.registers (board.register .sp + 8) bits returnAddress } := by
  have hfirst : board.pop .w32 = (bits, board.setRegister .sp (board.register .sp + 4)) := by
    apply pop_of_memoryBytes _ h.flags_eq
    exact fun other hwithin => h.inMemory other (within_context_lower hwithin)
  obtain ⟨moved, hmoved⟩ : ∃ moved, moved = board.setRegister .sp (board.register .sp + 4) :=
    ⟨_, rfl⟩
  have hsp : moved.register .sp = board.register .sp + 4 := by
    rw [hmoved, register_setRegister_self]
  have hsecond : moved.pop .w32 = (returnAddress, moved.setRegister .sp (moved.register .sp + 4)) := by
    apply pop_of_memoryBytes
    · rw [hsp, hmoved]
      exact fun other hwithin => h.inMemory other (within_context_upper hwithin)
    · rw [hsp, hmoved, memoryBytes_setRegister]
      exact h.returnAddress_eq
  have htop : moved.register .sp + 4 = board.register .sp + 8 := by
    rw [hsp, UInt32.add_assoc]
    rfl
  simp only [leaveInterrupt, hfirst, ← hmoved, hsecond, htop]
  simp only [hmoved, setFlags_eq, setRegister, returnRegisters, RegisterFile.write_write]

/-! ## The round trip -/

/-- What a return from a handler leaves: the program counter, the flags and the stack pointer of the
interrupted program, and all else as the handler left it. -/
structure Resumed (returnAddress : Word) (before handled returned : Board) : Prop where
  pc_eq : returned.register .pc = returnAddress
  flags_eq : returned.register .fl = before.register .fl
  sp_eq : returned.register .sp = before.register .sp
  register_eq : ∀ r, r ≠ .pc → r ≠ .fl → r ≠ .sp → returned.register r = handled.register r
  memoryByte?_eq : ∀ address, returned.memoryByte? address = handled.memoryByte? address
  /-- Of the devices, only a keyboard can be changed that the instruction is fetched from. -/
  devices : AgreeButQueues
    (Word.Within (handled.register .pc) (instructionLength (handled.peek (handled.register .pc))))
    handled { returned with registers := handled.registers }

/-- A handler that was entered with a return address resumes the program, by either instruction,
whatever else it did. -/
def Resumes (returnAddress : Word) (before entered : Board) : Prop :=
  ∀ handled, KeepsContext entered handled →
    ∀ instruction fetched, handled.fetch (handled.register .pc) = (.ok instruction, fetched) →
      instruction.mnemonic = .iret ∨ instruction.mnemonic = .sret →
        ∃ returned, handled.Completes returned ∧ Resumed returnAddress before handled returned

/-- The instruction is fetched from anywhere, and the context is popped. -/
theorem resumes_of_holdsContext
    (hcontext : HoldsContext (before.register .fl) returnAddress entered)
    (hsp : entered.register .sp = before.register .sp - 8) :
    Resumes returnAddress before entered := by
  intro handled hkept instruction fetched hfetch hreturn
  have hagree := handled.agreeButQueues_fetch (handled.register .pc)
  rw [hfetch] at hagree
  let next := handled.register .pc + UInt32.ofNat instruction.length
  have hfetched : KeepsContext entered (fetched.setRegister .pc next) :=
    (hkept.trans hagree.keepsContext).trans (keepsContext_setRegister fetched (by decide) next)
  have htop : (fetched.setRegister .pc next).register .sp + 8 = before.register .sp := by
    rw [hfetched.sp_eq, hsp, UInt32.sub_add_cancel]
  have hexecute := execute_of_return (wellFormed_of_fetch hfetch) hreturn
    (fetched.setRegister .pc next) (handled.register .pc)
  rw [leaveInterrupt_of_holdsContext (hcontext.of_keepsContext hfetched), htop] at hexecute
  have hregisters : fetched.registers = handled.registers := hagree.registers_eq
  refine ⟨_, ⟨instruction, fetched, hfetch, hexecute⟩, ?_, ?_, ?_, ?_, ?_, ?_⟩
  · exact RegisterFile.read_write_self _ _ _
  · rw [register, returnRegisters, RegisterFile.read_write_of_ne _ _ (by decide)]
    exact RegisterFile.read_write_self _ _ _
  · rw [register, returnRegisters, RegisterFile.read_write_of_ne _ _ (by decide),
      RegisterFile.read_write_of_ne _ _ (by decide)]
    exact RegisterFile.read_write_self _ _ _
  · intro r hpc hfl hsp
    rw [register, returnRegisters, RegisterFile.read_write_of_ne _ _ hpc,
      RegisterFile.read_write_of_ne _ _ hfl, RegisterFile.read_write_of_ne _ _ hsp, register,
      ← hregisters]
    exact RegisterFile.read_write_of_ne _ _ hpc
  · exact hagree.memoryByte?_eq
  · exact ⟨hagree.config_eq, rfl, hagree.nextSlot_eq, hagree.nextLine_eq, hagree.binding⟩

/-- The board that enters the handler may differ from the one before: it has to agree on what is
saved and on the memory for it. -/
theorem resumes_enterInterrupt (before entering : Board) (returnAddress : Word) (line : Byte)
    (hsp : entering.register .sp = before.register .sp)
    (hfl : entering.register .fl = before.register .fl)
    (hmemory : ∀ address, entering.memoryByte? address = before.memoryByte? address)
    (hstack : ∀ address, Word.Within (before.register .sp - 8) 8 address →
      before.InMemory address) :
    Resumes returnAddress before (entering.enterInterrupt returnAddress line) ∧
      (entering.enterInterrupt returnAddress line).flags.get .interrupts = false := by
  have hentering : ∀ address, Word.Within (entering.register .sp - 8) 8 address →
      entering.InMemory address := by
    intro address hwithin
    rw [hsp] at hwithin
    rw [InMemory, hmemory]
    exact hstack address hwithin
  obtain ⟨hcontext, htop, hdisabled⟩ := holdsContext_enterInterrupt returnAddress line hentering
  rw [hfl] at hcontext
  rw [hsp] at htop
  exact ⟨resumes_of_holdsContext hcontext htop, hdisabled⟩

/-- After `sys` interrupts are disabled, so the step ends with the handler entered. -/
theorem resumes_step_of_sys {instruction : Instruction} {fetched : Board}
    (hstack : ∀ address, Word.Within (board.register .sp - 8) 8 address →
      board.InMemory address)
    (hfetch : board.fetch (board.register .pc) = (.ok instruction, fetched))
    (hsys : instruction.mnemonic = .sys) :
    board.step.1 = none ∧
      Resumes (board.register .pc + UInt32.ofNat instruction.length) board board.step.2 := by
  let next := board.register .pc + UInt32.ofNat instruction.length
  have hagree := board.agreeButQueues_fetch (board.register .pc)
  rw [hfetch] at hagree
  have hregister : ∀ r, r ≠ .pc →
      (fetched.setRegister .pc next).register r = board.register r := by
    intro r hne
    rw [register_setRegister_of_ne _ _ hne, register, register, hagree.registers_eq]
  obtain ⟨line, hexecute⟩ := execute_of_sys (wellFormed_of_fetch hfetch) hsys
    (fetched.setRegister .pc next) (board.register .pc)
  rw [register_setRegister_self] at hexecute
  obtain ⟨hresumes, hdisabled⟩ := resumes_enterInterrupt board (fetched.setRegister .pc next) next
    line (hregister .sp (by decide)) (hregister .fl (by decide)) hagree.memoryByte?_eq hstack
  rw [step_of_completes ⟨instruction, fetched, hfetch, hexecute⟩,
    serviceInterrupt_of_disabled hdisabled]
  exact ⟨rfl, hresumes⟩

theorem resumes_serviceInterrupt {id : Nat} {line : Byte}
    (hstack : ∀ address, Word.Within (board.register .sp - 8) 8 address →
      board.InMemory address)
    (henabled : board.flags.get .interrupts = true) (hnext : board.NextRequest id line) :
    Resumes (board.register .pc) board board.serviceInterrupt := by
  rw [serviceInterrupt_of_nextRequest henabled hnext]
  exact (resumes_enterInterrupt board (board.modifyDevice id Device.acknowledge)
    (board.register .pc) line rfl rfl (board.memoryByte?_acknowledge id) hstack).1

/-- With the eight bytes below the stack pointer in memory, a handler resumes the program that it
interrupted. This holds for every return address and every line that it is entered with; a `sys`
instruction enters it with the address of the next instruction, and a device with the program counter
that the interrupted instruction left. -/
theorem resumes_after_interrupt
    (hstack : ∀ address, Word.Within (board.register .sp - 8) 8 address →
      board.InMemory address) :
    (∀ returnAddress line,
      Resumes returnAddress board (board.enterInterrupt returnAddress line)) ∧
    (∀ instruction fetched,
      board.fetch (board.register .pc) = (.ok instruction, fetched) →
      instruction.mnemonic = .sys →
        board.step.1 = none ∧
          Resumes (board.register .pc + UInt32.ofNat instruction.length) board board.step.2) ∧
    ∀ (start : Board) id line, start.Completes board → board.flags.get .interrupts = true →
      board.NextRequest id line →
        start.step.1 = none ∧ Resumes (board.register .pc) board start.step.2 := by
  refine ⟨?_, ?_, ?_⟩
  · intro returnAddress line
    exact (resumes_enterInterrupt board board returnAddress line rfl rfl (fun _ => rfl) hstack).1
  · intro instruction fetched hfetch hsys
    exact resumes_step_of_sys hstack hfetch hsys
  · intro start id line hcompletes henabled hnext
    rw [step_of_completes hcompletes]
    exact ⟨rfl, resumes_serviceInterrupt hstack henabled hnext⟩

/-- A `nop` lies before a `sys` and a keyboard has a request. The request interrupts the program
before the `sys`, which would enter the same handler and come back behind itself. The handler may
overwrite the `sys` as well. -/
theorem resumes_after_interrupt_of_keyboard_or_sys :
    let board : Board :=
      { empty { vectorBase := 0x20 } with
        registers := ((RegisterFile.zero.write .sp 0x20).write .fl 0x81).write .pc 1
        bindings := #[
          ⟨⟨0, 0x40⟩, .memory (((((Memory.zeros 0x40).write 0 0x87).write 1 0x76).write 2 0x01).write
            0x24 0x30 |>.write 0x30 0x77)⟩,
          ⟨⟨0x1000, 0x20⟩, .keyboard { line := some 1, pending := 1 }⟩] }
    let start := board.setRegister .pc 0
    let handled := (start.step.2.setRegister .a 5).write 1 0xFF
    Resumes 1 board start.step.2 ∧ Resumes 3 board board.step.2 ∧
      ∃ returned, handled.Completes returned ∧ Resumed 1 board handled returned := by
  intro board start handled
  have hstack : ∀ address, Word.Within (board.register .sp - 8) 8 address →
      board.InMemory address := Word.forall_within (by decide +kernel)
  have hcompletes : start.Completes board :=
    ⟨⟨⟨0x87, .nop, []⟩, []⟩, start, by decide +kernel, by decide +kernel⟩
  have hnext : board.NextRequest 1 1 := by
    refine ⟨⟨.keyboard { line := some 1, pending := 1 }, rfl, rfl, rfl⟩, ?_⟩
    intro earlier hlt other hother hasks
    obtain rfl : earlier = 0 := by omega
    obtain rfl := Option.some.inj hother
    exact absurd hasks.1 (by decide)
  obtain ⟨_, hsys, hdevice⟩ := resumes_after_interrupt hstack
  obtain ⟨_, hresumes⟩ := hdevice start 1 1 hcompletes (by decide +kernel) hnext
  obtain ⟨_, hresumes'⟩ := hsys ⟨⟨0x76, .sys, [.immediate .w8]⟩, [.immediate 1 .w8]⟩ board
    (by decide +kernel) rfl
  have hkept : KeepsContext start.step.2 handled :=
    ⟨by decide +kernel, Word.forall_within (by decide +kernel)⟩
  exact ⟨hresumes, hresumes', hresumes handled hkept ⟨⟨0x77, .iret, []⟩, []⟩ handled
    (by decide +kernel) (.inl rfl)⟩

end Board

end TinyComputer
