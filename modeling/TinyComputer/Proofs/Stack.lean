import TinyComputer.Processor.Execute
import TinyComputer.Proofs.LittleEndian
import TinyComputer.Proofs.MemoryView

/-!
# The stack in memory

A value that is pushed on a stack in memory is found below the old stack pointer, and nothing else
has changed but the stack pointer. Entering an interrupt handler pushes the return address and then
the flags: the context of the interrupted program lies in the eight bytes below its stack pointer.
-/

namespace TinyComputer.Board

variable {written : Word → Prop} {board before after : Board} {address : Word}

@[simp] theorem memoryByte?_setRegister (board : Board) (r : Register) (value address : Word) :
    (board.setRegister r value).memoryByte? address = board.memoryByte? address :=
  rfl

theorem memoryBytes_setRegister (board : Board) (r : Register) (value address : Word)
    (count : Nat) :
    (board.setRegister r value).memoryBytes address count = board.memoryBytes address count :=
  memoryBytes_congr fun _ _ => memoryByte?_setRegister _ _ _ _

theorem AgreeButMemory.memoryBytes_eq (h : AgreeButMemory written before after) {count : Nat}
    (hdisjoint : ∀ other, Word.Within address count other → ¬ written other) :
    after.memoryBytes address count = before.memoryBytes address count :=
  memoryBytes_congr fun other hwithin => h.memoryByte?_eq other (hdisjoint other hwithin)

/-- A value in memory is made of its bytes, and reading it changes nothing. -/
theorem readValue_of_inMemory {count : Nat}
    (h : ∀ other, Word.Within address count other → board.InMemory other) :
    board.readValue address count = (Word.ofBytes (board.memoryBytes address count), board) := by
  rw [readValue, readBytes_of_inMemory h]

/-- A value that is written to memory is there, and nothing else has changed. -/
theorem writeValue_of_inMemory {width : Width}
    (h : ∀ other, Word.Within address width.bytes other → board.InMemory other) (value : Word) :
    AgreeButMemory (Word.Within address width.bytes) board
        (board.writeValue address width.bytes value) ∧
      (board.writeValue address width.bytes value).registers = board.registers ∧
      (board.writeValue address width.bytes value).memoryBytes address width.bytes =
        Word.toBytes width.bytes value := by
  have hlength := Word.length_toBytes width.bytes value
  have hbound : (Word.toBytes width.bytes value).length ≤ wordBound := by
    rw [hlength]
    exact Nat.le_trans width.bytes_le (by decide)
  rw [← hlength] at h
  obtain ⟨hagree, hregisters⟩ := agreeButMemory_writeBytes h
  have hbytes := memoryBytes_writeBytes hbound h
  rw [hlength] at hagree hbytes
  exact ⟨hagree, hregisters, hbytes⟩

/-! ## Pushing -/

/-- The address that the next push of a width goes to. -/
def pushAddress (board : Board) (width : Width) : Word :=
  board.register .sp - UInt32.ofNat width.bytes

variable {width : Width} {value : Word}

/-- How a push changes a board whose stack is in memory: the bytes below the stack pointer are those
of the value, and the stack pointer points to them. -/
structure Pushed (width : Width) (value : Word) (before after : Board) : Prop where
  frame : AgreeButMemory (Word.Within (before.pushAddress width) width.bytes) before after
  registers_eq : after.registers = before.registers.write .sp (before.pushAddress width)
  bytes_eq : after.memoryBytes (before.pushAddress width) width.bytes =
    Word.toBytes width.bytes value

theorem Pushed.register_eq (h : Pushed width value before after) {r : Register} (hne : r ≠ .sp) :
    after.register r = before.register r := by
  rw [register, register, h.registers_eq, RegisterFile.read_write_of_ne _ _ hne]

theorem Pushed.sp_eq (h : Pushed width value before after) :
    after.register .sp = before.pushAddress width := by
  rw [register, h.registers_eq, RegisterFile.read_write_self]

theorem pushed_push (value : Word)
    (h : ∀ other, Word.Within (board.pushAddress width) width.bytes other → board.InMemory other) :
    Pushed width value board (board.push width value) := by
  have hmoved : ∀ other, Word.Within (board.pushAddress width) width.bytes other →
      (board.setRegister .sp (board.pushAddress width)).InMemory other := h
  obtain ⟨hagree, hregisters, hbytes⟩ := writeValue_of_inMemory hmoved value
  have hpointer := (AgreeButMemory.refl (Word.Within (board.pushAddress width) width.bytes)
    board).setRegister .sp (board.pushAddress width)
  exact ⟨hpointer.trans hagree, hregisters, hbytes⟩

/-! ## Popping -/

/-- A pop from memory gives what is at the stack pointer and moves the pointer past it. -/
theorem pop_of_inMemory
    (h : ∀ other, Word.Within (board.register .sp) width.bytes other → board.InMemory other) :
    board.pop width =
      (Word.ofBytes (board.memoryBytes (board.register .sp) width.bytes),
        board.setRegister .sp (board.register .sp + UInt32.ofNat width.bytes)) := by
  simp only [pop, readValue_of_inMemory h]

/-- A word whose bytes are at the stack pointer is what a pop gives. -/
theorem pop_of_memoryBytes
    (h : ∀ other, Word.Within (board.register .sp) 4 other → board.InMemory other)
    (hbytes : board.memoryBytes (board.register .sp) 4 = Word.toBytes 4 value) :
    board.pop .w32 = (value, board.setRegister .sp (board.register .sp + 4)) := by
  have hword : Word.ofBytes (board.memoryBytes (board.register .sp) 4) = value := by
    rw [hbytes, Word.ofBytes_toBytes_four]
  rw [← hword]
  exact pop_of_inMemory h

/-- The word in memory at an address, if memory answers for all of it. -/
def memoryWord? (board : Board) (address : Word) : Option Word :=
  if ∀ offset < 4, board.InMemory (address + UInt32.ofNat offset) then
    some (Word.ofBytes (board.memoryBytes address 4))
  else none

theorem inMemory_of_memoryWord? {address : Word} (h : board.memoryWord? address = some word) :
    ∀ other, Word.Within address 4 other → board.InMemory other := by
  unfold memoryWord? at h
  split at h
  next hbytes => exact Word.forall_within hbytes
  next => contradiction

theorem pop_of_memoryWord? (h : board.memoryWord? (board.register .sp) = some word) :
    board.pop .w32 = (word, board.setRegister .sp (board.register .sp + 4)) := by
  have hmemory := inMemory_of_memoryWord? h
  have hword : Word.ofBytes (board.memoryBytes (board.register .sp) 4) = word := by
    unfold memoryWord? at h
    split at h
    next => exact Option.some.inj h
    next => contradiction
  rw [← hword]
  exact pop_of_inMemory hmemory

theorem memoryWord?_congr {before after : Board}
    (h : ∀ address, after.memoryByte? address = before.memoryByte? address) (address : Word) :
    after.memoryWord? address = before.memoryWord? address := by
  have hbytes : after.memoryBytes address 4 = before.memoryBytes address 4 :=
    memoryBytes_congr fun other _ => h other
  have hmemory : ∀ other, after.InMemory other ↔ before.InMemory other := by
    intro other
    rw [InMemory, InMemory, h]
  rw [memoryWord?, memoryWord?, hbytes]
  exact if_congr (forall₂_congr fun _ _ => hmemory _) rfl rfl

/-! ## The context of an interrupted program -/

/-- What a handler finds when it is entered. The program counter is left out: it comes from the
vector. -/
structure ContextSaved (returnAddress : Word) (before after : Board) : Prop where
  frame : AgreeButMemory (Word.Within (before.register .sp - 8) 8) before after
  sp_eq : after.register .sp = before.register .sp - 8
  flags_eq : after.flags = before.flags.set .interrupts false
  register_eq : ∀ r, r ≠ .sp → r ≠ .fl → after.register r = before.register r
  returnAddress_eq : after.memoryBytes (before.register .sp - 4) 4 = Word.toBytes 4 returnAddress
  savedFlags_eq :
    after.memoryBytes (before.register .sp - 8) 4 = Word.toBytes 4 (before.register .fl)

/-- The upper half of the eight bytes below the stack pointer. -/
theorem within_stack_upper {sp other : Word} (h : Word.Within (sp - 4) 4 other) :
    Word.Within (sp - 8) 8 other ∧ ¬ Word.Within (sp - 8) 4 other := by
  rw [← Word.sub_eight_add_four] at h
  exact ⟨Word.within_of_within_add h (Nat.le_refl 8),
    Word.not_within_of_within_add h (by decide)⟩

/-- The lower half of the eight bytes below the stack pointer. -/
theorem within_stack_lower {sp other : Word} (h : Word.Within (sp - 8) 4 other) :
    Word.Within (sp - 8) 8 other :=
  Nat.lt_of_lt_of_le h (by decide)

/-- The next word goes below a word that was pushed. -/
theorem Pushed.pushAddress_eq (h : Pushed .w32 value before after) :
    after.pushAddress .w32 = before.register .sp - 8 :=
  (congrArg (· - 4) h.sp_eq).trans (Word.sub_four_sub_four _)

/-- Two words that were pushed are the context of a program. -/
theorem contextSaved_of_pushed {returnAddress : Word} {pushed saved : Board}
    (hfirst : Pushed .w32 returnAddress before pushed)
    (hsecond : Pushed .w32 (before.register .fl) pushed saved) :
    ContextSaved returnAddress before (saved.setFlags (saved.flags.set .interrupts false)) := by
  have hregister : ∀ r, r ≠ .sp → saved.register r = before.register r := by
    intro r hne
    rw [hsecond.register_eq hne, hfirst.register_eq hne]
  have hflags : saved.flags = before.flags := congrArg Flags.mk (hregister .fl (by decide))
  have haddress := hfirst.pushAddress_eq
  have hframe := hsecond.frame
  have hbytes := hsecond.bytes_eq
  rw [haddress] at hframe hbytes
  have hupper := hfirst.frame.mono fun _ hwithin => (within_stack_upper hwithin).1
  have hlower := hframe.mono fun _ hwithin => within_stack_lower hwithin
  refine ⟨?_, ?_, ?_, ?_, ?_, ?_⟩
  · exact (hupper.trans hlower).setRegister .fl _
  · rw [setFlags_eq, register_setRegister_of_ne _ _ (by decide)]
    exact hsecond.sp_eq.trans haddress
  · rw [← hflags]
    exact congrArg Flags.mk (register_setRegister_self _ _ _)
  · intro r hsp hfl
    rw [setFlags_eq, register_setRegister_of_ne _ _ hfl, hregister r hsp]
  · -- The flags were pushed below the return address.
    rw [setFlags_eq, memoryBytes_setRegister,
      hframe.memoryBytes_eq fun _ hwithin => (within_stack_upper hwithin).2]
    exact hfirst.bytes_eq
  · rw [setFlags_eq, memoryBytes_setRegister]
    exact hbytes

/-- Push the return address and the flags, and disable interrupts. -/
def saveContext (board : Board) (returnAddress : Word) : Board :=
  let board := board.push .w32 returnAddress
  let board := board.push .w32 (board.register .fl)
  board.setFlags (board.flags.set .interrupts false)

/-- Entering a handler saves the context and then jumps to the vector. -/
theorem enterInterrupt_eq (board : Board) (returnAddress : Word) (line : Byte) :
    board.enterInterrupt returnAddress line =
      let saved := board.saveContext returnAddress
      let (handler, final) := saved.readValue (saved.config.vectorAddress line) 4
      final.setRegister .pc handler := rfl

theorem contextSaved_saveContext (returnAddress : Word)
    (h : ∀ other, Word.Within (board.register .sp - 8) 8 other → board.InMemory other) :
    ContextSaved returnAddress board (board.saveContext returnAddress) := by
  have hfirst : Pushed .w32 returnAddress board (board.push .w32 returnAddress) :=
    pushed_push returnAddress fun other hwithin => h other (within_stack_upper hwithin).1
  have hflags : (board.push .w32 returnAddress).register .fl = board.register .fl :=
    hfirst.register_eq (by decide)
  rw [saveContext, hflags]
  apply contextSaved_of_pushed hfirst
  apply pushed_push
  rw [hfirst.pushAddress_eq]
  intro other hwithin
  exact (hfirst.frame.inMemory_iff other).mpr (h other (within_stack_lower hwithin))

end TinyComputer.Board
