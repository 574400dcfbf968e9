import TinyComputer.Processor.Execute
import TinyComputer.Proofs.DeviceAccess
import TinyComputer.Proofs.MachineCode

/-!
# Faults are atomic

A step either completes an instruction and then looks for an interrupt, or it faults. A fault leaves
every register as it was, the program counter included, and every device, but for the key events that
were taken by fetching the instruction from a keyboard.
-/

namespace TinyComputer

namespace RegisterFile

/-- Writing a register and then its old contents changes nothing. -/
theorem write_write_read (registers : RegisterFile) (r : Register) (value : Word) :
    (registers.write r value).write r (registers.read r) = registers := by
  apply RegisterFile.ext
  intro other
  by_cases heq : other = r
  · rw [heq, read_write_self]
  · rw [read_write_of_ne _ _ heq, read_write_of_ne _ _ heq]

end RegisterFile

namespace Board

theorem setRegister_setRegister {board : Board} {r : Register} {old : Word}
    (hold : board.register r = old) (value : Word) :
    (board.setRegister r value).setRegister r old = board := by
  rw [← hold]
  exact congrArg (fun registers => { board with registers })
    (board.registers.write_write_read r value)

/-- The board right after the instruction at the program counter, before an interrupt is taken. -/
def Completes (board executed : Board) : Prop :=
  ∃ instruction fetched,
    board.fetch (board.register .pc) = (.ok instruction, fetched) ∧
    (fetched.setRegister .pc (board.register .pc + UInt32.ofNat instruction.length)).execute
      (board.register .pc) instruction = (none, executed)

/-- The board right after the instruction at the program counter, if it completes. -/
def completed? (board : Board) : Option Board :=
  match board.fetch (board.register .pc) with
  | (.ok instruction, fetched) =>
      let next := board.register .pc + UInt32.ofNat instruction.length
      match (fetched.setRegister .pc next).execute (board.register .pc) instruction with
      | (none, executed) => some executed
      | (some _, _) => none
  | (.error _, _) => none

theorem completes_iff {board executed : Board} :
    board.Completes executed ↔ board.completed? = some executed := by
  unfold Completes completed?
  cases hfetch : board.fetch (board.register .pc) with
  | mk result fetched =>
      cases result with
      | error error => simp
      | ok instruction =>
          simp only [Prod.mk.injEq, Except.ok.injEq]
          constructor
          · rintro ⟨_, _, ⟨rfl, rfl⟩, hexecute⟩
            rw [hexecute]
          · intro h
            split at h
            next executed hexecute =>
              obtain rfl := Option.some.inj h
              exact ⟨instruction, fetched, ⟨rfl, rfl⟩, hexecute⟩
            next => contradiction

noncomputable instance (board executed : Board) : Decidable (board.Completes executed) :=
  decidable_of_iff' _ completes_iff

theorem step_of_completes {board executed : Board} (h : board.Completes executed) :
    board.step = (none, executed.serviceInterrupt) := by
  obtain ⟨instruction, fetched, hfetch, hexecute⟩ := h
  simp only [step, hfetch, hexecute]

/-- Whatever is fetched is an instruction of the opcode table, with operands in its slots. -/
theorem wellFormed_of_fetch {board fetched : Board} {address : Word} {instruction : Instruction}
    (h : board.fetch address = (.ok instruction, fetched)) : instruction.WellFormed := by
  have hdecode := congrArg Prod.fst h
  exact (Instruction.decode_eq_ok_iff.mp hdecode).1

/-- An instruction that faults has not written anything yet. -/
theorem execute_of_fault {board after : Board} {pc : Word} {instruction : Instruction}
    {fault : Fault} (h : board.execute pc instruction = (some fault, after)) : after = board := by
  unfold execute at h
  split at h
  -- Arithmetic depends on the divisor, and a branch on its condition.
  all_goals try split at h
  -- Both faults are raised on the board as it was; everywhere else there is none.
  all_goals cases h
  all_goals rfl

/-- A fault comes from fetching the instruction or from executing it. In the second case only the
program counter was moved, and it is moved back. -/
theorem step_of_fault {board : Board} {fault : Fault} (h : board.step.1 = some fault) :
    board.step.2 = (board.fetch (board.register .pc)).2 := by
  rw [step] at h ⊢
  cases hfetch : board.fetch (board.register .pc) with
  | mk result fetched =>
      have hpc : fetched.register .pc = board.register .pc := by
        have hregisters := (board.agreeButQueues_fetch (board.register .pc)).registers_eq
        rw [hfetch] at hregisters
        rw [register, register, hregisters]
      rw [hfetch] at h
      cases result with
      | error error => rfl
      | ok instruction =>
          simp only at h ⊢
          split at h
          next found executed hexecute =>
            obtain rfl := execute_of_fault hexecute
            simp only [setRegister_setRegister hpc]
          next => contradiction

/-- A step that faults changes nothing but the queues and latches of keyboards that the instruction
was fetched from: every register holds what it held, and so does every byte of memory, every register
and unit of a storage device, and every count of interrupt requests. -/
theorem step_fault_atomic {board : Board} {fault : Fault} (h : board.step.1 = some fault) :
    (∀ r, board.step.2.register r = board.register r) ∧
    board.step.2.config = board.config ∧ board.step.2.nextSlot = board.nextSlot ∧
    board.step.2.nextLine = board.nextLine ∧
    ∀ id, board.step.2.bindings[id]? = board.bindings[id]? ∨
      ∃ window keyboard queue latch,
        board.bindings[id]? = some ⟨window, .keyboard keyboard⟩ ∧
        board.step.2.bindings[id]? = some ⟨window, .keyboard { keyboard with queue, latch }⟩ ∧
        board.routeIndex? (window.base + Keyboard.dequeueOffset) = some id ∧
        Word.Within (board.register .pc) (instructionLength (board.peek (board.register .pc)))
          (window.base + Keyboard.dequeueOffset) := by
  have hagree := board.agreeButQueues_fetch (board.register .pc)
  rw [← step_of_fault h] at hagree
  refine ⟨?_, hagree.config_eq, hagree.nextSlot_eq, hagree.nextLine_eq, hagree.binding⟩
  intro r
  rw [register, register, hagree.registers_eq]

/-- An instruction that is fetched from the queue of a keyboard takes two events, one for its length
and one for its opcode. The events stay taken when the second one is no opcode. -/
theorem step_fault_atomic_in_queue :
    let keyboard : Keyboard := { queue := [0x04, 0xFF, 0x01] }
    let board : Board :=
      { empty {} with
        registers := RegisterFile.zero.write .pc Keyboard.dequeueOffset
        bindings := #[⟨⟨0, 0x20⟩, .keyboard keyboard⟩] }
    board.step.1 = some (.invalidOpcode Keyboard.dequeueOffset 0xFF) ∧
      (∀ r, board.step.2.register r = board.register r) ∧
      board.step.2.device? 0 = some (.keyboard { keyboard with queue := [0x01], latch := 0xFF }) := by
  intro keyboard board
  have hfault : board.step.1 = some (.invalidOpcode Keyboard.dequeueOffset 0xFF) := by
    decide +kernel
  exact ⟨hfault, (step_fault_atomic hfault).1, by decide +kernel⟩

end Board

end TinyComputer
