import TinyComputer.Machine.Basic
import TinyComputer.Proofs.Stack

/-!
# What steps keep

A step of the processor is made of single accesses: it reads and writes bytes, sets registers, and takes
an interrupt request. What each of these keeps, whatever the board, a step keeps, and so does a run.
-/

namespace TinyComputer

/-- What every step keeps, a run keeps, wherever it stops. -/
theorem Machine.runUntil_kept {P : Machine → Prop}
    (hstep : ∀ {machine : Machine}, P machine → P machine.step.2) (stop : Word → Bool) (limit : Nat)
    {machine : Machine} (h : P machine) : P (machine.runUntil stop limit).2 := by
  induction limit generalizing machine with
  | zero => exact h
  | succ limit ih =>
      have hkept : P machine.step.2 := hstep h
      unfold runUntil
      split
      next hfault => rwa [hfault] at hkept
      next hnone =>
        rw [hnone] at hkept
        simp only
        split
        · exact hkept
        · exact ih hkept

namespace Board

/-- A property of boards that every single access keeps. -/
structure KeptByAccesses (P : Board → Prop) : Prop where
  setRegister : ∀ {board : Board} (r : Register) (value : Word), P board →
    P (board.setRegister r value)
  touch : ∀ {board : Board} (address : Word), P board → P (board.touch address)
  write : ∀ {board : Board} (address : Word) (value : Byte), P board →
    P (board.write address value)
  takeInterrupt : ∀ {board : Board}, P board → P board.takeInterrupt.2

namespace KeptByAccesses

variable {P : Board → Prop} {board : Board}

/-! ## Longer accesses -/

theorem readBytes (h : KeptByAccesses P) (address : Word) (count : Nat) (hboard : P board) :
    P (board.readBytes address count).2 := by
  induction count generalizing board address with
  | zero => exact hboard
  | succ count ih =>
      rw [readBytes_succ]
      exact ih (address + 1) (h.touch address hboard)

theorem writeBytes (h : KeptByAccesses P) (address : Word) (bytes : List Byte) (hboard : P board) :
    P (board.writeBytes address bytes) := by
  induction bytes generalizing board address with
  | nil => exact hboard
  | cons byte rest ih => exact ih (address + 1) (h.write address byte hboard)

theorem readValue (h : KeptByAccesses P) (address : Word) (count : Nat) (hboard : P board) :
    P (board.readValue address count).2 :=
  h.readBytes address count hboard

theorem writeValue (h : KeptByAccesses P) (address : Word) (count : Nat) (value : Word)
    (hboard : P board) : P (board.writeValue address count value) :=
  h.writeBytes address _ hboard

theorem fetch (h : KeptByAccesses P) (address : Word) (hboard : P board) :
    P (board.fetch address).2 :=
  h.readBytes address _ (h.touch address hboard)

/-! ## Stack and operands -/

theorem setFlags (h : KeptByAccesses P) (flags : Flags) (hboard : P board) : P (board.setFlags flags) :=
  h.setRegister .fl flags.bits hboard

theorem push (h : KeptByAccesses P) (width : Width) (value : Word) (hboard : P board) :
    P (board.push width value) :=
  h.writeValue _ _ value (h.setRegister .sp _ hboard)

theorem pushRegister (h : KeptByAccesses P) (r : Register) (hboard : P board) :
    P (board.pushRegister r) :=
  h.push .w32 (board.register r) hboard

theorem pop (h : KeptByAccesses P) (width : Width) (hboard : P board) : P (board.pop width).2 :=
  h.setRegister .sp _ (h.readValue _ _ hboard)

theorem popInto (h : KeptByAccesses P) (width : Width) (r : Register) (hboard : P board) :
    P (board.popInto width r) :=
  h.setRegister r _ (h.pop width hboard)

theorem pushRegisters (h : KeptByAccesses P) (rs : List Register) (hboard : P board) :
    P (rs.foldl Board.pushRegister board) :=
  List.foldlRecOn rs _ hboard fun _ hpushed r _ => h.pushRegister r hpushed

theorem popRegisters (h : KeptByAccesses P) (rs : List Register) (hboard : P board) :
    P (rs.foldl (Board.popInto · .w32 ·) board) :=
  List.foldlRecOn rs _ hboard fun _ hpopped r _ => h.popInto .w32 r hpopped

theorem setResult (h : KeptByAccesses P) (r : Register) (result : ArithmeticResult) (hboard : P board) :
    P (board.setResult r result) :=
  h.setRegister r _ (h.setFlags _ hboard)

theorem operandAddress (h : KeptByAccesses P) (throughPointer : Bool) (operand : Operand)
    (hboard : P board) : P (board.operandAddress throughPointer operand).2 := by
  unfold Board.operandAddress
  split
  next address =>
    split
    next => exact h.readValue address 4 hboard
    next => exact hboard
  next => exact hboard

theorem load (h : KeptByAccesses P) (width : Width) (throughPointer : Bool) (operand : Operand)
    (hboard : P board) : P (board.load width throughPointer operand).2 := by
  cases operand with
  | register r => exact hboard
  | immediate value width => exact hboard
  | indirectRegister r =>
      have haddress := h.operandAddress throughPointer (.indirectRegister r) hboard
      exact h.readValue _ _ haddress
  | indirectImmediate address =>
      have haddress := h.operandAddress throughPointer (.indirectImmediate address) hboard
      exact h.readValue _ _ haddress

theorem store (h : KeptByAccesses P) (width : Width) (throughPointer : Bool) (operand : Operand)
    (value : Word) (hboard : P board) : P (board.store width throughPointer operand value) := by
  cases operand with
  | register r => exact h.setRegister r value (h.setFlags _ hboard)
  | immediate value width => exact hboard
  | indirectRegister r =>
      have haddress := h.operandAddress throughPointer (.indirectRegister r) hboard
      exact h.writeValue _ _ value haddress
  | indirectImmediate address =>
      have haddress := h.operandAddress throughPointer (.indirectImmediate address) hboard
      exact h.writeValue _ _ value haddress

theorem move (h : KeptByAccesses P) (width : Width) (throughPointer : Bool)
    (destination source : Operand) (hboard : P board) :
    P (board.move width throughPointer destination source) :=
  h.store width throughPointer destination _ (h.load width throughPointer source hboard)

/-! ## Interrupts -/

theorem enterInterrupt (h : KeptByAccesses P) (returnAddress : Word) (line : Byte) (hboard : P board) :
    P (board.enterInterrupt returnAddress line) := by
  have hsaved : P (board.saveContext returnAddress) :=
    h.setFlags _ (h.push .w32 _ (h.push .w32 returnAddress hboard))
  rw [enterInterrupt_eq]
  generalize board.saveContext returnAddress = saved at hsaved
  have hread := h.readValue (saved.config.vectorAddress line) 4 hsaved
  exact h.setRegister .pc _ hread

theorem leaveInterrupt (h : KeptByAccesses P) (hboard : P board) : P board.leaveInterrupt := by
  have hpopped : P (board.pop .w32).2 := h.pop .w32 hboard
  exact h.setRegister .pc _ (h.setFlags _ (h.pop .w32 hpopped))

theorem serviceInterrupt (h : KeptByAccesses P) (hboard : P board) : P board.serviceInterrupt := by
  have htaken := h.takeInterrupt hboard
  unfold Board.serviceInterrupt
  split
  next =>
    split
    next htake => rwa [htake] at htaken
    next line taken htake =>
      rw [htake] at htaken
      exact h.enterInterrupt _ line htaken
  next => exact hboard

/-! ## Steps and runs -/

/-- An instruction keeps what its accesses keep, also when it faults. -/
theorem execute (h : KeptByAccesses P) (pc : Word) (instruction : Instruction) (hboard : P board) :
    P (board.execute pc instruction).2 := by
  unfold Board.execute
  split
  · exact h.move _ _ _ _ hboard
  · exact h.move _ _ _ _ hboard
  · exact h.setFlags _ hboard
  · split
    · exact h.setResult _ _ hboard
    · exact hboard
  · exact h.setResult _ _ hboard
  · exact h.setResult _ _ hboard
  · exact h.setResult _ _ hboard
  · exact h.setRegister .pc _ (h.push .w32 _ hboard)
  · exact h.popInto .w32 .pc hboard
  · exact h.enterInterrupt _ _ hboard
  · exact h.leaveInterrupt hboard
  · exact h.leaveInterrupt hboard
  · split
    · exact h.setRegister .pc _ hboard
    · exact hboard
  · exact h.push _ _ hboard
  · exact h.popInto _ _ hboard
  · simp only
    exact h.pushRegisters Register.generalPurpose hboard
  · simp only
    exact h.popRegisters Register.generalPurpose.reverse hboard
  · exact h.setRegister .sp _ hboard
  · exact hboard
  · exact hboard

theorem step (h : KeptByAccesses P) (hboard : P board) : P board.step.2 := by
  have hfetched := h.fetch (board.register .pc) hboard
  unfold Board.step
  simp only
  split
  next hfetch => rwa [hfetch] at hfetched
  next instruction fetched hfetch =>
    rw [hfetch] at hfetched
    have hexecuted := h.execute (board.register .pc) instruction (h.setRegister .pc
      (board.register .pc + UInt32.ofNat instruction.length) hfetched)
    split
    next hexecute =>
      rw [hexecute] at hexecuted
      exact h.setRegister .pc _ hexecuted
    next hexecute =>
      rw [hexecute] at hexecuted
      exact h.serviceInterrupt hexecuted

theorem runUntil (h : KeptByAccesses P) (stop : Word → Bool) (limit : Nat) {machine : Machine}
    (hmachine : P machine.board) : P (machine.runUntil stop limit).2.board :=
  Machine.runUntil_kept (P := fun machine => P machine.board) h.step stop limit hmachine

end KeptByAccesses

end Board

end TinyComputer
