import TinyComputer.Proofs.Execution
import TinyComputer.Proofs.FetchOnce

/-!
# When a step faults

A step faults for one of three reasons, each of which is told by the bytes at the program counter and the
value of a divisor: the opcode is not listed, a slot for a register names none, or an instruction divides
by zero. If none of them applies, the step completes. The bytes are those that can be seen before the
step, unless the instruction is fetched from the queue of a keyboard.
-/

namespace TinyComputer

namespace Board

variable {board : Board} {address : Word} {count : Nat}

/-! ## Instructions that are off the queues of keyboards -/

/-- The bytes that can be seen from an address upwards. -/
def peekBytes (board : Board) (address : Word) : (count : Nat) → List Byte
  | 0 => []
  | count + 1 => board.peek address :: board.peekBytes (address + 1) count

/-- No keyboard has the lowest byte of its `DEQUEUE` among a count of bytes. -/
def OffQueues (board : Board) (address : Word) (count : Nat) : Prop :=
  ∀ id window keyboard, board.bindings[id]? = some ⟨window, .keyboard keyboard⟩ →
    board.routeIndex? (window.base + Keyboard.dequeueOffset) = some id →
    ¬ Word.Within address count (window.base + Keyboard.dequeueOffset)

theorem OffQueues.touch_eq (h : board.OffQueues address count) {other : Word}
    (hwithin : Word.Within address count other) : board.touch other = board := by
  rcases board.touch_cases other with hsame | ⟨id, window, keyboard, hbinding, hroute, rfl, _⟩
  · exact hsame
  · exact absurd hwithin (h id window keyboard hbinding hroute)

theorem readBytes_of_touch_eq
    (h : ∀ other, Word.Within address count other → board.touch other = board) :
    board.readBytes address count = (board.peekBytes address count, board) := by
  induction count generalizing address with
  | zero => rfl
  | succ count ih =>
      have hfirst := h address (Word.within_succ.mpr (.inl rfl))
      have hrest := ih fun other hwithin => h other (Word.within_succ.mpr (.inr hwithin))
      rw [readBytes_succ, hfirst, hrest, peekBytes]

/-- The bytes at an address, as far as an instruction with the opcode there goes. -/
def code (board : Board) (address : Word) : List Byte :=
  board.peekBytes address (board.fetchLength address)

theorem headD_code (board : Board) (address : Word) :
    (board.code address).headD 0 = board.peek address := by
  obtain ⟨count, hcount⟩ := board.fetchLength_eq_succ address
  rw [code, hcount, peekBytes, List.headD_cons]

/-- Off the queues, a fetch decodes what can be seen and changes nothing. -/
theorem OffQueues.fetch_eq (h : board.OffQueues address (board.fetchLength address)) :
    board.fetch address = (Instruction.decode (board.code address), board) := by
  have htouch : board.touch address = board := by
    obtain ⟨count, hcount⟩ := board.fetchLength_eq_succ address
    exact h.touch_eq (hcount ▸ Word.within_succ.mpr (.inl rfl))
  rw [Board.fetch_eq, htouch, readBytes_of_touch_eq fun _ => h.touch_eq, code]

/-! ## The reasons for a fault -/

/-- What is wrong with the instruction at the program counter. Its divisor is looked at when the program
counter is behind it already. -/
inductive Faults (board : Board) : Fault → Prop
  /-- The opcode is not listed. -/
  | invalidOpcode
      (hunlisted : ∀ form ∈ Form.table, form.opcode ≠ board.peek (board.register .pc)) :
      Faults board (.invalidOpcode (board.register .pc) (board.peek (board.register .pc)))
  /-- The opcode is listed, and this is the first slot for a register that names none. -/
  | invalidRegister {form : Form} {place : Nat} (hmem : form ∈ Form.table)
      (hopcode : form.opcode = board.peek (board.register .pc))
      (hplace : Slot.NamesNoRegister form.slots (board.code (board.register .pc)).tail place)
      (hfirst : ∀ earlier < place,
        ¬ Slot.NamesNoRegister form.slots (board.code (board.register .pc)).tail earlier) :
      Faults board (.invalidRegister (board.register .pc)
        (Slot.firstByte form.slots (board.code (board.register .pc)).tail place))
  /-- The bytes are an instruction that divides by zero. -/
  | divisionByZero {instruction : Instruction}
      (hdecode : Instruction.decode (board.code (board.register .pc)) = .ok instruction)
      (hdivides : (board.setRegister .pc (board.register .pc + UInt32.ofNat instruction.length))
        |>.DividesByZero instruction) :
      Faults board (.divisionByZero (board.register .pc))

/-- A step faults if the bytes cannot be decoded or the instruction cannot be executed. -/
theorem step_eq_some_iff
    (h : board.OffQueues (board.register .pc) (board.fetchLength (board.register .pc)))
    {fault : Fault} :
    board.step.1 = some fault ↔
      (∃ error, Instruction.decode (board.code (board.register .pc)) = .error error ∧
        fault = .ofDecodeError (board.register .pc) error) ∨
      ∃ instruction, Instruction.decode (board.code (board.register .pc)) = .ok instruction ∧
        ((board.setRegister .pc (board.register .pc + UInt32.ofNat instruction.length)).execute
          (board.register .pc) instruction).1 = some fault := by
  rw [step, h.fetch_eq]
  cases Instruction.decode (board.code (board.register .pc)) with
  | error error => simp [eq_comm]
  | ok instruction =>
      simp only
      cases hexecute : (board.setRegister .pc
        (board.register .pc + UInt32.ofNat instruction.length)).execute (board.register .pc)
          instruction with
      | mk result executed => cases result <;> simp [hexecute]

theorem step_eq_some_iff_faults
    (h : board.OffQueues (board.register .pc) (board.fetchLength (board.register .pc)))
    (fault : Fault) : board.step.1 = some fault ↔ board.Faults fault := by
  have hhead := board.headD_code (board.register .pc)
  rw [step_eq_some_iff h]
  constructor
  · rintro (⟨error, hdecode, rfl⟩ | ⟨instruction, hdecode, hexecute⟩)
    · cases error with
      | unknownOpcode opcode =>
          obtain ⟨rfl, hunlisted⟩ := Instruction.decode_eq_unknownOpcode_iff.mp hdecode
          rw [hhead] at hunlisted ⊢
          exact .invalidOpcode hunlisted
      | invalidRegister index =>
          obtain ⟨form, hmem, hopcode, place, hplace, hfirst, rfl⟩ :=
            Instruction.decode_eq_invalidRegister_iff.mp hdecode
          exact .invalidRegister hmem (hopcode.trans hhead) hplace hfirst
    · have hwell := (Instruction.decode_eq_ok_iff.mp hdecode).1
      obtain ⟨rfl, hdivides⟩ := (execute_fault_iff hwell).mp hexecute
      exact .divisionByZero hdecode hdivides
  · intro hfaults
    cases hfaults with
    | invalidOpcode hunlisted =>
        refine .inl ⟨.unknownOpcode _, Instruction.decode_eq_unknownOpcode_iff.mpr ?_, rfl⟩
        rw [hhead]
        exact ⟨rfl, hunlisted⟩
    | invalidRegister hmem hopcode hplace hfirst =>
        refine .inl ⟨.invalidRegister _, Instruction.decode_eq_invalidRegister_iff.mpr ?_, rfl⟩
        exact ⟨_, hmem, hopcode.trans hhead.symm, _, hplace, hfirst, rfl⟩
    | divisionByZero hdecode hdivides =>
        have hwell := (Instruction.decode_eq_ok_iff.mp hdecode).1
        exact .inr ⟨_, hdecode, (execute_fault_iff hwell).mpr ⟨rfl, hdivides⟩⟩

/-- With the instruction off the queues of keyboards, a step faults exactly for the reasons that are
listed, with the fault that says the reason, and completes in all other cases. An instruction that was
decoded, from whatever bytes and on whatever board, has no fault but a division by zero: it never comes
to the case of an instruction that is not known. -/
theorem step_faults_exactly
    (h : board.OffQueues (board.register .pc) (board.fetchLength (board.register .pc))) :
    (∀ fault, board.step.1 = some fault ↔ board.Faults fault) ∧
    (board.step.1 = none ↔ ∀ fault, ¬ board.Faults fault) ∧
    ∀ bytes instruction, Instruction.decode bytes = .ok instruction →
      ∀ (executing : Board) pc fault, (executing.execute pc instruction).1 = some fault →
        fault = .divisionByZero pc ∧ executing.DividesByZero instruction := by
  have hiff := step_eq_some_iff_faults h
  refine ⟨hiff, ?_, ?_⟩
  · simp only [← hiff, Option.eq_none_iff_forall_ne_some, ne_eq]
  · intro bytes instruction hdecode executing pc fault hexecute
    exact (execute_fault_iff (Instruction.decode_eq_ok_iff.mp hdecode).1).mp hexecute

/-- A division by the program counter at the end of the address space. The program counter is zero when
it is read as the divisor, since it is behind the instruction. -/
theorem step_faults_exactly_at_the_end :
    let board : Board :=
      { empty {} with
        registers := RegisterFile.zero.write .pc 0xFFFFFFFD
        bindings := #[
          ⟨⟨0xFFFFFFF0, 0x10⟩, .memory ⟨#[0, 0, 0, 0, 0, 0, 0, 0, 0, 0, 0, 0, 0, 0x52, 0, 0x0E]⟩⟩,
          ⟨⟨0x1000, 0x20⟩, .keyboard {}⟩] }
    board.OffQueues 0xFFFFFFFD (board.fetchLength 0xFFFFFFFD) ∧
      board.Faults (.divisionByZero 0xFFFFFFFD) ∧ board.step.1 ≠ none := by
  intro board
  have hoff : board.OffQueues 0xFFFFFFFD (board.fetchLength 0xFFFFFFFD) := by
    intro id window keyboard hbinding _
    match id with
    | 0 => cases hbinding
    | 1 =>
        have hwindow : window = ⟨0x1000, 0x20⟩ :=
          (Binding.mk.inj (Option.some.inj hbinding)).1.symm
        subst hwindow
        decide +kernel
    | id + 2 => contradiction
  obtain ⟨hfaults, hcompletes, _⟩ := step_faults_exactly hoff
  have hfault : board.Faults (.divisionByZero 0xFFFFFFFD) :=
    (hfaults _).mp (by decide +kernel)
  exact ⟨hoff, hfault, fun hnone => hcompletes.mp hnone _ hfault⟩

end Board

end TinyComputer
