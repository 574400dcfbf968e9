import TinyComputer.Proofs.Faults
import TinyComputer.Proofs.FlagBits
import TinyComputer.Proofs.MemoryView

/-!
# Executing one instruction

An instruction that can be decoded has one of the shapes that the processor knows: as many operands as
its mnemonic takes, and a register where one is replaced or compared. It is executed on the board that
is left by fetching it, with the program counter behind it, and there it completes unless it divides by
zero. Instructions that calculate describe their result in the flags.
-/

namespace TinyComputer

namespace Mnemonic

/-- Whether the first operand has to be a register. -/
def takesRegister : Mnemonic → Bool
  | arithmetic _ | cmp | not | inc | dec | pop _ => true
  | _ => false

/-- The operands with which a mnemonic is executed. -/
inductive Takes : Mnemonic → List Operand → Prop
  | mov (destination source : Operand) : Takes .mov [destination, source]
  | movSized (width : Width) (destination source : Operand) :
      Takes (.movSized width) [destination, source]
  | arithmetic (op : ArithmeticOp) (r : Register) (source : Operand) :
      Takes (.arithmetic op) [.register r, source]
  | cmp (r : Register) (source : Operand) : Takes .cmp [.register r, source]
  | not (r : Register) : Takes .not [.register r]
  | inc (r : Register) : Takes .inc [.register r]
  | dec (r : Register) : Takes .dec [.register r]
  | branch (condition : Condition) (target : Operand) : Takes (.branch condition) [target]
  | jsr (target : Operand) : Takes .jsr [target]
  | ret : Takes .ret []
  | sys (line : Operand) : Takes .sys [line]
  | iret : Takes .iret []
  | sret : Takes .sret []
  | push (width : Width) (source : Operand) : Takes (.push width) [source]
  | pushAll : Takes .pushAll []
  | pop (width : Width) (r : Register) : Takes (.pop width) [.register r]
  | popAll : Takes .popAll []
  | popx (count : Operand) : Takes .popx [count]
  | nop : Takes .nop []

/-- The count of the operands and the kind of the first one are all there is to check. -/
theorem takes_of_length {mnemonic : Mnemonic} {operands : List Operand}
    (hlength : operands.length = mnemonic.arity)
    (hregister : mnemonic.takesRegister = true → ∃ r rest, operands = .register r :: rest) :
    mnemonic.Takes operands := by
  have hnone : operands.length = 0 → operands = [] := List.length_eq_zero_iff.mp
  have hone : operands.length = 1 → ∃ operand, operands = [operand] := List.length_eq_one_iff.mp
  have htwo : operands.length = 2 → ∃ first second, operands = [first, second] :=
    List.length_eq_two.mp
  have hsingle : mnemonic.takesRegister = true → operands.length = 1 →
      ∃ r, operands = [.register r] := by
    intro htakes hlength
    obtain ⟨r, rest, rfl⟩ := hregister htakes
    obtain rfl : rest = [] := List.length_eq_zero_iff.mp (Nat.succ.inj hlength)
    exact ⟨r, rfl⟩
  have hpair : mnemonic.takesRegister = true → operands.length = 2 →
      ∃ r source, operands = [.register r, source] := by
    intro htakes hlength
    obtain ⟨r, rest, rfl⟩ := hregister htakes
    obtain ⟨source, rfl⟩ := List.length_eq_one_iff.mp (Nat.succ.inj hlength)
    exact ⟨r, source, rfl⟩
  cases mnemonic with
  | mov =>
      obtain ⟨destination, source, rfl⟩ := htwo hlength
      exact .mov destination source
  | movSized width =>
      obtain ⟨destination, source, rfl⟩ := htwo hlength
      exact .movSized width destination source
  | arithmetic op =>
      obtain ⟨r, source, rfl⟩ := hpair rfl hlength
      exact .arithmetic op r source
  | cmp =>
      obtain ⟨r, source, rfl⟩ := hpair rfl hlength
      exact .cmp r source
  | not =>
      obtain ⟨r, rfl⟩ := hsingle rfl hlength
      exact .not r
  | inc =>
      obtain ⟨r, rfl⟩ := hsingle rfl hlength
      exact .inc r
  | dec =>
      obtain ⟨r, rfl⟩ := hsingle rfl hlength
      exact .dec r
  | pop width =>
      obtain ⟨r, rfl⟩ := hsingle rfl hlength
      exact .pop width r
  | branch condition =>
      obtain ⟨target, rfl⟩ := hone hlength
      exact .branch condition target
  | jsr =>
      obtain ⟨target, rfl⟩ := hone hlength
      exact .jsr target
  | sys =>
      obtain ⟨line, rfl⟩ := hone hlength
      exact .sys line
  | push width =>
      obtain ⟨source, rfl⟩ := hone hlength
      exact .push width source
  | popx =>
      obtain ⟨count, rfl⟩ := hone hlength
      exact .popx count
  | ret => exact hnone hlength ▸ .ret
  | iret => exact hnone hlength ▸ .iret
  | sret => exact hnone hlength ▸ .sret
  | pushAll => exact hnone hlength ▸ .pushAll
  | popAll => exact hnone hlength ▸ .popAll
  | nop => exact hnone hlength ▸ .nop

end Mnemonic

/-- In the opcode table, a register that has to be there has the first slot. -/
theorem Form.head?_slots : ∀ form ∈ Form.table, form.mnemonic.takesRegister = true →
    form.slots.head? = some .register := by
  decide +kernel

/-- A slot for a register holds a register. -/
theorem Slot.Holds.eq_register {operand : Operand} (h : Slot.Holds .register operand) :
    ∃ r, operand = .register r := by
  cases operand with
  | register r => exact ⟨r, rfl⟩
  | _ => exact absurd h.1 Bool.false_ne_true

/-- Whatever can be decoded has a shape that is executed. -/
theorem Instruction.WellFormed.takes {instruction : Instruction} (h : instruction.WellFormed) :
    instruction.mnemonic.Takes instruction.operands := by
  obtain ⟨hmem, hholds⟩ := Instruction.wellFormed_iff.mp h
  apply Mnemonic.takes_of_length (Instruction.length_operands h)
  intro htakes
  obtain ⟨slots, hslots⟩ := List.head?_eq_some_iff.mp (Form.head?_slots _ hmem htakes)
  rw [hslots, List.forall₂_cons_left_iff] at hholds
  obtain ⟨operand, rest, hholds, _, hoperands⟩ := hholds
  obtain ⟨r, rfl⟩ := hholds.eq_register
  exact ⟨r, rest, hoperands⟩

/-- A division by zero is all that has no result. -/
theorem ArithmeticOp.result?_eq_none_iff {op : ArithmeticOp} {a b : Word} :
    op.result? a b = none ↔ (op = .idiv ∨ op = .mod) ∧ b = 0 := by
  cases op <;> simp [result?]

namespace Board

variable {board executed : Board} {instruction : Instruction}

/-! ## What keeps an instruction from completing -/

/-- The instruction divides by the value of its second operand, which is zero. -/
def DividesByZero (board : Board) (instruction : Instruction) : Prop :=
  ∃ op r source, instruction.mnemonic = .arithmetic op ∧ (op = .idiv ∨ op = .mod) ∧
    instruction.operands = [.register r, source] ∧ board.operandValue source = 0

/-- Of the instructions that can be decoded, only those fault that divide by zero. -/
theorem execute_fault_iff (hwell : instruction.WellFormed) {pc : Word} {fault : Fault} :
    (board.execute pc instruction).1 = some fault ↔
      fault = .divisionByZero pc ∧ board.DividesByZero instruction := by
  have htakes := hwell.takes
  obtain ⟨⟨opcode, mnemonic, slots⟩, operands⟩ := instruction
  change mnemonic.Takes operands at htakes
  cases htakes with
  | arithmetic op r source =>
      have hdivides : board.DividesByZero ⟨⟨opcode, .arithmetic op, slots⟩, [.register r, source]⟩ ↔
          op.result? (board.register r) (board.operandValue source) = none := by
        rw [ArithmeticOp.result?_eq_none_iff]
        constructor
        · rintro ⟨_, _, _, hop, hdivision, hoperands, hzero⟩
          obtain rfl := Mnemonic.arithmetic.inj hop
          obtain ⟨_, rfl⟩ : _ ∧ source = _ := by simpa using hoperands
          exact ⟨hdivision, hzero⟩
        · rintro ⟨hdivision, hzero⟩
          exact ⟨op, r, source, rfl, hdivision, rfl, hzero⟩
      rw [hdivides]
      cases hresult : op.result? (board.register r) (board.operandValue source) with
      | none => simp [execute, Instruction.mnemonic, hresult, eq_comm]
      | some result => simp [execute, Instruction.mnemonic, hresult]
  | branch condition target =>
      have hnone : (board.execute pc ⟨⟨opcode, .branch condition, slots⟩, [target]⟩).1 = none := by
        simp only [execute, Instruction.mnemonic]
        split <;> rfl
      simp [hnone, DividesByZero, Instruction.mnemonic]
  | _ => simp [execute, DividesByZero, Instruction.mnemonic]

/-! ## Interrupts -/

/-- `sys` enters the handler of some line, with the address of the next instruction. -/
theorem execute_of_sys {instruction : Instruction} (hwell : instruction.WellFormed)
    (hsys : instruction.mnemonic = .sys) (board : Board) (pc : Word) :
    ∃ line, board.execute pc instruction = (none, board.enterInterrupt (board.register .pc) line) := by
  have hlength := Instruction.length_operands hwell
  rw [hsys] at hlength
  obtain ⟨operand, hoperands⟩ := List.length_eq_one_iff.mp hlength
  exact ⟨(board.operandValue operand).toUInt8, by simp only [execute, hsys, hoperands]⟩

/-- `iret` and `sret` do the same. -/
theorem execute_of_return {instruction : Instruction} (hwell : instruction.WellFormed)
    (hreturn : instruction.mnemonic = .iret ∨ instruction.mnemonic = .sret) (board : Board)
    (pc : Word) : board.execute pc instruction = (none, board.leaveInterrupt) := by
  rcases hreturn with hiret | hsret
  · simp only [execute, hiret, Instruction.operands_eq_nil hwell hiret rfl]
  · simp only [execute, hsret, Instruction.operands_eq_nil hwell hsret rfl]

/-! ## The instruction at the program counter -/

/-- The board on which the instruction at the program counter is executed: the instruction was fetched,
and the program counter is behind it. -/
def advanced (board : Board) (instruction : Instruction) : Board :=
  (board.fetch (board.register .pc)).2.setRegister .pc
    (board.register .pc + UInt32.ofNat instruction.length)

/-- The instruction at the program counter completes and leaves this board, on which no interrupt has
been taken yet. -/
structure Executes (board : Board) (instruction : Instruction) (executed : Board) : Prop where
  fetch_eq : (board.fetch (board.register .pc)).1 = .ok instruction
  execute_eq : (board.advanced instruction).execute (board.register .pc) instruction =
    (none, executed)

theorem Executes.wellFormed (h : board.Executes instruction executed) : instruction.WellFormed :=
  wellFormed_of_fetch (Prod.ext h.fetch_eq rfl)

theorem Executes.completes (h : board.Executes instruction executed) : board.Completes executed :=
  ⟨instruction, _, Prod.ext h.fetch_eq rfl, h.execute_eq⟩

/-- Fetching an instruction moves the program counter and no other register. -/
theorem registers_advanced (board : Board) (instruction : Instruction) :
    (board.advanced instruction).registers =
      board.registers.write .pc (board.register .pc + UInt32.ofNat instruction.length) := by
  have hregisters := (board.agreeButQueues_fetch (board.register .pc)).registers_eq
  rw [advanced, setRegister, hregisters]

@[simp] theorem pc_advanced (board : Board) (instruction : Instruction) :
    (board.advanced instruction).register .pc =
      board.register .pc + UInt32.ofNat instruction.length :=
  register_setRegister_self _ _ _

theorem register_advanced_of_ne (board : Board) (instruction : Instruction) {r : Register}
    (hne : r ≠ .pc) : (board.advanced instruction).register r = board.register r := by
  rw [register, registers_advanced, RegisterFile.read_write_of_ne _ _ hne]
  rfl

@[simp] theorem flags_advanced (board : Board) (instruction : Instruction) :
    (board.advanced instruction).flags = board.flags :=
  congrArg Flags.mk (register_advanced_of_ne board instruction (by decide))

/-- Fetching an instruction leaves memory as it was. -/
theorem memoryByte?_advanced (board : Board) (instruction : Instruction) (address : Word) :
    (board.advanced instruction).memoryByte? address = board.memoryByte? address :=
  (board.agreeButQueues_fetch (board.register .pc)).memoryByte?_eq address

theorem inMemory_advanced {address : Word} (h : board.InMemory address) (instruction : Instruction) :
    (board.advanced instruction).InMemory address := by
  rwa [InMemory, memoryByte?_advanced]

/-- What is fetched completes, unless it divides by zero. -/
theorem exists_executes (hfetch : (board.fetch (board.register .pc)).1 = .ok instruction)
    (hdivides : ¬ (board.advanced instruction).DividesByZero instruction) :
    ∃ executed, board.Executes instruction executed := by
  have hwell : instruction.WellFormed := wellFormed_of_fetch (Prod.ext hfetch rfl)
  cases hexecute : (board.advanced instruction).execute (board.register .pc) instruction with
  | mk result executed =>
      cases result with
      | none => exact ⟨executed, hfetch, hexecute⟩
      | some fault =>
          have hfault := (execute_fault_iff hwell).mp (congrArg Prod.fst hexecute)
          exact absurd hfault.2 hdivides

/-! ## Results -/

variable {r : Register} {result : ArithmeticResult}

theorem flags_setResult (hne : r ≠ .fl) :
    (board.setResult r result).flags =
      board.flags.setResult result.value result.carry result.overflow := by
  have hkept : (board.setResult r result).register .fl =
      (board.setResultFlags result.value result.carry result.overflow).register .fl :=
    register_setRegister_of_ne _ _ hne.symm
  exact congrArg Flags.mk (hkept.trans (register_setRegister_self _ _ _))

theorem register_setResult_self : (board.setResult r result).register r = result.value :=
  register_setRegister_self _ _ _

theorem flags_compare (board : Board) (a b : Word) :
    (board.compare a b).flags =
      (board.flags.setResult (a - b) (ArithmeticResult.difference a b).carry
        (ArithmeticResult.difference a b).overflow).setComparison (b < a) (a < b) :=
  congrArg Flags.mk (register_setRegister_self _ _ _)

theorem register_compare_of_ne (board : Board) (a b : Word) (hne : r ≠ .fl) :
    (board.compare a b).register r = board.register r :=
  register_setRegister_of_ne _ _ hne

/-- A comparison writes seven flags. -/
theorem agreeBut_compare (board : Board) (a b : Word) :
    Flags.AgreeBut (Flags.resultFlags ++ Flags.comparisonFlags) board.flags (board.compare a b).flags := by
  rw [flags_compare]
  exact ((Flags.agreeBut_setResult _ _ _ _).mono (List.subset_append_left _ _)).trans
    ((Flags.agreeBut_setComparison _ _ _).mono (List.subset_append_right _ _))

/-- A comparison describes the difference; the order of the words is kept in flags of its own. -/
theorem describe_compare (board : Board) (a b : Word) :
    (board.compare a b).flags.Describe (.difference a b) := by
  rw [flags_compare]
  exact (Flags.describe_setResult board.flags (.difference a b)).of_agreeBut
    (Flags.agreeBut_setComparison _ _ _) (by decide)

end Board

/-! ## Calculations -/

/-- An operation of the arithmetic unit on two words, and the register that the first one is from. -/
structure Calculation where
  op : ArithmeticOp
  register : Register
  a : Word
  b : Word
  deriving DecidableEq, Repr

def Calculation.result? (calculation : Calculation) : Option ArithmeticResult :=
  calculation.op.result? calculation.a calculation.b

/-- Whether a mnemonic calculates with a register. -/
def Mnemonic.calculates : Mnemonic → Bool
  | arithmetic _ | cmp | inc | dec => true
  | _ => false

namespace Board

variable {board : Board} {instruction : Instruction} {calculation : Calculation}
  {result : ArithmeticResult}

/-- What an instruction calculates: `inc` and `dec` add and subtract one, and `cmp` subtracts. -/
def calculation? (board : Board) (instruction : Instruction) : Option Calculation :=
  match instruction.mnemonic, instruction.operands with
  | .arithmetic op, [.register r, source] =>
      some ⟨op, r, board.register r, board.operandValue source⟩
  | .cmp, [.register r, source] => some ⟨.sub, r, board.register r, board.operandValue source⟩
  | .inc, [.register r] => some ⟨.add, r, board.register r, 1⟩
  | .dec, [.register r] => some ⟨.sub, r, board.register r, 1⟩
  | _, _ => none

/-- An instruction that calculates has what it takes. -/
theorem exists_calculation? (hwell : instruction.WellFormed)
    (hcalculates : instruction.mnemonic.calculates = true) :
    ∃ calculation, board.calculation? instruction = some calculation := by
  have htakes := hwell.takes
  obtain ⟨⟨opcode, mnemonic, slots⟩, operands⟩ := instruction
  change mnemonic.Takes operands at htakes
  cases htakes with
  | arithmetic | cmp | inc | dec => exact ⟨_, rfl⟩
  | _ => contradiction

/-- A comparison keeps its result in the flags only; other calculations replace the register. -/
theorem execute_of_calculation? {pc : Word} (h : board.calculation? instruction = some calculation)
    (hresult : calculation.result? = some result) :
    board.execute pc instruction =
      (none, if instruction.mnemonic = .cmp then board.compare calculation.a calculation.b
        else board.setResult calculation.register result) := by
  unfold calculation? at h
  split at h
  next op r source hmnemonic hoperands =>
    obtain rfl := Option.some.inj h
    change op.result? (board.register r) (board.operandValue source) = some result at hresult
    simp only [execute, hmnemonic, hoperands, hresult, reduceCtorEq, if_false]
  next r source hmnemonic hoperands =>
    obtain rfl := Option.some.inj h
    simp only [execute, hmnemonic, hoperands, if_true]
  next r hmnemonic hoperands =>
    obtain rfl := Option.some.inj h
    obtain rfl : ArithmeticResult.sum (board.register r) 1 = result := Option.some.inj hresult
    simp only [execute, hmnemonic, hoperands, reduceCtorEq, if_false]
  next r hmnemonic hoperands =>
    obtain rfl := Option.some.inj h
    obtain rfl : ArithmeticResult.difference (board.register r) 1 = result := Option.some.inj hresult
    simp only [execute, hmnemonic, hoperands, reduceCtorEq, if_false]
  next => contradiction

end Board

end TinyComputer
