import TinyComputer.Proofs.CheckedInstructions

/-!
# Checked steps

What the processor does in a step, with every access to memory and every operation of the arithmetic unit
checked. The stack pointer, the program counter and `popx` wrap around by definition and need no check. No
instruction traps, and a step leads where it leads without the checks.
-/

namespace TinyComputer

/-- The address of the vector of an interrupt line. -/
def Config.checkedVectorAddress (config : Config) (line : Byte) : Checked Word := do
  let offset ← Checked.mul line.toUInt32 4
  return config.vectorBase + offset

theorem Config.checkedVectorAddress_eq_ok (config : Config) (line : Byte) :
    config.checkedVectorAddress line = .ok (config.vectorAddress line) := by
  have hline := line.toNat_lt
  have hfour : (4 : Word).toNat = 4 := rfl
  have hmul : line.toUInt32.toNat * (4 : Word).toNat < 2 ^ 32 := by
    rw [UInt8.toNat_toUInt32, hfour]
    omega
  rw [checkedVectorAddress, Checked.mul_eq_ok hmul]
  rfl

namespace Board

variable {board : Board}

/-! ## Stack and operands -/

def checkedPush (board : Board) (width : Width) (value : Word) : Checked Board :=
  let sp := board.register .sp - UInt32.ofNat width.bytes
  (board.setRegister .sp sp).checkedWriteValue sp width.bytes value

def checkedPop (board : Board) (width : Width) : Checked (Word × Board) := do
  let sp := board.register .sp
  let (value, next) ← board.checkedReadValue sp width.bytes
  return (value, next.setRegister .sp (sp + UInt32.ofNat width.bytes))

def checkedPushRegister (board : Board) (r : Register) : Checked Board :=
  board.checkedPush .w32 (board.register r)

def checkedPopInto (width : Width) (board : Board) (r : Register) : Checked Board := do
  let (value, next) ← board.checkedPop width
  return next.setRegister r value

/-- The address that an indirect operand refers to. -/
def checkedOperandAddress (board : Board) (throughPointer : Bool) :
    Operand → Checked (Word × Board)
  | .indirectImmediate address =>
      if throughPointer then board.checkedReadValue address 4 else return (address, board)
  | operand => return (board.operandValue operand, board)

def checkedLoad (board : Board) (width : Width) (throughPointer : Bool) (operand : Operand) :
    Checked (Word × Board) :=
  match operand with
  | .register r => return (board.register r &&& width.mask, board)
  | .immediate value _ => return (value &&& width.mask, board)
  | .indirectRegister _ | .indirectImmediate _ => do
      let (address, next) ← board.checkedOperandAddress throughPointer operand
      next.checkedReadValue address width.bytes

def checkedStore (board : Board) (width : Width) (throughPointer : Bool) (operand : Operand)
    (value : Word) : Checked Board :=
  match operand with
  | .register r => return (board.setResultFlags value false false).setRegister r value
  | .immediate _ _ => return board
  | .indirectRegister _ | .indirectImmediate _ => do
      let (address, next) ← board.checkedOperandAddress throughPointer operand
      next.checkedWriteValue address width.bytes value

def checkedMove (board : Board) (width : Width) (throughPointer : Bool)
    (destination source : Operand) : Checked Board := do
  let (value, next) ← board.checkedLoad width throughPointer source
  next.checkedStore width throughPointer destination value

theorem checkedPush_eq_ok (h : board.Countable) (width : Width) (value : Word) :
    board.checkedPush width value = .ok (board.push width value) :=
  checkedWriteValue_eq_ok (countable_kept.setRegister .sp _ h) _ width.bytes_le value

theorem checkedPop_eq_ok (h : board.Countable) (width : Width) :
    board.checkedPop width = .ok (board.pop width) := by
  rw [checkedPop, checkedReadValue_eq_ok h _ width.bytes_le]
  rfl

theorem checkedPushRegister_eq_ok (h : board.Countable) (r : Register) :
    board.checkedPushRegister r = .ok (board.pushRegister r) :=
  checkedPush_eq_ok h .w32 (board.register r)

theorem checkedPopInto_eq_ok (h : board.Countable) (width : Width) (r : Register) :
    board.checkedPopInto width r = .ok (board.popInto width r) := by
  rw [checkedPopInto, checkedPop_eq_ok h]
  rfl

/-- Registers are pushed or popped one after the other, each on the board that the last one left. -/
theorem foldlM_registers_eq_ok {f : Board → Register → Checked Board} {g : Board → Register → Board}
    (hf : ∀ {board : Board}, board.Countable → ∀ r, f board r = .ok (g board r))
    (hg : ∀ {board : Board}, board.Countable → ∀ r, (g board r).Countable) (h : board.Countable)
    (rs : List Register) : rs.foldlM f board = .ok (rs.foldl g board) := by
  induction rs generalizing board with
  | nil => rfl
  | cons r rs ih =>
      rw [List.foldlM_cons, hf h r, Checked.ok_bind, List.foldl_cons]
      exact ih (hg h r)

theorem checkedOperandAddress_eq_ok (h : board.Countable) (throughPointer : Bool) (operand : Operand) :
    board.checkedOperandAddress throughPointer operand =
      .ok (board.operandAddress throughPointer operand) := by
  cases operand with
  | indirectImmediate address =>
      cases throughPointer with
      | true => exact checkedReadValue_eq_ok h address (Nat.le_refl 4)
      | false => rfl
  | _ => rfl

theorem checkedLoad_eq_ok (h : board.Countable) (width : Width) (throughPointer : Bool)
    (operand : Operand) : board.checkedLoad width throughPointer operand =
      .ok (board.load width throughPointer operand) := by
  have hnext := countable_kept.operandAddress throughPointer operand h
  cases operand with
  | register r => rfl
  | immediate value _ => rfl
  | indirectRegister r =>
      rw [checkedLoad, checkedOperandAddress_eq_ok h, Checked.ok_bind]
      exact checkedReadValue_eq_ok hnext _ width.bytes_le
  | indirectImmediate address =>
      rw [checkedLoad, checkedOperandAddress_eq_ok h, Checked.ok_bind]
      exact checkedReadValue_eq_ok hnext _ width.bytes_le

theorem checkedStore_eq_ok (h : board.Countable) (width : Width) (throughPointer : Bool)
    (operand : Operand) (value : Word) : board.checkedStore width throughPointer operand value =
      .ok (board.store width throughPointer operand value) := by
  have hnext := countable_kept.operandAddress throughPointer operand h
  cases operand with
  | register r => rfl
  | immediate value _ => rfl
  | indirectRegister r =>
      rw [checkedStore, checkedOperandAddress_eq_ok h, Checked.ok_bind]
      exact checkedWriteValue_eq_ok hnext _ width.bytes_le value
  | indirectImmediate address =>
      rw [checkedStore, checkedOperandAddress_eq_ok h, Checked.ok_bind]
      exact checkedWriteValue_eq_ok hnext _ width.bytes_le value

theorem checkedMove_eq_ok (h : board.Countable) (width : Width) (throughPointer : Bool)
    (destination source : Operand) : board.checkedMove width throughPointer destination source =
      .ok (board.move width throughPointer destination source) := by
  have hloaded := countable_kept.load width throughPointer source h
  rw [checkedMove, checkedLoad_eq_ok h, Checked.ok_bind]
  exact checkedStore_eq_ok hloaded width throughPointer destination _

/-! ## Interrupts -/

/-- Save the return address and the flags on the stack, and disable interrupts. -/
def checkedSaveContext (board : Board) (returnAddress : Word) : Checked Board := do
  let pushed ← board.checkedPush .w32 returnAddress
  let saved ← pushed.checkedPush .w32 (pushed.register .fl)
  return saved.setFlags (saved.flags.set .interrupts false)

def checkedEnterInterrupt (board : Board) (returnAddress : Word) (line : Byte) : Checked Board := do
  let saved ← board.checkedSaveContext returnAddress
  let vector ← saved.config.checkedVectorAddress line
  let (handler, last) ← saved.checkedReadValue vector 4
  return last.setRegister .pc handler

def checkedLeaveInterrupt (board : Board) : Checked Board := do
  let (bits, next) ← board.checkedPop .w32
  let (target, last) ← next.checkedPop .w32
  return (last.setFlags ⟨bits⟩).setRegister .pc target

def checkedServiceInterrupt (board : Board) : Checked Board :=
  if board.flags.get .interrupts then do
    match ← board.checkedTakeInterrupt with
    | (none, next) => return next
    | (some line, next) => next.checkedEnterInterrupt (next.register .pc) line
  else return board

theorem checkedSaveContext_eq_ok (h : board.Countable) (returnAddress : Word) :
    board.checkedSaveContext returnAddress = .ok (board.saveContext returnAddress) := by
  have hpushed := countable_kept.push .w32 returnAddress h
  rw [checkedSaveContext, checkedPush_eq_ok h, Checked.ok_bind, checkedPush_eq_ok hpushed]
  rfl

theorem countable_saveContext (h : board.Countable) (returnAddress : Word) :
    (board.saveContext returnAddress).Countable :=
  countable_kept.setFlags _ (countable_kept.push .w32 _ (countable_kept.push .w32 returnAddress h))

theorem checkedEnterInterrupt_eq_ok (h : board.Countable) (returnAddress : Word) (line : Byte) :
    board.checkedEnterInterrupt returnAddress line = .ok (board.enterInterrupt returnAddress line) := by
  have hsaved := countable_saveContext h returnAddress
  rw [checkedEnterInterrupt, checkedSaveContext_eq_ok h, Checked.ok_bind,
    Config.checkedVectorAddress_eq_ok, Checked.ok_bind, checkedReadValue_eq_ok hsaved _ (Nat.le_refl 4)]
  rfl

theorem checkedLeaveInterrupt_eq_ok (h : board.Countable) :
    board.checkedLeaveInterrupt = .ok board.leaveInterrupt := by
  rw [checkedLeaveInterrupt, checkedPop_eq_ok h, Checked.ok_bind]
  dsimp only
  rw [checkedPop_eq_ok (countable_kept.pop .w32 h)]
  rfl

theorem checkedServiceInterrupt_eq_ok (h : board.Countable) :
    board.checkedServiceInterrupt = .ok board.serviceInterrupt := by
  have htaken : board.takeInterrupt.2.Countable := countable_kept.takeInterrupt h
  unfold checkedServiceInterrupt serviceInterrupt
  split
  next =>
    rw [checkedTakeInterrupt_eq_ok, Checked.ok_bind]
    generalize board.takeInterrupt = taken at htaken
    obtain ⟨line?, next⟩ := taken
    cases line? with
    | none => rfl
    | some line => exact checkedEnterInterrupt_eq_ok htaken _ line
  next => rfl

/-! ## Instructions -/

/-- Execute a decoded instruction that was fetched at `pc`. Instructions that reach no memory and shift or
multiply nothing have nothing to check. -/
def checkedExecute (board : Board) (pc : Word) (instruction : Instruction) :
    Checked (Option Fault × Board) :=
  match instruction.mnemonic, instruction.operands with
  | .mov, [destination, source] => do
      let next ← board.checkedMove .w32 instruction.form.storesThroughPointer destination source
      return (none, next)
  | .movSized width, [destination, source] => do
      let next ← board.checkedMove width instruction.form.storesThroughPointer destination source
      return (none, next)
  | .arithmetic op, [.register r, source] => do
      match ← op.checkedResult? (board.register r) (board.operandValue source) with
      | some result => return (none, board.setResult r result)
      | none => return (some (.divisionByZero pc), board)
  | .jsr, [target] => do
      let address := board.operandValue target
      let next ← board.checkedPush .w32 (board.register .pc)
      return (none, next.setRegister .pc address)
  | .ret, [] => do
      let next ← board.checkedPopInto .w32 .pc
      return (none, next)
  | .sys, [line] => do
      let next ← board.checkedEnterInterrupt (board.register .pc) (board.operandValue line).toUInt8
      return (none, next)
  | .iret, [] => do
      let next ← board.checkedLeaveInterrupt
      return (none, next)
  | .sret, [] => do
      let next ← board.checkedLeaveInterrupt
      return (none, next)
  | .push width, [source] => do
      let next ← board.checkedPush width (board.operandValue source &&& width.mask)
      return (none, next)
  | .pop width, [.register r] => do
      let next ← board.checkedPopInto width r
      return (none, next)
  | .pushAll, [] => do
      let next ← Register.generalPurpose.foldlM checkedPushRegister board
      return (none, next)
  | .popAll, [] => do
      let next ← Register.generalPurpose.reverse.foldlM (checkedPopInto .w32) board
      return (none, next)
  | _, _ => return board.execute pc instruction

/-- No instruction traps, whether or not it completes. -/
theorem checkedExecute_eq_ok (h : board.Countable) (pc : Word) (instruction : Instruction) :
    board.checkedExecute pc instruction = .ok (board.execute pc instruction) := by
  obtain ⟨⟨opcode, mnemonic, slots⟩, operands⟩ := instruction
  unfold checkedExecute
  dsimp only [Instruction.mnemonic]
  split
  · rw [checkedMove_eq_ok h]
    rfl
  · rw [checkedMove_eq_ok h]
    rfl
  next op r source =>
    rw [ArithmeticOp.checkedResult?_eq_ok, Checked.ok_bind, execute]
    dsimp only [Instruction.mnemonic]
    cases op.result? (board.register r) (board.operandValue source) with
    | none => rfl
    | some result => rfl
  · rw [checkedPush_eq_ok h]
    rfl
  · rw [checkedPopInto_eq_ok h]
    rfl
  · rw [checkedEnterInterrupt_eq_ok h]
    rfl
  · rw [checkedLeaveInterrupt_eq_ok h]
    rfl
  · rw [checkedLeaveInterrupt_eq_ok h]
    rfl
  · rw [checkedPush_eq_ok h]
    rfl
  · rw [checkedPopInto_eq_ok h]
    rfl
  · rw [foldlM_registers_eq_ok checkedPushRegister_eq_ok (fun h r => countable_kept.pushRegister r h) h]
    rfl
  · rw [foldlM_registers_eq_ok (checkedPopInto_eq_ok · .w32)
      (fun h r => countable_kept.popInto .w32 r h) h]
    rfl
  · rfl

/-! ## Steps -/

/-- Execute the instruction at the program counter and take at most one interrupt request. -/
def checkedStep (board : Board) : Checked (Option Fault × Board) := do
  let pc := board.register .pc
  match ← board.checkedFetch pc with
  | (.error error, next) => return (some (.ofDecodeError pc error), next)
  | (.ok instruction, next) => do
      let length ← instruction.form.checkedLength
      match ← (next.setRegister .pc (pc + length)).checkedExecute pc instruction with
      | (some fault, last) => return (some fault, last.setRegister .pc pc)
      | (none, last) => do
          let served ← last.checkedServiceInterrupt
          return (none, served)

/-- No step traps, and each leads where the step without checks leads. -/
theorem checkedStep_eq_ok (h : board.Countable) : board.checkedStep = .ok board.step := by
  have hfetched := countable_kept.fetch (board.register .pc) h
  have hlength : ∀ instruction, (board.fetch (board.register .pc)).1 = .ok instruction →
      instruction.form.checkedLength = .ok (UInt32.ofNat instruction.length) := fun _ hdecode =>
    Instruction.checkedLength_of_decode hdecode
  unfold checkedStep step
  dsimp only
  rw [checkedFetch_eq_ok h, Checked.ok_bind]
  -- Of the fetch no more is needed than that the board stays countable and that the length fits a word.
  generalize board.fetch (board.register .pc) = fetched at hfetched hlength
  obtain ⟨decoded, next⟩ := fetched
  cases decoded with
  | error error => rfl
  | ok instruction =>
      have hset := countable_kept.setRegister .pc
        (board.register .pc + UInt32.ofNat instruction.length) hfetched
      have hexecuted := countable_kept.execute (board.register .pc) instruction hset
      dsimp only
      rw [hlength instruction rfl, Checked.ok_bind, checkedExecute_eq_ok hset, Checked.ok_bind]
      generalize execute _ (board.register .pc) instruction = executed at hexecuted
      obtain ⟨fault?, last⟩ := executed
      cases fault? with
      | some fault => rfl
      | none =>
          dsimp only
          rw [checkedServiceInterrupt_eq_ok hexecuted]
          rfl

end Board

end TinyComputer
