import TinyComputer.Proofs.RegisterEffects

/-!
# What an instruction leaves alone

An instruction changes the register that it replaces. Beyond that, jumps change the program counter,
stack operations the stack pointer, and one instruction takes all general purpose registers from the
stack. Of the flags, a result writes five and a comparison two more. The flag that enables interrupts
and the bits above it are left to interrupts and to programs that replace the register of the flags.
-/

namespace TinyComputer

namespace Mnemonic

/-- Whether a register that is the first operand is replaced. -/
def replaces : Mnemonic → Bool
  | mov | movSized _ | arithmetic _ | not | inc | dec | pop _ => true
  | _ => false

/-- Whether the stack pointer is moved. -/
def movesStack : Mnemonic → Bool
  | push _ | pop _ | pushAll | popAll | popx | jsr | ret | sys | iret | sret => true
  | _ => false

/-- Whether the program counter is set, which for branches depends on the flags. -/
def jumps (flags : Flags) : Mnemonic → Bool
  | branch condition => condition.holds flags
  | jsr | ret | sys | iret | sret => true
  | _ => false

/-- Whether all flags are taken from the stack. -/
def restoresFlags : Mnemonic → Bool
  | iret | sret => true
  | _ => false

end Mnemonic

namespace Instruction

/-- The register that an instruction replaces. -/
def destination? (instruction : Instruction) : Option Register :=
  match instruction.mnemonic.replaces, instruction.operands with
  | true, .register r :: _ => some r
  | _, _ => none

/-- The registers that an instruction may change when it is executed, the flags aside. -/
def changedRegisters (instruction : Instruction) (flags : Flags) : List Register :=
  instruction.destination?.toList ++
  (if instruction.mnemonic.jumps flags then [.pc] else []) ++
  (if instruction.mnemonic.movesStack then [.sp] else []) ++
  (if instruction.mnemonic = .popAll then Register.generalPurpose else [])

/-- The flags that an instruction writes one by one. -/
def writtenFlags (instruction : Instruction) : List Flag :=
  match instruction.mnemonic with
  | .cmp => Flags.resultFlags ++ Flags.comparisonFlags
  | .sys => [.interrupts]
  | .pop _ => []
  | _ => if instruction.destination?.isSome then Flags.resultFlags else []

/-- The flags of a result are written by comparisons, and where a register is replaced by the result. -/
theorem describes_cases {instruction : Instruction}
    (h : Flags.resultFlags ⊆ instruction.writtenFlags) :
    instruction.mnemonic = .cmp ∨
    ∃ r, instruction.destination? = some r ∧ instruction.writtenFlags = Flags.resultFlags := by
  unfold writtenFlags at h ⊢
  split at h
  next hcompares => exact .inl hcompares
  next => exact absurd h (by decide)
  next => exact absurd h (by decide)
  next =>
    split at h
    next hsome =>
      obtain ⟨r, hr⟩ := Option.isSome_iff_exists.mp hsome
      exact .inr ⟨r, hr, if_pos hsome⟩
    next => exact absurd h (by decide)

/-- Only `sys` writes the flag that enables interrupts. -/
theorem writtenFlags_subset {instruction : Instruction} (h : instruction.mnemonic ≠ .sys) :
    instruction.writtenFlags ⊆ Flags.resultFlags ++ Flags.comparisonFlags := by
  unfold writtenFlags
  split
  next => exact List.Subset.refl _
  next hsys => exact absurd hsys h
  next => exact List.nil_subset _
  next =>
    split
    next => exact List.subset_append_left _ _
    next => exact List.nil_subset _

end Instruction

namespace Board

variable {board before after executed : Board} {instruction : Instruction}

/-- The result that an instruction describes in the flags. -/
def result? (board : Board) (instruction : Instruction) : Option ArithmeticResult :=
  let throughPointer := instruction.form.storesThroughPointer
  match instruction.mnemonic, instruction.operands with
  | .mov, [.register _, source] => some { value := (board.load .w32 throughPointer source).1 }
  | .movSized width, [.register _, source] =>
      some { value := (board.load width throughPointer source).1 }
  | .not, [.register r] => some { value := ~~~board.register r }
  | _, _ => (board.calculation? instruction).bind Calculation.result?

/-- Where an instruction writes to memory: the first address and the count of the bytes. -/
def writeRange? (board : Board) (instruction : Instruction) : Option (Word × Nat) :=
  let throughPointer := instruction.form.storesThroughPointer
  match instruction.mnemonic, instruction.operands with
  | .mov, [destination, source] =>
      (board.load .w32 throughPointer source).2.storeRange? .w32 throughPointer destination
  | .movSized width, [destination, source] =>
      (board.load width throughPointer source).2.storeRange? width throughPointer destination
  | .push width, _ => some (board.pushAddress width, width.bytes)
  | .jsr, _ => some (board.pushAddress .w32, 4)
  | .sys, _ => some (board.register .sp - 8, 8)
  | .pushAll, _ => some (board.register .sp - 48, 48)
  | _, _ => none

/-- An instruction writes no register through the window of a register bank. -/
def WritesOffBank (board : Board) (instruction : Instruction) : Prop :=
  ∀ base count, board.writeRange? instruction = some (base, count) → board.OffBank base count

/-! ## Results -/

theorem registers_setResult_congr (h : after.registers = before.registers) (r : Register)
    (result : ArithmeticResult) :
    (after.setResult r result).registers = (before.setResult r result).registers := by
  simp only [setResult, setResultFlags, setRegister, setFlags, flags, h]

/-- A move to a register has the value that is moved as its result. -/
theorem registers_move (board : Board) (width : Width) (throughPointer : Bool) (r : Register)
    (source : Operand) :
    (board.move width throughPointer (.register r) source).registers =
      (board.setResult r { value := (board.load width throughPointer source).1 }).registers :=
  registers_setResult_congr (registers_load board width throughPointer source) r
    { value := (board.load width throughPointer source).1 }

/-- An instruction that replaces a register, other than from the stack, puts a result in it that it
describes in the flags. -/
theorem exists_setResult {pc : Word} {r : Register} (hwell : instruction.WellFormed)
    (hexecute : board.execute pc instruction = (none, executed))
    (hdestination : instruction.destination? = some r)
    (hwritten : instruction.writtenFlags = Flags.resultFlags) :
    ∃ result, board.result? instruction = some result ∧
      executed.registers = (board.setResult r result).registers := by
  have htakes := hwell.takes
  obtain ⟨⟨opcode, mnemonic, slots⟩, operands⟩ := instruction
  change mnemonic.Takes operands at htakes
  cases htakes with
  | mov destination source =>
      cases destination with
      | register =>
          obtain rfl := Option.some.inj hdestination
          obtain rfl := congrArg Prod.snd hexecute
          exact ⟨_, rfl, registers_move _ _ _ _ _⟩
      | _ => contradiction
  | movSized width destination source =>
      cases destination with
      | register =>
          obtain rfl := Option.some.inj hdestination
          obtain rfl := congrArg Prod.snd hexecute
          exact ⟨_, rfl, registers_move _ _ _ _ _⟩
      | _ => contradiction
  | arithmetic op r source =>
      obtain rfl := Option.some.inj hdestination
      cases hresult : op.result? (board.register r) (board.operandValue source) with
      | none => simp [execute, Instruction.mnemonic, hresult] at hexecute
      | some result =>
          simp only [execute, Instruction.mnemonic, hresult] at hexecute
          obtain rfl := congrArg Prod.snd hexecute
          exact ⟨result, hresult, rfl⟩
  | not r =>
      obtain rfl := Option.some.inj hdestination
      obtain rfl := congrArg Prod.snd hexecute
      exact ⟨_, rfl, rfl⟩
  | inc r =>
      obtain rfl := Option.some.inj hdestination
      obtain rfl := congrArg Prod.snd hexecute
      exact ⟨_, rfl, rfl⟩
  | dec r =>
      obtain rfl := Option.some.inj hdestination
      obtain rfl := congrArg Prod.snd hexecute
      exact ⟨_, rfl, rfl⟩
  | _ => contradiction

/-- A move to memory writes what is stored and no register. -/
theorem registers_move_off {width : Width} {throughPointer : Bool} {destination source : Operand}
    (hregister : ∀ r, destination ≠ .register r)
    (hoff : ∀ base count, (board.load width throughPointer source).2.storeRange? width throughPointer
      destination = some (base, count) → board.OffBank base count) :
    (board.move width throughPointer destination source).registers = board.registers := by
  have hblank := (blank_kept board).load width throughPointer source rfl
  have hstore := registers_store hregister fun base count hrange =>
    (hoff base count hrange).of_blank_eq hblank
  exact (hstore _).trans (registers_load board width throughPointer source)

/-! ## The frame -/

/-- Executing an instruction leaves all registers that it does not change, and the flags that it does
not write. -/
structure Framed (instruction : Instruction) (before after : Board) : Prop where
  keepsBut : KeepsBut (.fl :: instruction.changedRegisters before.flags) before after
  agreeBut_flags : instruction.mnemonic.restoresFlags = false → instruction.destination? ≠ some .fl →
    Flags.AgreeBut instruction.writtenFlags before.flags after.flags

/-- An instruction that writes the flags all together or not at all stays in its frame with the
registers that it changes. -/
theorem framed_of_keepsBut {changed : List Register} (h : KeepsBut changed before after)
    (hsub : changed ⊆ .fl :: instruction.changedRegisters before.flags)
    (hflags : .fl ∈ changed →
      instruction.mnemonic.restoresFlags = true ∨ instruction.destination? = some .fl) :
    Framed instruction before after := by
  refine ⟨h.mono hsub, ?_⟩
  intro hkept hdestination
  have hnot : .fl ∉ changed := by
    intro hmem
    rcases hflags hmem with hrestores | hreplaces
    · exact absurd (hrestores.symm.trans hkept) (by decide)
    · exact hdestination hreplaces
  have hsame : after.flags = before.flags := congrArg Flags.mk (h .fl hnot)
  rw [hsame]
  exact .refl _ _

theorem framed_of_registers_eq (h : after.registers = before.registers) :
    Framed instruction before after :=
  framed_of_keepsBut (.of_registers_eq h) (List.nil_subset _) List.not_mem_nil.elim

theorem framed_of_setResult {r : Register} {result : ArithmeticResult}
    (hregisters : after.registers = (before.setResult r result).registers)
    (hdestination : instruction.destination? = some r)
    (hwritten : instruction.writtenFlags = Flags.resultFlags) :
    Framed instruction before after := by
  have hregister : ∀ other, after.register other = (before.setResult r result).register other :=
    fun other => congrArg (RegisterFile.read · other) hregisters
  constructor
  · have hset : KeepsBut [.fl, r] before (before.setResult r result) :=
      ((KeepsBut.of_registers_eq rfl).setRegister List.mem_cons_self _).setRegister
        (List.mem_cons_of_mem _ List.mem_cons_self) _
    have hmem : r ∈ instruction.changedRegisters before.flags := by
      simp [Instruction.changedRegisters, hdestination]
    intro other hnot
    rw [hregister]
    refine hset.mono ?_ other hnot
    exact List.cons_subset_cons _ (List.cons_subset.mpr ⟨hmem, List.nil_subset _⟩)
  · intro _ hother
    have hne : r ≠ .fl := by
      rintro rfl
      exact hother hdestination
    have hflags : after.flags = (before.setResult r result).flags :=
      congrArg Flags.mk (hregister .fl)
    rw [hwritten, hflags, flags_setResult hne]
    exact Flags.agreeBut_setResult _ _ _ _

theorem framed_compare {r : Register} {source : Operand} {form : Form}
    (hmnemonic : form.mnemonic = .cmp) (a b : Word) :
    Framed ⟨form, [.register r, source]⟩ board (board.compare a b) := by
  constructor
  · exact fun other hnot => register_compare_of_ne _ _ _ (List.ne_of_not_mem_cons hnot)
  · intro _ _
    rw [Instruction.writtenFlags, Instruction.mnemonic, hmnemonic]
    exact agreeBut_compare _ _ _

/-- What completes stays in its frame, whatever the shape of its operands. -/
theorem framed_execute {pc : Word} (hwell : instruction.WellFormed)
    (hoff : board.WritesOffBank instruction)
    (hexecute : board.execute pc instruction = (none, executed)) :
    Framed instruction board executed := by
  have hresult : ∀ r, instruction.destination? = some r →
      instruction.writtenFlags = Flags.resultFlags → Framed instruction board executed := by
    intro r hdestination hwritten
    obtain ⟨result, _, hregisters⟩ := exists_setResult hwell hexecute hdestination hwritten
    exact framed_of_setResult hregisters hdestination hwritten
  have hstart : ∀ changed, KeepsBut changed board board := fun _ => .of_registers_eq rfl
  have htakes := hwell.takes
  obtain ⟨⟨opcode, mnemonic, slots⟩, operands⟩ := instruction
  change mnemonic.Takes operands at htakes
  cases htakes with
  -- Where a register is replaced by a result, the flags are written before the register.
  | arithmetic op r source => exact hresult r rfl rfl
  | not r => exact hresult r rfl rfl
  | inc r => exact hresult r rfl rfl
  | dec r => exact hresult r rfl rfl
  | mov destination source =>
      cases destination with
      | register r => exact hresult r rfl rfl
      | _ =>
          obtain rfl := congrArg Prod.snd hexecute
          exact framed_of_registers_eq (registers_move_off (by simp) hoff)
  | movSized width destination source =>
      cases destination with
      | register r => exact hresult r rfl rfl
      | _ =>
          obtain rfl := congrArg Prod.snd hexecute
          exact framed_of_registers_eq (registers_move_off (by simp) hoff)
  | cmp r source =>
      obtain rfl := congrArg Prod.snd hexecute
      exact framed_compare rfl _ _
  | branch condition target =>
      -- Whether the counter is changed depends on the flags before the branch.
      simp only [execute, Instruction.mnemonic] at hexecute
      split at hexecute
      next hholds =>
        obtain rfl := congrArg Prod.snd hexecute
        refine framed_of_keepsBut ((hstart [.pc]).setRegister (by decide) _) ?_ (by simp)
        simp [Instruction.changedRegisters, Instruction.mnemonic, Mnemonic.jumps, hholds]
      next =>
        obtain rfl := congrArg Prod.snd hexecute
        exact framed_of_registers_eq rfl
  | jsr target =>
      obtain rfl := congrArg Prod.snd hexecute
      have hpush := keepsBut_push (hoff _ _ rfl) (board.register .pc)
      exact framed_of_keepsBut ((hpush.mono (List.subset_cons_self .pc _)).setRegister (by decide) _)
        (List.subset_cons_self _ _) (by simp)
  | ret =>
      obtain rfl := congrArg Prod.snd hexecute
      exact framed_of_keepsBut ((hstart [.pc, .sp]).popInto (by decide) (by decide) .w32)
        (List.subset_cons_self _ _) (by simp)
  | sys line =>
      simp only [execute, Instruction.mnemonic] at hexecute
      obtain rfl := (Prod.mk.inj hexecute).2
      obtain ⟨hkeeps, hflags⟩ := keepsBut_enterInterrupt (board.register .pc)
        (board.operandValue line).toUInt8 (hoff _ _ rfl)
      refine ⟨hkeeps, ?_⟩
      intro _ _
      rw [hflags]
      exact (Flags.AgreeBut.refl _ _).set List.mem_cons_self false
  | iret =>
      obtain rfl := congrArg Prod.snd hexecute
      exact framed_of_keepsBut (keepsBut_leaveInterrupt board) (List.Subset.refl _) (fun _ => .inl rfl)
  | sret =>
      obtain rfl := congrArg Prod.snd hexecute
      exact framed_of_keepsBut (keepsBut_leaveInterrupt board) (List.Subset.refl _) (fun _ => .inl rfl)
  | push width source =>
      obtain rfl := congrArg Prod.snd hexecute
      exact framed_of_keepsBut (keepsBut_push (hoff _ _ rfl) _) (List.subset_cons_self _ _) (by simp)
  | pushAll =>
      have hrange : board.OffBank (board.register .sp - 48) 48 := hoff _ _ rfl
      simp only [execute, Instruction.mnemonic] at hexecute
      obtain rfl := (Prod.mk.inj hexecute).2
      exact framed_of_keepsBut (keepsBut_pushAll hrange) (List.subset_cons_self _ _) (by simp)
  | pop width r =>
      obtain rfl := congrArg Prod.snd hexecute
      refine framed_of_keepsBut ((hstart [r, .sp]).popInto (by simp) (by simp) width)
        (List.subset_cons_self _ _) ?_
      intro hmem
      obtain rfl : .fl = r := by simpa using hmem
      exact .inr rfl
  | popAll =>
      obtain rfl := congrArg Prod.snd hexecute
      have hpopped := (keepsBut_popRegisters Register.generalPurpose.reverse board).mono
        (by decide : _ ⊆ .sp :: Register.generalPurpose)
      exact framed_of_keepsBut hpopped (List.subset_cons_self _ _) fun hmem =>
        absurd hmem (by decide)
  | popx count =>
      obtain rfl := congrArg Prod.snd hexecute
      exact framed_of_keepsBut ((hstart [.sp]).setRegister (by decide) _) (List.subset_cons_self _ _)
        (by simp)
  | nop =>
      obtain rfl := congrArg Prod.snd hexecute
      exact framed_of_registers_eq rfl

/-- A comparison or an instruction that replaces a register by a result describes it. -/
theorem describe_execute {pc : Word} (hwell : instruction.WellFormed)
    (hexecute : board.execute pc instruction = (none, executed))
    (hwritten : Flags.resultFlags ⊆ instruction.writtenFlags)
    (hne : instruction.destination? ≠ some .fl) :
    ∃ result, board.result? instruction = some result ∧ executed.flags.Describe result := by
  rcases Instruction.describes_cases hwritten with hcompares | ⟨r, hdestination, hexact⟩
  · have htakes := hwell.takes
    obtain ⟨⟨opcode, mnemonic, slots⟩, operands⟩ := instruction
    change mnemonic.Takes operands at htakes
    obtain rfl : mnemonic = .cmp := hcompares
    cases htakes with
    | cmp r source =>
        obtain rfl := congrArg Prod.snd hexecute
        exact ⟨_, rfl, describe_compare _ _ _⟩
  · obtain ⟨result, hresult, hregisters⟩ := exists_setResult hwell hexecute hdestination hexact
    have hother : r ≠ .fl := by
      rintro rfl
      exact hne hdestination
    have hflags : executed.flags = (board.setResult r result).flags :=
      congrArg RegisterFile.flags hregisters
    refine ⟨result, hresult, ?_⟩
    rw [hflags, flags_setResult hother]
    exact Flags.describe_setResult _ _

/-- Entering a handler by `sys` disables interrupts. -/
theorem flags_execute_sys {pc : Word} (hwell : instruction.WellFormed)
    (hoff : board.WritesOffBank instruction)
    (hexecute : board.execute pc instruction = (none, executed))
    (hsys : instruction.mnemonic = .sys) : executed.flags = board.flags.set .interrupts false := by
  obtain ⟨line, hentered⟩ := execute_of_sys hwell hsys board pc
  obtain rfl := (Prod.mk.inj (hentered.symm.trans hexecute)).2
  have hrange : board.writeRange? instruction = some (board.register .sp - 8, 8) := by
    simp only [writeRange?, hsys]
  exact (keepsBut_enterInterrupt _ _ (hoff _ _ hrange)).2

/-- An instruction that completes, and writes no register through a register bank, changes no register
but those that its form says, and the program counter only by going on to the next instruction. Unless
all flags are replaced, it changes only the flags that it writes, and those of a result describe the
result. The flag that enables interrupts is cleared by `sys`, and no other instruction touches it or the
bits above it. -/
theorem executes_within_frame (h : board.Executes instruction executed)
    (hoff : (board.advanced instruction).WritesOffBank instruction) :
    (∀ r, r ≠ .fl → r ∉ instruction.changedRegisters board.flags →
      executed.register r =
        if r = .pc then board.register .pc + UInt32.ofNat instruction.length
        else board.register r) ∧
    (instruction.mnemonic.restoresFlags = false → instruction.destination? ≠ some .fl →
      Flags.AgreeBut instruction.writtenFlags board.flags executed.flags ∧
      (Flags.resultFlags ⊆ instruction.writtenFlags →
        ∃ result, (board.advanced instruction).result? instruction = some result ∧
          executed.flags.Describe result) ∧
      (instruction.mnemonic = .sys → executed.flags.get .interrupts = false) ∧
      (instruction.mnemonic ≠ .sys →
        executed.register .fl &&& 0xFFFFFF80 = board.register .fl &&& 0xFFFFFF80)) := by
  obtain ⟨hkeeps, hagree⟩ := framed_execute h.wellFormed hoff h.execute_eq
  rw [flags_advanced] at hkeeps hagree
  constructor
  · intro r hne hnot
    rw [hkeeps r (List.not_mem_cons_of_ne_of_not_mem hne hnot)]
    split
    next hpc => rw [hpc, pc_advanced]
    next hpc => exact register_advanced_of_ne board instruction hpc
  · intro hrestores hdestination
    have hwritten := hagree hrestores hdestination
    refine ⟨hwritten, ?_, ?_, ?_⟩
    · exact fun hdescribes => describe_execute h.wellFormed h.execute_eq hdescribes hdestination
    · intro hsys
      rw [flags_execute_sys h.wellFormed hoff h.execute_eq hsys, Flags.get_set_self]
    · intro hsys
      apply hwritten
      intro flag hmem
      have hlow : ∀ flag ∈ Flags.resultFlags ++ Flags.comparisonFlags,
          flag.mask &&& 0xFFFFFF80 = 0 := by decide
      exact hlow flag (Instruction.writtenFlags_subset hsys hmem)

/-- A call of a handler saves its context in memory, away from the bank. It clears the flag that enables
interrupts, and the flag of an earlier comparison is still there, as is what a register held. -/
theorem executes_within_frame_of_sys :
    let board : Board :=
      { empty { vectorBase := 0x20 } with
        registers := ((RegisterFile.zero.write .a 7).write .sp 0x20).write .fl 0xA0
        bindings := #[
          ⟨⟨0, 0x40⟩, .memory (((Memory.zeros 0x40).write 0 0x76).write 1 3)⟩,
          ⟨⟨0x1000, 0x50⟩, .registerBank⟩] }
    let instruction : Instruction := ⟨⟨0x76, .sys, [.immediate .w8]⟩, [.immediate 3 .w8]⟩
    (board.advanced instruction).WritesOffBank instruction ∧
    ∃ executed, board.Executes instruction executed ∧ executed.register .a = 7 ∧
      executed.flags.get .interrupts = false ∧ executed.flags.get .less = true := by
  intro board instruction
  have hoff : (board.advanced instruction).WritesOffBank instruction := by
    intro base count hrange
    obtain ⟨rfl, rfl⟩ := Prod.mk.inj (Option.some.inj hrange)
    exact Word.forall_within (by decide +kernel)
  have hexecutes : ∃ executed, board.Executes instruction executed := by
    refine exists_executes (by decide +kernel) ?_
    rintro ⟨_, _, _, hmnemonic, _⟩
    contradiction
  obtain ⟨executed, hexecutes⟩ := hexecutes
  obtain ⟨hregisters, hflags⟩ := executes_within_frame hexecutes hoff
  obtain ⟨hagree, _, hdisabled, _⟩ := hflags rfl (by decide)
  refine ⟨hoff, executed, hexecutes, ?_, hdisabled rfl, ?_⟩
  · exact (hregisters .a (by decide) (by decide)).trans (by decide)
  · exact (hagree.get_eq (by decide)).trans (by decide)

end Board

end TinyComputer
