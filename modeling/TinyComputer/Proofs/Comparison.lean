import TinyComputer.Proofs.ExactArithmetic
import TinyComputer.Proofs.InterruptDispatch

/-!
# Comparing and branching

A comparison leaves the order of two words in the flags, and a branch right after it asks the flags for
one relation of the words. Together they decide the relation, for words as unsigned numbers; for signed
ones the sign and the overflow of the difference differ exactly when the first is the less.
-/

namespace TinyComputer

namespace Condition

/-- What a condition says of two words that were compared. -/
def Relates (a b : Word) : Condition → Prop
  | zero => a = b
  | notZero => a ≠ b
  | negative => 2 ^ 31 ≤ (a - b).toNat
  | positive => (a - b).toNat < 2 ^ 31
  | greater => b.toNat < a.toNat
  | greaterOrEqual => b.toNat ≤ a.toNat
  | less => a.toNat < b.toNat
  | lessOrEqual => a.toNat ≤ b.toNat
  | overflow => ¬ Word.FitsSigned (a.signed - b.signed)
  | noOverflow => Word.FitsSigned (a.signed - b.signed)
  | always => True

instance (a b : Word) : DecidablePred (Relates a b)
  | zero => inferInstanceAs (Decidable (a = b))
  | notZero => inferInstanceAs (Decidable (a ≠ b))
  | negative => inferInstanceAs (Decidable (_ ≤ _))
  | positive => inferInstanceAs (Decidable (_ < _))
  | greater => inferInstanceAs (Decidable (_ < _))
  | greaterOrEqual => inferInstanceAs (Decidable (_ ≤ _))
  | less => inferInstanceAs (Decidable (_ < _))
  | lessOrEqual => inferInstanceAs (Decidable (_ ≤ _))
  | overflow => inferInstanceAs (Decidable (¬ _))
  | noOverflow => inferInstanceAs (Decidable (Word.FitsSigned _))
  | always => inferInstanceAs (Decidable True)

end Condition

namespace Board

variable {board : Board} {instruction : Instruction}

/-! ## The flags of a comparison -/

variable (board) (a b : Word)

theorem greater_compare : (board.compare a b).flags.get .greater = true ↔ b.toNat < a.toNat := by
  rw [flags_compare, Flags.get_greater_setComparison, decide_eq_true_iff]
  rfl

theorem less_compare : (board.compare a b).flags.get .less = true ↔ a.toNat < b.toNat := by
  rw [flags_compare, Flags.get_less_setComparison, decide_eq_true_iff]
  rfl

theorem zero_compare : (board.compare a b).flags.get .zero = true ↔ a = b := by
  rw [(describe_compare board a b).zero_iff]
  change (a - b).toNat = 0 ↔ a = b
  rw [← UInt32.toNat_zero, UInt32.toNat_inj]
  grind

theorem sign_compare : (board.compare a b).flags.get .sign = true ↔ 2 ^ 31 ≤ (a - b).toNat :=
  (describe_compare board a b).sign_iff

theorem overflow_compare :
    (board.compare a b).flags.get .overflow = true ↔ ¬ Word.FitsSigned (a.signed - b.signed) := by
  rw [(describe_compare board a b).overflow_eq]
  exact ArithmeticResult.difference_overflow_iff a b

/-- The sign of the difference is right unless it overflows, and then it is wrong. -/
theorem sign_ne_overflow_compare :
    (board.compare a b).flags.get .sign ≠ (board.compare a b).flags.get .overflow ↔
      a.signed < b.signed := by
  have hvalue := ArithmeticResult.difference_value a b
  change ((a - b).toNat : Int) = _ at hvalue
  have ha := a.toNat_lt
  have hb := b.toNat_lt
  rw [ne_eq, Bool.eq_iff_iff, sign_compare, overflow_compare, Word.FitsSigned, Word.signed_eq,
    Word.signed_eq]
  split <;> split <;> omega

/-- After a comparison, a condition holds if it is so for the words. -/
theorem holds_compare (condition : Condition) :
    condition.holds (board.compare a b).flags = true ↔ condition.Relates a b := by
  -- Half of the conditions are the negation of a flag.
  have hnot : ∀ flag, (!(board.compare a b).flags.get flag) = true ↔
      ¬ (board.compare a b).flags.get flag = true := by
    intro flag
    rw [Bool.not_eq_true', Bool.not_eq_true]
  cases condition with
  | zero => exact zero_compare board a b
  | notZero => exact (hnot .zero).trans (not_congr (zero_compare board a b))
  | negative => exact sign_compare board a b
  | positive => exact (hnot .sign).trans ((not_congr (sign_compare board a b)).trans Nat.not_le)
  | greater => exact greater_compare board a b
  | greaterOrEqual => exact (hnot .less).trans ((not_congr (less_compare board a b)).trans Nat.not_lt)
  | less => exact less_compare board a b
  | lessOrEqual =>
      exact (hnot .greater).trans ((not_congr (greater_compare board a b)).trans Nat.not_lt)
  | overflow => exact overflow_compare board a b
  | noOverflow =>
      exact (hnot .overflow).trans ((not_congr (overflow_compare board a b)).trans not_not)
  | always => exact iff_of_true rfl trivial

/-! ## The comparison and the branch -/

variable {board} {r : Register} {source target : Operand} {condition : Condition}

theorem executes_compare (hfetch : (board.fetch (board.register .pc)).1 = .ok instruction)
    (hcompares : instruction.mnemonic = .cmp)
    (hoperands : instruction.operands = [.register r, source]) :
    board.Executes instruction ((board.advanced instruction).compare
      ((board.advanced instruction).register r) ((board.advanced instruction).operandValue source)) := by
  refine ⟨hfetch, ?_⟩
  simp only [execute, hcompares, hoperands]

/-- A branch goes to its target if the condition holds, and on to the next instruction otherwise. -/
theorem exists_executes_branch (hfetch : (board.fetch (board.register .pc)).1 = .ok instruction)
    (hbranches : instruction.mnemonic = .branch condition)
    (hoperands : instruction.operands = [target]) :
    ∃ branched, board.Executes instruction branched ∧
      (branched.register .pc =
        if condition.holds board.flags then (board.advanced instruction).operandValue target
        else board.register .pc + UInt32.ofNat instruction.length) ∧
      ∀ other, other ≠ .pc → branched.register other = board.register other := by
  have hexecute : (board.advanced instruction).execute (board.register .pc) instruction =
      if condition.holds board.flags then
        (none, (board.advanced instruction).setRegister .pc
          ((board.advanced instruction).operandValue target))
      else (none, board.advanced instruction) := by
    simp only [execute, hbranches, hoperands, flags_advanced]
  by_cases hholds : condition.holds board.flags = true
  · rw [if_pos hholds] at hexecute
    refine ⟨_, ⟨hfetch, hexecute⟩, ?_, ?_⟩
    · rw [if_pos hholds, register_setRegister_self]
    · intro other hne
      rw [register_setRegister_of_ne _ _ hne, register_advanced_of_ne _ _ hne]
  · rw [if_neg hholds] at hexecute
    refine ⟨_, ⟨hfetch, hexecute⟩, ?_, ?_⟩
    · rw [if_neg hholds, pc_advanced]
    · exact fun other hne => register_advanced_of_ne _ _ hne

/-- A comparison of a register with a register or an immediate always completes. Unless an interrupt is
taken, the step ends there, and a branch that comes next is taken exactly if its condition is so for the
words that were compared. It goes to its target, as that is when the branch is executed. The two
instructions change no registers but the program counter and the flags, whatever their operands are. -/
theorem compare_then_branch (hfetch : (board.fetch (board.register .pc)).1 = .ok instruction)
    (hcompares : instruction.mnemonic = .cmp)
    (hoperands : instruction.operands = [.register r, source]) :
    let a := (board.advanced instruction).register r
    let b := (board.advanced instruction).operandValue source
    ∃ compared, board.Executes instruction compared ∧
      (compared.flags.get .interrupts = false ∨
          (∀ id device, compared.device? id = some device → ¬ device.Asks) →
        board.step = (none, compared)) ∧
      (compared.flags.get .sign ≠ compared.flags.get .overflow ↔ a.signed < b.signed) ∧
      ∀ (branch : Instruction) (condition : Condition) (target : Operand),
        (compared.fetch (compared.register .pc)).1 = .ok branch →
        branch.mnemonic = .branch condition → branch.operands = [target] →
        ∃ branched, compared.Executes branch branched ∧
          (branched.register .pc =
            if condition.Relates a b then (compared.advanced branch).operandValue target
            else compared.register .pc + UInt32.ofNat branch.length) ∧
          ∀ other, other ≠ .fl → other ≠ .pc → branched.register other = board.register other := by
  intro a b
  have hexecutes := executes_compare hfetch hcompares hoperands
  refine ⟨(board.advanced instruction).compare a b, hexecutes, ?_, ?_, ?_⟩
  · intro hquiet
    rw [step_of_completes hexecutes.completes]
    rcases hquiet with hdisabled | hnone
    · rw [serviceInterrupt_of_disabled hdisabled]
    · rw [serviceInterrupt_of_forall_not_asks hnone]
  · exact sign_ne_overflow_compare _ a b
  · intro branch condition target hfetch hbranches hoperands
    obtain ⟨branched, hbranch, hpc, hregister⟩ :=
      exists_executes_branch hfetch hbranches hoperands
    refine ⟨branched, hbranch, ?_, ?_⟩
    · rw [hpc]
      exact if_congr (holds_compare _ a b condition) rfl rfl
    · intro other hfl hpc
      rw [hregister other hpc, register_compare_of_ne _ _ _ hfl]
      exact register_advanced_of_ne _ _ hpc

/-- The least signed word is above one for `bgt`, but below one as a signed number. -/
theorem compare_then_branch_at_the_bound :
    let board : Board :=
      { empty {} with
        registers := (RegisterFile.zero.write .a 0x80000000).write .b 1
        bindings := #[⟨⟨0, 8⟩, .memory ⟨#[0x4A, 0, 1, 0x65, 0x20, 0, 0, 0]⟩⟩] }
    let instruction : Instruction :=
      ⟨⟨0x4A, .cmp, [.register, .register]⟩, [.register .a, .register .b]⟩
    let branch : Instruction :=
      ⟨⟨0x65, .branch .greater, [.immediate .w32]⟩, [.immediate 0x20 .w32]⟩
    (board.fetch (board.register .pc)).1 = .ok instruction ∧
    ∃ compared branched, board.step = (none, compared) ∧
      compared.flags.get .sign ≠ compared.flags.get .overflow ∧
      (compared.fetch (compared.register .pc)).1 = .ok branch ∧
      compared.Executes branch branched ∧ branched.register .pc = 0x20 := by
  intro board instruction branch
  have hfetch : (board.fetch (board.register .pc)).1 = .ok instruction := by decide +kernel
  obtain ⟨compared, hexecutes, hstep, hsigned, hbranch⟩ := compare_then_branch hfetch rfl rfl
  have hcompared := executes_compare hfetch rfl rfl
  obtain rfl := (Prod.mk.inj (hcompared.execute_eq.symm.trans hexecutes.execute_eq)).2
  obtain ⟨branched, hbranched, hpc, _⟩ :=
    hbranch branch .greater (.immediate 0x20 .w32) (by decide +kernel) rfl rfl
  refine ⟨hfetch, _, branched, hstep (.inl (by decide +kernel)), hsigned.mpr (by decide +kernel),
    hbranched.fetch_eq, hbranched, ?_⟩
  exact hpc.trans (by decide +kernel)

end Board

end TinyComputer
