import Mathlib.Data.Nat.Count
import TinyComputer.Proofs.Faults
import TinyComputer.Proofs.Runs
import TinyComputer.Proofs.Stack

/-!
# Calls and returns

A program that moves its stack pointer by calls and returns only has it where the count of calls that
are open says. As long as the addresses that calls save stay on the stack, a run that begins with a
call never goes past the return of this call, and it comes to the place behind the call by the return
of a call that was made from before this place. In a recursion that is the innermost one that is open.
-/

namespace TinyComputer

namespace Board

variable {board : Board} {count k : Nat} {word : Word}

/-! ## Calls and returns of a run -/

/-- The instruction at the program counter, if there is one. -/
def instruction? (board : Board) : Option Instruction :=
  (board.fetch (board.register .pc)).1.toOption

/-- Whether the instruction at the program counter has a mnemonic. -/
def executes (mnemonic : Mnemonic) (board : Board) : Bool :=
  board.instruction?.any fun instruction => instruction.mnemonic == mnemonic

/-- The address behind the instruction at the program counter. -/
def behind (board : Board) : Word :=
  board.register .pc + UInt32.ofNat (board.instruction?.elim 0 Instruction.length)

/-- How many instructions with a mnemonic the first steps of a run execute. -/
def executed (board : Board) (mnemonic : Mnemonic) (count : Nat) : Nat :=
  Nat.count (fun k => (board.after k).executes mnemonic) count

/-- The addresses behind the calls that are open after the first steps of a run, the latest call
first. -/
def openCalls (board : Board) : (count : Nat) → List Word
  | 0 => []
  | count + 1 =>
      if (board.after count).executes .jsr then
        (board.after count).behind :: board.openCalls count
      else if (board.after count).executes .ret then (board.openCalls count).tail
      else board.openCalls count

theorem executed_succ (board : Board) (mnemonic : Mnemonic) (count : Nat) :
    board.executed mnemonic (count + 1) =
      board.executed mnemonic count + if (board.after count).executes mnemonic then 1 else 0 :=
  Nat.count_succ _ count

theorem instruction?_of_fetch {instruction : Instruction} {fetched : Board}
    (h : board.fetch (board.register .pc) = (.ok instruction, fetched)) :
    board.instruction? = some instruction := by
  rw [instruction?, h]
  rfl

theorem executes_iff {mnemonic : Mnemonic} : board.executes mnemonic = true ↔
    ∃ instruction, board.instruction? = some instruction ∧ instruction.mnemonic = mnemonic := by
  rw [executes, Option.any_eq_true]
  simp only [beq_iff_eq]

/-- An instruction has one mnemonic. -/
theorem not_executes_of_executes {first second : Mnemonic} (h : board.executes first = true)
    (hne : second ≠ first) : board.executes second = false := by
  obtain ⟨instruction, hinstruction, rfl⟩ := executes_iff.mp h
  rw [executes, hinstruction, Option.any_some, beq_eq_false_iff_ne]
  exact hne.symm

/-- A step that moves the stack pointer by a call or a return only. Taking an interrupt would push on
the stack as well. -/
structure MovesStackByCalls (board : Board) : Prop where
  uninterrupted : board.Completes board.step.2
  sp_of_jsr : board.executes .jsr = true → board.step.2.register .sp = board.register .sp - 4
  sp_of_other : board.executes .jsr = false → board.executes .ret = false →
    board.step.2.register .sp = board.register .sp

theorem movesStackByCalls_iff : board.MovesStackByCalls ↔
    board.Completes board.step.2 ∧
    (board.executes .jsr = true → board.step.2.register .sp = board.register .sp - 4) ∧
    (board.executes .jsr = false → board.executes .ret = false →
      board.step.2.register .sp = board.register .sp) :=
  ⟨fun h => ⟨h.uninterrupted, h.sp_of_jsr, h.sp_of_other⟩, fun h => ⟨h.1, h.2.1, h.2.2⟩⟩

noncomputable instance (board : Board) : Decidable board.MovesStackByCalls :=
  decidable_of_iff' _ movesStackByCalls_iff

/-! ## What a return does -/

theorem sp_popInto_pc (board : Board) :
    (board.popInto .w32 .pc).register .sp = board.register .sp + 4 := by
  cases hread : board.readValue (board.register .sp) Width.w32.bytes with
  | mk value read =>
      simp only [popInto, pop, hread]
      rw [register_setRegister_of_ne _ _ (by decide), register_setRegister_self]
      rfl

theorem pc_popInto_pc (h : board.memoryWord? (board.register .sp) = some word) :
    (board.popInto .w32 .pc).register .pc = word := by
  simp only [popInto, pop_of_memoryWord? h, register_setRegister_self]

/-- A return that no interrupt follows pops the program counter, from a board that differs from the
one before in its program counter, and in keyboards that the instruction was fetched from. -/
theorem step_of_ret (hmoves : board.MovesStackByCalls) (hret : board.executes .ret = true) :
    ∃ popping : Board, popping.register .sp = board.register .sp ∧
      (∀ address, popping.memoryWord? address = board.memoryWord? address) ∧
      board.step.2 = popping.popInto .w32 .pc := by
  obtain ⟨instruction, fetched, hfetch, hexecute⟩ := hmoves.uninterrupted
  have hagree := board.agreeButQueues_fetch (board.register .pc)
  rw [hfetch] at hagree
  have hmnemonic : instruction.mnemonic = .ret := by
    rw [executes, instruction?_of_fetch hfetch] at hret
    exact beq_iff_eq.mp hret
  have hoperands := Instruction.operands_eq_nil (wellFormed_of_fetch hfetch) hmnemonic rfl
  refine ⟨fetched.setRegister .pc (board.register .pc + UInt32.ofNat instruction.length), ?_, ?_, ?_⟩
  · rw [register_setRegister_of_ne _ _ (by decide), register, register, hagree.registers_eq]
  · exact memoryWord?_congr hagree.memoryByte?_eq
  · simp only [execute, hmnemonic, hoperands] at hexecute
    exact (Prod.mk.inj hexecute).2.symm

theorem sp_of_ret (hmoves : board.MovesStackByCalls) (hret : board.executes .ret = true) :
    board.step.2.register .sp = board.register .sp + 4 := by
  obtain ⟨popping, hsp, _, hstep⟩ := step_of_ret hmoves hret
  rw [hstep, sp_popInto_pc, hsp]

/-- A return goes to the word that is at the stack pointer. -/
theorem pc_of_ret (hmoves : board.MovesStackByCalls) (hret : board.executes .ret = true)
    (hword : board.memoryWord? (board.register .sp) = some word) :
    board.step.2.register .pc = word := by
  obtain ⟨popping, hsp, hmemory, hstep⟩ := step_of_ret hmoves hret
  rw [hstep, pc_popInto_pc]
  rw [hsp, hmemory, hword]

/-! ## The stack pointer counts the open calls -/

theorem MovesStackByCalls.sp_step (hmoves : board.MovesStackByCalls) :
    board.step.2.register .sp + 4 * UInt32.ofNat (if board.executes .jsr then 1 else 0) =
      board.register .sp + 4 * UInt32.ofNat (if board.executes .ret then 1 else 0) := by
  cases hjsr : board.executes .jsr with
  | true =>
      have hret : board.executes .ret = false := not_executes_of_executes hjsr (by decide)
      simp [hmoves.sp_of_jsr hjsr, hret]
  | false =>
      cases hret : board.executes .ret with
      | true => simp [sp_of_ret hmoves hret]
      | false => simp [hmoves.sp_of_other hjsr hret]

/-- Every call that is open takes four bytes of the stack. -/
theorem sp_after (hmoves : ∀ k < count, (board.after k).MovesStackByCalls) :
    (board.after count).register .sp + 4 * UInt32.ofNat (board.executed .jsr count) =
      board.register .sp + 4 * UInt32.ofNat (board.executed .ret count) := by
  induction count with
  | zero => rfl
  | succ count ih =>
      have hstep := (hmoves count (Nat.lt_succ_self count)).sp_step
      have hrun := ih fun k hk => hmoves k (Nat.lt_succ_of_lt hk)
      rw [executed_succ, executed_succ, after_succ, UInt32.ofNat_add, UInt32.ofNat_add]
      grind

/-! ## The calls that are open -/

theorem openCalls_of_jsr (h : (board.after k).executes .jsr = true) :
    board.openCalls (k + 1) = (board.after k).behind :: board.openCalls k :=
  if_pos h

theorem openCalls_of_ret (h : (board.after k).executes .ret = true) :
    board.openCalls (k + 1) = (board.openCalls k).tail := by
  have hjsr : (board.after k).executes .jsr = false := not_executes_of_executes h (by decide)
  rw [openCalls, hjsr, if_neg Bool.false_ne_true, if_pos h]

theorem openCalls_of_other (hjsr : (board.after k).executes .jsr = false)
    (hret : (board.after k).executes .ret = false) :
    board.openCalls (k + 1) = board.openCalls k := by
  rw [openCalls, hjsr, hret, if_neg Bool.false_ne_true, if_neg Bool.false_ne_true]

/-- While no return goes further than the calls of the run, every call has returned or is open. -/
theorem executed_jsr_eq
    (h : ∀ k < count, (board.after k).executes .ret = true → board.openCalls k ≠ []) :
    board.executed .jsr count = board.executed .ret count + (board.openCalls count).length := by
  induction count with
  | zero => rfl
  | succ count ih =>
      have hrun := ih fun k hk => h k (Nat.lt_succ_of_lt hk)
      rw [executed_succ, executed_succ]
      cases hjsr : (board.after count).executes .jsr with
      | true =>
          have hret : (board.after count).executes .ret = false :=
            not_executes_of_executes hjsr (by decide)
          simp [openCalls_of_jsr hjsr, hret]
          omega
      | false =>
          cases hret : (board.after count).executes .ret with
          | true =>
              have hopen := List.length_pos_iff.mpr (h count (Nat.lt_succ_self count) hret)
              simp [openCalls_of_ret hret]
              omega
          | false =>
              simp [openCalls_of_other hjsr hret]
              omega

/-! ## The call that a run begins with -/

/-- A run that begins with a call from before a place. Its program moves the stack pointer by calls
and returns only, a return that ends a call finds the address that this call saved, and returns are
the only way to the place. -/
structure CallsFrom (place : Word) (board : Board) (count : Nat) : Prop where
  executes_jsr : board.executes .jsr = true
  behind_eq : board.behind = place
  moves : ∀ k < count, (board.after k).MovesStackByCalls
  saved : ∀ k < count, (board.after k).executes .ret = true → board.openCalls k ≠ [] →
    (board.after k).memoryWord? ((board.after k).register .sp) = (board.openCalls k).head?
  returns : ∀ k < count, (board.after (k + 1)).register .pc = place →
    (board.after k).executes .ret = true

/-- No call of the run but the first is made from before the place. -/
def CallsOnceFrom (place : Word) (board : Board) (count : Nat) : Prop :=
  ∀ k < count, 0 < k → (board.after k).executes .jsr = true → (board.after k).behind ≠ place

/-- Inside the first call of a run: it is the first one that is open, and those above it were made
after it. -/
structure InCall (board : Board) (inner : List Word) (k : Nat) : Prop where
  openCalls_eq : board.openCalls k = inner ++ [board.behind]
  called : ∀ address ∈ inner, ∃ j, 0 < j ∧ j < k ∧
    (board.after j).executes .jsr = true ∧ (board.after j).behind = address

theorem inCall_one (h : board.executes .jsr = true) : board.InCall [] 1 where
  openCalls_eq := openCalls_of_jsr h
  called := by simp

/-- A step inside the first call stays inside it, or it is a return to the place behind it. -/
theorem InCall.step {inner : List Word} {place : Word} (h : board.InCall inner k)
    (hcalls : CallsFrom place board count) (hpos : 0 < k) (hk : k < count) :
    (∃ inner, board.InCall inner (k + 1)) ∨ (board.after (k + 1)).register .pc = place := by
  have hcalled : ∀ address ∈ inner, ∃ j, 0 < j ∧ j < k + 1 ∧
      (board.after j).executes .jsr = true ∧ (board.after j).behind = address := by
    intro address hmem
    obtain ⟨j, hj, hjk, hmade⟩ := h.called address hmem
    exact ⟨j, hj, Nat.lt_succ_of_lt hjk, hmade⟩
  cases hjsr : (board.after k).executes .jsr with
  | true =>
      refine .inl ⟨(board.after k).behind :: inner, ?_, ?_⟩
      · rw [openCalls_of_jsr hjsr, h.openCalls_eq, List.cons_append]
      · exact List.forall_mem_cons.mpr ⟨⟨k, hpos, Nat.lt_succ_self k, hjsr, rfl⟩, hcalled⟩
  | false =>
      cases hret : (board.after k).executes .ret with
      | false =>
          refine .inl ⟨inner, ?_, hcalled⟩
          rw [openCalls_of_other hjsr hret, h.openCalls_eq]
      | true =>
          cases inner with
          | nil =>
              have hword := hcalls.saved k hk hret (h.openCalls_eq ▸ List.cons_ne_nil _ _)
              rw [h.openCalls_eq] at hword
              exact .inr (hcalls.behind_eq ▸ pc_of_ret (hcalls.moves k hk) hret hword)
          | cons address inner =>
              refine .inl ⟨inner, ?_, fun other hmem => hcalled other (List.mem_cons_of_mem _ hmem)⟩
              rw [openCalls_of_ret hret, h.openCalls_eq]
              rfl

/-- Before a run comes to the place behind its first call, it is inside this call. -/
theorem CallsFrom.inCall {place : Word} (hcalls : CallsFrom place board count)
    (hbefore : ∀ k, 0 < k → k < count → (board.after k).register .pc ≠ place) (hpos : 0 < k)
    (hk : k < count) : ∃ inner, board.InCall inner k := by
  induction k with
  | zero => exact absurd hpos (Nat.lt_irrefl 0)
  | succ k ih =>
      rcases Nat.eq_zero_or_pos k with rfl | hpositive
      · exact ⟨[], inCall_one hcalls.executes_jsr⟩
      · have hprevious := Nat.lt_of_succ_lt hk
        obtain ⟨inner, hinner⟩ := ih hpositive hprevious
        rcases hinner.step hcalls hpositive hprevious with hstays | hreached
        · exact hstays
        · exact absurd hreached (hbefore (k + 1) hpos hk)

/-- The last step of a run is the return of the latest call that is open, which was made from before
the place. The other open calls stay open. -/
structure ComesBack (place : Word) (board : Board) (last : Nat) : Prop where
  executes_ret : (board.after last).executes .ret = true
  head?_eq : (board.openCalls last).head? = some place
  executed_eq : board.executed .jsr (last + 1) =
    board.executed .ret (last + 1) + (board.openCalls (last + 1)).length

/-- Every return before a run has come to the place ends a call. -/
theorem CallsFrom.openCalls_ne_nil {place : Word} (hcalls : CallsFrom place board count)
    (hbefore : ∀ k, 0 < k → k < count → (board.after k).register .pc ≠ place) (hk : k < count)
    (hret : (board.after k).executes .ret = true) : board.openCalls k ≠ [] := by
  rcases Nat.eq_zero_or_pos k with rfl | hpos
  · have hjsr : board.executes .jsr = false := not_executes_of_executes hret (by decide)
    exact absurd hcalls.executes_jsr (Bool.eq_false_iff.mp hjsr)
  · obtain ⟨inner, hinner⟩ := hcalls.inCall hbefore hpos hk
    rw [hinner.openCalls_eq]
    exact List.append_ne_nil_of_right_ne_nil _ (List.cons_ne_nil _ _)

/-- A run that begins with a call comes to the place behind it by the return of a call. -/
theorem CallsFrom.comesBack {place : Word} {last : Nat} (hcalls : CallsFrom place board (last + 1))
    (hbefore : ∀ k, 0 < k → k < last + 1 → (board.after k).register .pc ≠ place)
    (hplace : (board.after (last + 1)).register .pc = place) : ComesBack place board last := by
  have hlast := Nat.lt_succ_self last
  have hret := hcalls.returns last hlast hplace
  refine ⟨hret, ?_, executed_jsr_eq fun k hk => hcalls.openCalls_ne_nil hbefore hk⟩
  have hopen := hcalls.openCalls_ne_nil hbefore hlast hret
  have hhead := List.head?_eq_some_head hopen
  have hword := (hcalls.saved last hlast hret hopen).trans hhead
  rw [hhead, ← hplace]
  exact congrArg some (pc_of_ret (hcalls.moves last hlast) hret hword).symm

/-- If no other call is made from before the place, the call that comes back is the first one. -/
theorem CallsFrom.openCalls_eq_nil {place : Word} {last : Nat}
    (hcalls : CallsFrom place board (last + 1)) (honce : CallsOnceFrom place board (last + 1))
    (hbefore : ∀ k, 0 < k → k < last + 1 → (board.after k).register .pc ≠ place)
    (hback : ComesBack place board last) : board.openCalls (last + 1) = [] := by
  have hlast := Nat.lt_succ_self last
  rw [openCalls_of_ret hback.executes_ret]
  rcases Nat.eq_zero_or_pos last with rfl | hpos
  · rfl
  · obtain ⟨inner, hinner⟩ := hcalls.inCall hbefore hpos hlast
    have hhead := hback.head?_eq
    rw [hinner.openCalls_eq] at hhead ⊢
    cases inner with
    | nil => rfl
    | cons address inner =>
        obtain ⟨j, hj, hjk, hjsr, hbehind⟩ := hinner.called address List.mem_cons_self
        have haddress : address = place := by simpa using hhead
        exact absurd (hbehind.trans haddress) (honce j (Nat.lt_succ_of_lt hjk) hj hjsr)

/-- A run that has come to a place for the first time, and what this says about its calls: how many of
them are open is told by the stack pointer; the run came to the place by the return of a call that was
made from before it; and if there is one such call only, then all calls have returned. -/
structure CameTo (place : Word) (start reached : Board) (last : Nat) : Prop where
  registers_eq : reached.registers = (start.after (last + 1)).registers
  pc_eq : reached.register .pc = place
  before_ne : ∀ k, 0 < k → k < last + 1 → (start.after k).register .pc ≠ place
  sp_eq : (∀ k < last + 1, (start.after k).MovesStackByCalls) →
    reached.register .sp + 4 * UInt32.ofNat (start.executed .jsr (last + 1)) =
      start.register .sp + 4 * UInt32.ofNat (start.executed .ret (last + 1))
  comesBack : CallsFrom place start (last + 1) → ComesBack place start last
  returned : CallsFrom place start (last + 1) → CallsOnceFrom place start (last + 1) →
    start.executed .jsr (last + 1) = start.executed .ret (last + 1) ∧
      reached.register .sp = start.register .sp

theorem cameTo_of_registers_eq {place : Word} {start reached : Board} {last : Nat}
    (hregisters : reached.registers = (start.after (last + 1)).registers)
    (hpc : reached.register .pc = place)
    (hbefore : ∀ k, 0 < k → k < last + 1 → (start.after k).register .pc ≠ place) :
    CameTo place start reached last := by
  have hregister : ∀ r, reached.register r = (start.after (last + 1)).register r :=
    fun r => congrArg (fun registers => registers.read r) hregisters
  have hsp : (∀ k < last + 1, (start.after k).MovesStackByCalls) →
      reached.register .sp + 4 * UInt32.ofNat (start.executed .jsr (last + 1)) =
        start.register .sp + 4 * UInt32.ofNat (start.executed .ret (last + 1)) := by
    intro hmoves
    rw [hregister]
    exact sp_after hmoves
  have hback : CallsFrom place start (last + 1) → ComesBack place start last :=
    fun hcalls => hcalls.comesBack hbefore (hregister .pc ▸ hpc)
  refine ⟨hregisters, hpc, hbefore, hsp, hback, ?_⟩
  intro hcalls honce
  have hnil := hcalls.openCalls_eq_nil honce hbefore (hback hcalls)
  have hcount := (hback hcalls).executed_eq
  rw [hnil, List.length_nil, Nat.add_zero] at hcount
  have hspEq := hsp hcalls.moves
  rw [hcount] at hspEq
  exact ⟨hcount, (UInt32.add_left_inj _).mp hspEq⟩

/-- A place is come to for the first time only once. -/
theorem CameTo.last_eq {place : Word} {start reached : Board} {last other : Nat}
    (h : CameTo place start reached last)
    (hbefore : ∀ k < other, (start.after (k + 1)).register .pc ≠ place)
    (hplace : (start.after (other + 1)).register .pc = place) : last = other := by
  have hlast : (start.after (last + 1)).register .pc = place := by
    rw [register, ← h.registers_eq]
    exact h.pc_eq
  rcases Nat.lt_trichotomy last other with hlt | heq | hgt
  · exact absurd hlast (hbefore last hlt)
  · exact heq
  · exact absurd hplace (h.before_ne (other + 1) (Nat.succ_pos other) (Nat.succ_lt_succ hgt))

end Board

end TinyComputer
