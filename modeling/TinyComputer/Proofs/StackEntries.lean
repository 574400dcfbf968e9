import TinyComputer.Proofs.Execution
import TinyComputer.Proofs.Stack

/-!
# The stack as a list of entries

Pushes and pops of one, two and four bytes work on the bytes below a stack pointer as on a list of
entries: a pop that has the width of the last entry takes it and gives the low bytes of the value that
was pushed. The entries lie next to each other, the last one lowest, and nothing is written beyond the
lowest address that the stack pointer has reached.
-/

namespace TinyComputer

/-- A value that was pushed. Of its bytes, the low ones are on the stack, as many as the width says. -/
structure StackEntry where
  width : Width
  value : Word
  deriving DecidableEq, Repr

namespace StackEntry

def bytes (entry : StackEntry) : List Byte :=
  Word.toBytes entry.width.bytes entry.value

/-- The low bytes of the value, which a pop gives. -/
def low (entry : StackEntry) : Word :=
  entry.value &&& entry.width.mask

/-- The count of bytes that entries take on the stack. -/
def totalSize : (entries : List StackEntry) → Nat
  | [] => 0
  | entry :: rest => entry.width.bytes + totalSize rest

@[simp] theorem length_bytes (entry : StackEntry) : entry.bytes.length = entry.width.bytes :=
  Word.length_toBytes _ _

@[simp] theorem totalSize_cons (entry : StackEntry) (rest : List StackEntry) :
    totalSize (entry :: rest) = entry.width.bytes + totalSize rest :=
  rfl

theorem totalSize_append (first second : List StackEntry) :
    totalSize (first ++ second) = totalSize first + totalSize second := by
  induction first with
  | nil => exact (Nat.zero_add _).symm
  | cons entry rest ih => rw [List.cons_append, totalSize_cons, ih, totalSize_cons, Nat.add_assoc]

theorem length_flatMap_bytes (entries : List StackEntry) :
    (entries.flatMap bytes).length = totalSize entries := by
  induction entries with
  | nil => rfl
  | cons entry rest ih => rw [List.flatMap_cons, List.length_append, length_bytes, ih, totalSize_cons]

end StackEntry

/-- An operation on the stack. -/
inductive StackOperation where
  | push (width : Width) (value : Word)
  | pop (width : Width)
  deriving DecidableEq, Repr

namespace StackOperation

/-- Perform operations on a list of entries, the last one first: what the pops give, in order, and the
entries that are left. A pop takes an entry of its own width. -/
def perform? : (entries : List StackEntry) → List StackOperation →
    Option (List Word × List StackEntry)
  | entries, [] => some ([], entries)
  | entries, push width value :: operations => perform? (⟨width, value⟩ :: entries) operations
  | [], pop _ :: _ => none
  | entry :: entries, pop width :: operations =>
      if width = entry.width then
        (perform? entries operations).map fun (popped, left) => (entry.low :: popped, left)
      else none

/-- The most bytes that are on the stack at a time, from a count of bytes on. -/
def deepest : (used : Nat) → List StackOperation → Nat
  | used, [] => used
  | used, push width _ :: operations => deepest (used + width.bytes) operations
  | used, pop width :: operations => max used (deepest (used - width.bytes) operations)

theorem le_deepest (used : Nat) (operations : List StackOperation) : used ≤ deepest used operations := by
  induction operations generalizing used with
  | nil => exact Nat.le_refl _
  | cons operation operations ih =>
      cases operation with
      | push width value => exact Nat.le_trans (Nat.le_add_right _ _) (ih _)
      | pop width => exact Nat.le_max_left _ _

end StackOperation

namespace Board

open StackEntry StackOperation

variable {start board ready executed after final : Board} {width : Width} {value : Word}
  {instruction : Instruction}

/-! ## One operation -/

theorem push_and_mask (board : Board) (width : Width) (value : Word) :
    board.push width (value &&& width.mask) = board.push width value := by
  rw [push, push, writeValue, writeValue, Width.toBytes_and_mask]

/-- A pop takes the bytes that memory holds at the stack pointer. -/
theorem Stores.pop_eq (h : board.Stores (board.register .sp) (Word.toBytes width.bytes value)) :
    board.pop width =
      (value &&& width.mask,
        board.setRegister .sp (board.register .sp + UInt32.ofNat width.bytes)) := by
  have hread := h.readBytes_eq
  rw [Word.length_toBytes] at hread
  simp only [pop, readValue, hread, Width.ofBytes_toBytes_eq_and_mask]

/-- A value that was pushed is held below the old stack pointer. -/
theorem Pushed.stores (h : Pushed width value board after)
    (hmemory : ∀ other, Word.Within (board.pushAddress width) width.bytes other →
      board.InMemory other) :
    after.Stores (after.register .sp) (Word.toBytes width.bytes value) := by
  rw [h.sp_eq, ← h.bytes_eq]
  exact stores_memoryBytes fun other hwithin =>
    (h.frame.inMemory_iff other).mpr (hmemory other hwithin)

/-! ## Entries in memory -/

/-- The board holds entries on a stack whose pointer started where it is on another board, and has
never been more than `depth` bytes below. These bytes are in memory, and all other memory is as it was
at the start. -/
structure HoldsEntries (start : Board) (depth : Nat) (entries : List StackEntry) (board : Board) :
    Prop where
  sp_eq : board.register .sp = start.register .sp - UInt32.ofNat (totalSize entries)
  stores : board.Stores (board.register .sp) (entries.flatMap bytes)
  inMemory : ∀ address, Word.Within (start.register .sp - UInt32.ofNat depth) depth address →
    board.InMemory address
  memoryByte?_eq : ∀ address, ¬ Word.Within (start.register .sp - UInt32.ofNat depth) depth address →
    board.memoryByte? address = start.memoryByte? address

/-- What a program may do between two operations: it keeps the stack pointer and memory. -/
structure KeepsStack (before after : Board) : Prop where
  sp_eq : after.register .sp = before.register .sp
  memoryByte?_eq : ∀ address, after.memoryByte? address = before.memoryByte? address

theorem KeepsStack.refl (board : Board) : KeepsStack board board :=
  ⟨rfl, fun _ => rfl⟩

theorem keepsStack_setRegister (board : Board) {r : Register} (hne : r ≠ .sp) (value : Word) :
    KeepsStack board (board.setRegister r value) :=
  ⟨register_setRegister_of_ne _ _ hne.symm, fun _ => rfl⟩

theorem keepsStack_advanced (board : Board) (instruction : Instruction) :
    KeepsStack board (board.advanced instruction) :=
  ⟨register_advanced_of_ne _ _ (by decide), memoryByte?_advanced board instruction⟩

namespace HoldsEntries

variable {depth : Nat} {entries : List StackEntry} {entry : StackEntry}

/-- No entry is on the stack at the start. -/
theorem nil (hmemory : ∀ address,
    Word.Within (start.register .sp - UInt32.ofNat depth) depth address → start.InMemory address) :
    HoldsEntries start depth [] start :=
  ⟨(UInt32.sub_zero _).symm, trivial, hmemory, fun _ _ => rfl⟩

theorem keepsStack (h : HoldsEntries start depth entries board) (hkept : KeepsStack board after) :
    HoldsEntries start depth entries after := by
  refine ⟨hkept.sp_eq.trans h.sp_eq, ?_, ?_, ?_⟩
  · rw [hkept.sp_eq]
    exact h.stores.congr fun other _ => hkept.memoryByte?_eq other
  · intro address hwithin
    rw [InMemory, hkept.memoryByte?_eq]
    exact h.inMemory address hwithin
  · intro address hnot
    rw [hkept.memoryByte?_eq, h.memoryByte?_eq address hnot]

/-- The place of the next entry. -/
theorem pushAddress_eq (h : HoldsEntries start depth entries board) (width : Width) :
    board.pushAddress width =
      start.register .sp - UInt32.ofNat (totalSize entries + width.bytes) := by
  rw [pushAddress, h.sp_eq, Word.sub_ofNat_sub_ofNat]

theorem within_depth (h : HoldsEntries start depth entries board)
    (hroom : totalSize entries + width.bytes ≤ depth) {other : Word}
    (hwithin : Word.Within (board.pushAddress width) width.bytes other) :
    Word.Within (start.register .sp - UInt32.ofNat depth) depth other := by
  rw [h.pushAddress_eq] at hwithin
  exact Word.within_below hwithin (Nat.le_add_left _ _) hroom

theorem pushed (h : HoldsEntries start depth entries board)
    (hroom : totalSize entries + width.bytes ≤ depth) (value : Word) :
    Pushed width value board (board.push width value) :=
  pushed_push value fun _ hwithin => h.inMemory _ (h.within_depth hroom hwithin)

/-- A push puts an entry below the others. -/
theorem push (h : HoldsEntries start depth entries board) (width : Width) (value : Word)
    (hroom : totalSize entries + width.bytes ≤ depth) (hbound : depth ≤ wordBound) :
    HoldsEntries start depth (⟨width, value⟩ :: entries) (board.push width value) := by
  have hwidth := width.bytes_le
  have haddress := h.pushAddress_eq width
  have hpushed := h.pushed hroom value
  refine ⟨?_, ?_, ?_, ?_⟩
  · rw [hpushed.sp_eq, haddress, totalSize_cons, Nat.add_comm]
  · rw [List.flatMap_cons, stores_append]
    refine ⟨hpushed.stores fun _ hwithin => h.inMemory _ (h.within_depth hroom hwithin), ?_⟩
    -- The entries that were there lie right above the new one.
    have hold : (board.push width value).register .sp + UInt32.ofNat width.bytes =
        board.register .sp := by
      rw [hpushed.sp_eq, haddress, h.sp_eq, Word.sub_ofNat_add_ofNat]
    rw [length_bytes, hold]
    apply h.stores.congr
    intro other hwithin
    rw [h.sp_eq, length_flatMap_bytes] at hwithin
    apply hpushed.frame.memoryByte?_eq
    rw [haddress]
    exact Word.not_within_below hwithin (Nat.lt_of_le_of_lt hwidth (by decide)) (by omega)
  · exact fun address hwithin => (hpushed.frame.inMemory_iff address).mpr (h.inMemory address hwithin)
  · intro address hnot
    rw [hpushed.frame.memoryByte?_eq address fun hwithin => hnot (h.within_depth hroom hwithin)]
    exact h.memoryByte?_eq address hnot

/-- A pop of the right width gives the last entry and leaves the others. -/
theorem pop (h : HoldsEntries start depth (entry :: entries) board) :
    (board.pop entry.width).1 = entry.low ∧
      HoldsEntries start depth entries (board.pop entry.width).2 := by
  have hstores := h.stores
  rw [List.flatMap_cons, stores_append, length_bytes] at hstores
  have hsp : board.register .sp + UInt32.ofNat entry.width.bytes =
      start.register .sp - UInt32.ofNat (totalSize entries) := by
    rw [h.sp_eq, totalSize_cons, Nat.add_comm, Word.sub_ofNat_add_ofNat]
  rw [Stores.pop_eq hstores.1]
  refine ⟨rfl, ?_, ?_, h.inMemory, h.memoryByte?_eq⟩
  · rw [register_setRegister_self, hsp]
  · rw [register_setRegister_self]
    exact hstores.2.congr fun _ _ => rfl

/-- The entries above an entry decide where it lies. -/
theorem stores_entry {last : List StackEntry}
    (h : HoldsEntries start depth (last ++ entry :: entries) board) :
    board.Stores (start.register .sp - UInt32.ofNat (totalSize (entry :: entries))) entry.bytes := by
  have hstores := h.stores
  rw [List.flatMap_append, List.flatMap_cons, stores_append, stores_append, length_flatMap_bytes,
    h.sp_eq, totalSize_append, Nat.add_comm (totalSize last), Word.sub_ofNat_add_ofNat] at hstores
  exact hstores.2.1

end HoldsEntries

/-! ## Runs of operations -/

/-- Operations on the stack one after the other, with what the pops give. Between them and after them,
anything may happen that keeps the stack pointer and memory. -/
inductive StackRun : (board : Board) → List StackOperation → (popped : List Word) →
    (final : Board) → Prop
  | done {board final : Board} : KeepsStack board final → StackRun board [] [] final
  | push {board ready final : Board} {width : Width} {value : Word}
      {operations : List StackOperation} {popped : List Word} : KeepsStack board ready →
      StackRun (ready.push width value) operations popped final →
      StackRun board (.push width value :: operations) popped final
  | pop {board ready final : Board} {width : Width} {operations : List StackOperation}
      {popped : List Word} : KeepsStack board ready →
      StackRun (ready.pop width).2 operations popped final →
      StackRun board (.pop width :: operations) ((ready.pop width).1 :: popped) final

/-- Operations can be performed on any board. -/
theorem exists_stackRun (board : Board) (operations : List StackOperation) :
    ∃ popped final, StackRun board operations popped final := by
  induction operations generalizing board with
  | nil => exact ⟨[], board, .done (.refl board)⟩
  | cons operation operations ih =>
      cases operation with
      | push width value =>
          obtain ⟨popped, final, hrun⟩ := ih (board.push width value)
          exact ⟨popped, final, .push (.refl board) hrun⟩
      | pop width =>
          obtain ⟨popped, final, hrun⟩ := ih (board.pop width).2
          exact ⟨_, final, .pop (.refl board) hrun⟩

/-- On entries that the board holds, operations do what they do on a list. -/
theorem StackRun.simulates {depth : Nat} {entries left : List StackEntry}
    {operations : List StackOperation} {popped expected : List Word}
    (hrun : StackRun board operations popped final) (h : HoldsEntries start depth entries board)
    (hperform : perform? entries operations = some (expected, left))
    (hdepth : deepest (totalSize entries) operations ≤ depth) (hbound : depth ≤ wordBound) :
    popped = expected ∧ HoldsEntries start depth left final := by
  induction hrun generalizing entries expected with
  | done hkept =>
      obtain ⟨rfl, rfl⟩ := Prod.mk.inj (Option.some.inj hperform)
      exact ⟨rfl, h.keepsStack hkept⟩
  | @push _ _ _ width value operations _ hkept _ ih =>
      rw [deepest] at hdepth
      have hroom := Nat.le_trans (le_deepest _ operations) hdepth
      refine ih ((h.keepsStack hkept).push width value hroom hbound) hperform ?_
      rwa [totalSize_cons, Nat.add_comm]
  | @pop _ _ _ width operations _ hkept _ ih =>
      cases entries with
      | nil => contradiction
      | cons entry entries =>
          rw [perform?] at hperform
          split at hperform
          next hwidth =>
            subst hwidth
            obtain ⟨⟨rest, _⟩, hrest, heq⟩ := Option.map_eq_some_iff.mp hperform
            obtain ⟨rfl, rfl⟩ := Prod.mk.inj heq
            rw [deepest, totalSize_cons, Nat.add_sub_cancel_left] at hdepth
            obtain ⟨hpopped, hholds⟩ := (h.keepsStack hkept).pop
            obtain ⟨hrest, hfinal⟩ := ih hholds hrest (Nat.le_trans (Nat.le_max_right _ _) hdepth)
            exact ⟨congrArg₂ List.cons hpopped hrest, hfinal⟩
          next => contradiction

/-! ## Push and pop instructions -/

variable {source : Operand} {r : Register}

theorem executes_push (hfetch : (board.fetch (board.register .pc)).1 = .ok instruction)
    (hpush : instruction.mnemonic = .push width) (hoperands : instruction.operands = [source]) :
    board.Executes instruction ((board.advanced instruction).push width
      ((board.advanced instruction).operandValue source)) := by
  refine ⟨hfetch, ?_⟩
  simp only [execute, hpush, hoperands, Mnemonic.accessWidth, push_and_mask]

theorem executes_pop (hfetch : (board.fetch (board.register .pc)).1 = .ok instruction)
    (hpop : instruction.mnemonic = .pop width) (hoperands : instruction.operands = [.register r]) :
    board.Executes instruction ((board.advanced instruction).popInto width r) := by
  refine ⟨hfetch, ?_⟩
  simp only [execute, hpop, hoperands, Mnemonic.accessWidth]

theorem Executes.unique (h : board.Executes instruction executed)
    (hother : board.Executes instruction after) : after = executed :=
  (Prod.mk.inj (hother.execute_eq.symm.trans h.execute_eq)).2

/-- Push and pop instructions that are executed one after the other while no interrupt is taken, with
the words that they push and those that they put into registers. The stack pointer is none of these
registers. -/
inductive ExecutesStack : (board : Board) → List StackOperation → (popped : List Word) →
    (final : Board) → Prop
  | done (board : Board) : ExecutesStack board [] [] board
  | push {board executed final : Board} {instruction : Instruction} {width : Width} {source : Operand}
      {operations : List StackOperation} {popped : List Word} :
      board.Executes instruction executed → instruction.mnemonic = .push width →
      instruction.operands = [source] → ExecutesStack executed operations popped final →
      ExecutesStack board
        (.push width ((board.advanced instruction).operandValue source) :: operations) popped final
  | pop {board executed final : Board} {instruction : Instruction} {width : Width} {r : Register}
      {operations : List StackOperation} {popped : List Word} :
      board.Executes instruction executed → instruction.mnemonic = .pop width →
      instruction.operands = [.register r] → r ≠ .sp →
      ExecutesStack executed operations popped final →
      ExecutesStack board (.pop width :: operations) (executed.register r :: popped) final

theorem KeepsStack.trans (hfirst : KeepsStack board ready) (hsecond : KeepsStack ready after) :
    KeepsStack board after :=
  ⟨hsecond.sp_eq.trans hfirst.sp_eq,
    fun address => (hsecond.memoryByte?_eq address).trans (hfirst.memoryByte?_eq address)⟩

theorem StackRun.of_keepsStack {operations : List StackOperation} {popped : List Word}
    (h : StackRun ready operations popped final) (hkept : KeepsStack board ready) :
    StackRun board operations popped final := by
  cases h with
  | done hfinal => exact .done (hkept.trans hfinal)
  | push hready hrun => exact .push (hkept.trans hready) hrun
  | pop hready hrun => exact .pop (hkept.trans hready) hrun

/-- Fetching and writing popped words to registers keeps the stack. -/
theorem ExecutesStack.stackRun {operations : List StackOperation} {popped : List Word}
    (h : ExecutesStack board operations popped final) :
    StackRun board operations popped final := by
  induction h with
  | done board => exact .done (.refl board)
  | @push board executed _ instruction _ _ _ _ hexecutes hpush hoperands _ ih =>
      obtain rfl := hexecutes.unique (executes_push hexecutes.fetch_eq hpush hoperands)
      exact .push (keepsStack_advanced board instruction) ih
  | @pop board executed _ instruction _ _ _ _ hexecutes hpop hoperands hne _ ih =>
      obtain rfl := hexecutes.unique (executes_pop hexecutes.fetch_eq hpop hoperands)
      rw [popInto, register_setRegister_self]
      exact .pop (keepsStack_advanced board instruction)
        (ih.of_keepsStack (keepsStack_setRegister _ hne _))

/-- The stack pointer is pushed as it was before the push. -/
theorem exists_executes_push_sp (hfetch : (board.fetch (board.register .pc)).1 = .ok instruction)
    (hpush : instruction.mnemonic = .push width) (hoperands : instruction.operands = [.register .sp])
    (hmemory : ∀ address, Word.Within (board.pushAddress width) width.bytes address →
      board.InMemory address) :
    ∃ executed, board.Executes instruction executed ∧
      executed.register .sp = board.pushAddress width ∧
      executed.memoryBytes (board.pushAddress width) width.bytes =
        Word.toBytes width.bytes (board.register .sp) := by
  have hsp : (board.advanced instruction).register .sp = board.register .sp :=
    register_advanced_of_ne _ _ (by decide)
  have haddress : (board.advanced instruction).pushAddress width = board.pushAddress width := by
    rw [pushAddress, hsp, pushAddress]
  have hpushed : Pushed width (board.register .sp) (board.advanced instruction)
      ((board.advanced instruction).push width (board.register .sp)) := by
    apply pushed_push
    rw [haddress]
    exact fun address hwithin => inMemory_advanced (hmemory address hwithin) instruction
  have hexecutes := executes_push hfetch hpush hoperands
  rw [operandValue, hsp] at hexecutes
  exact ⟨_, hexecutes, hpushed.sp_eq.trans haddress, haddress ▸ hpushed.bytes_eq⟩

/-- A word that is popped into the stack pointer stays there. -/
theorem exists_executes_pop_sp (hfetch : (board.fetch (board.register .pc)).1 = .ok instruction)
    (hpop : instruction.mnemonic = .pop width) (hoperands : instruction.operands = [.register .sp])
    (hmemory : ∀ address, Word.Within (board.register .sp) width.bytes address →
      board.InMemory address) :
    ∃ executed, board.Executes instruction executed ∧
      executed.register .sp =
        Word.ofBytes (board.memoryBytes (board.register .sp) width.bytes) ∧
      ∀ address, executed.memoryByte? address = board.memoryByte? address := by
  have hkept := keepsStack_advanced board instruction
  have hpopped : (board.advanced instruction).pop width =
      (Word.ofBytes (board.memoryBytes (board.register .sp) width.bytes),
        (board.advanced instruction).setRegister .sp
          (board.register .sp + UInt32.ofNat width.bytes)) := by
    rw [pop_of_inMemory, hkept.sp_eq, memoryBytes_congr fun other _ => hkept.memoryByte?_eq other]
    rw [hkept.sp_eq]
    exact fun address hwithin => inMemory_advanced (hmemory address hwithin) instruction
  have hpopInto : (board.advanced instruction).popInto width .sp =
      ((board.advanced instruction).setRegister .sp
        (board.register .sp + UInt32.ofNat width.bytes)).setRegister .sp
          (Word.ofBytes (board.memoryBytes (board.register .sp) width.bytes)) := by
    simp only [popInto, hpopped]
  have hexecutes := executes_pop hfetch hpop hoperands
  rw [hpopInto] at hexecutes
  refine ⟨_, hexecutes, register_setRegister_self _ _ _, fun address => ?_⟩
  rw [memoryByte?_setRegister, memoryByte?_setRegister, hkept.memoryByte?_eq]

/-- On a stack in memory, pushes and pops do what they do on a list of entries, as long as every pop has
the width of the last entry and the stack does not meet itself around the address space. The pops give
the low bytes of the values that were pushed, the entries that are left take the bytes above the stack
pointer, and beyond the lowest address that it has reached nothing is changed. Push and pop instructions
are such operations. The stack pointer itself is pushed as it was, and what is popped into it stays. -/
theorem stack_is_lifo :
    (∀ (start : Board) (operations : List StackOperation) (popped expected : List Word)
      (left : List StackEntry) (final : Board),
      StackRun start operations popped final → perform? [] operations = some (expected, left) →
      let depth := deepest 0 operations
      let lowest := start.register .sp - UInt32.ofNat depth
      depth ≤ wordBound → (∀ address, Word.Within lowest depth address → start.InMemory address) →
      popped = expected ∧
      final.register .sp = start.register .sp - UInt32.ofNat (totalSize left) ∧
      final.Stores (final.register .sp) (left.flatMap bytes) ∧
      ∀ address, ¬ Word.Within lowest depth address →
        final.memoryByte? address = start.memoryByte? address) ∧
    (∀ (start : Board) (operations : List StackOperation),
      ∃ popped final, StackRun start operations popped final) ∧
    (∀ (start : Board) (operations : List StackOperation) (popped : List Word) (final : Board),
      ExecutesStack start operations popped final → StackRun start operations popped final) ∧
    ∀ (board : Board) (instruction : Instruction) (width : Width),
      (board.fetch (board.register .pc)).1 = .ok instruction →
      instruction.operands = [.register .sp] →
      (instruction.mnemonic = .push width →
        (∀ address, Word.Within (board.pushAddress width) width.bytes address →
          board.InMemory address) →
        ∃ executed, board.Executes instruction executed ∧
          executed.register .sp = board.pushAddress width ∧
          executed.memoryBytes (board.pushAddress width) width.bytes =
            Word.toBytes width.bytes (board.register .sp)) ∧
      (instruction.mnemonic = .pop width →
        (∀ address, Word.Within (board.register .sp) width.bytes address →
          board.InMemory address) →
        ∃ executed, board.Executes instruction executed ∧
          executed.register .sp =
            Word.ofBytes (board.memoryBytes (board.register .sp) width.bytes) ∧
          ∀ address, executed.memoryByte? address = board.memoryByte? address) := by
  refine ⟨?_, exists_stackRun, fun _ _ _ _ hexecutes => hexecutes.stackRun, ?_⟩
  · intro start operations popped expected left final hrun hperform depth lowest hbound hmemory
    obtain ⟨hpopped, hholds⟩ := hrun.simulates (.nil hmemory) hperform (Nat.le_refl depth) hbound
    exact ⟨hpopped, hholds.sp_eq, hholds.stores, hholds.memoryByte?_eq⟩
  · intro board instruction width hfetch hoperands
    exact ⟨fun hpush => exists_executes_push_sp hfetch hpush hoperands,
      fun hpop => exists_executes_pop_sp hfetch hpop hoperands⟩

/-- Of two bytes of a word, of one and of four that are pushed, the last two entries are popped again. A
program pushes its stack pointer. -/
theorem stack_is_lifo_of_mixed_widths :
    let start : Board :=
      { empty { stackTop := 16 } with
        bindings := #[⟨⟨0, 16⟩, .memory (((Memory.zeros 16).write 0 0x7A).write 1 13)⟩] }
    let operations : List StackOperation :=
      [.push .w16 0x12345, .push .w8 0x1FF, .pop .w8, .push .w32 0xAABBCCDD, .pop .w32]
    let instruction : Instruction := ⟨⟨0x7A, .push .w16, [.register]⟩, [.register .sp]⟩
    perform? [] operations = some ([0xFF, 0xAABBCCDD], [⟨.w16, 0x12345⟩]) ∧
    deepest 0 operations = 6 ∧ (∀ address, Word.Within 10 6 address → start.InMemory address) ∧
    (∃ final, StackRun start operations [0xFF, 0xAABBCCDD] final ∧ final.register .sp = 14 ∧
      final.Stores 14 [0x45, 0x23] ∧ final.memoryByte? 9 = start.memoryByte? 9) ∧
    (start.fetch (start.register .pc)).1 = .ok instruction ∧
    ∃ executed, start.Executes instruction executed ∧ executed.memoryBytes 14 2 = [16, 0] := by
  intro start operations instruction
  have hperform : perform? [] operations = some ([0xFF, 0xAABBCCDD], [⟨.w16, 0x12345⟩]) := rfl
  have hmemory : ∀ address, Word.Within 10 6 address → start.InMemory address :=
    Word.forall_within (by decide +kernel)
  have hlowest : start.register .sp - UInt32.ofNat (deepest 0 operations) = 10 := by decide +kernel
  have htop : start.register .sp - UInt32.ofNat (totalSize [⟨.w16, 0x12345⟩]) = 14 := by
    decide +kernel
  have hleft : [(⟨.w16, 0x12345⟩ : StackEntry)].flatMap bytes = [0x45, 0x23] := by decide +kernel
  have hfetch : (start.fetch (start.register .pc)).1 = .ok instruction := by decide +kernel
  obtain ⟨hlifo, hruns, _, hsp⟩ := stack_is_lifo
  obtain ⟨popped, final, hrun⟩ := hruns start operations
  obtain ⟨rfl, hpointer, hstores, hframe⟩ :=
    hlifo start operations popped _ _ final hrun hperform (by decide) (by rwa [hlowest])
  rw [htop] at hpointer
  rw [hpointer, hleft] at hstores
  rw [hlowest] at hframe
  obtain ⟨executed, hexecutes, _, hbytes⟩ := (hsp start instruction .w16 hfetch rfl).1 rfl
    (Word.forall_within (by decide +kernel))
  have haddress : start.pushAddress .w16 = 14 := htop
  rw [haddress] at hbytes
  exact ⟨hperform, rfl, hmemory, ⟨final, hrun, hpointer, hstores, hframe 9 (by decide)⟩, hfetch,
    executed, hexecutes, hbytes.trans (by decide +kernel)⟩

end Board

end TinyComputer
