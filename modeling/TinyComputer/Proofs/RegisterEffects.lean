import TinyComputer.Proofs.Execution
import TinyComputer.Proofs.Reset

/-!
# Which registers accesses change

Registers are changed by setting them, and through the window of a register bank by writing to memory.
Reads never change them, and neither do writes off the bank, so there stack operations move the stack
pointer and jumps the program counter, and all other registers hold what they held.
-/

namespace TinyComputer.Board

variable {board before middle after : Board}

/-! ## Off the bank -/

/-- Whether a register bank answers for an address. -/
def atBank (board : Board) (address : Word) : Bool :=
  (board.route? address).any fun binding => binding.device.kind == .processor

/-- No register bank answers for any of `count` addresses. -/
def OffBank (board : Board) (base : Word) (count : Nat) : Prop :=
  ∀ address, Word.Within base count address → board.atBank address = false

theorem atBank_blank (board : Board) (address : Word) :
    board.blank.atBank address = board.atBank address := by
  rw [atBank, atBank, route?, route?, blank, Array.find?_map, Option.any_map]
  simp only [Function.comp_def, Binding.mapDevice, Device.blank, Device.kind_asNew]

/-- The bank stays where it is, whatever is done to a board. -/
theorem OffBank.of_blank_eq {base : Word} {count : Nat} (h : before.OffBank base count)
    (hblank : after.blank = before.blank) : after.OffBank base count := by
  intro address hwithin
  rw [← atBank_blank, hblank, atBank_blank]
  exact h address hwithin

theorem OffBank.mono {base inner : Word} {count total : Nat} (h : board.OffBank base total)
    (hinner : ∀ address, Word.Within inner count address → Word.Within base total address) :
    board.OffBank inner count :=
  fun address hwithin => h address (hinner address hwithin)

theorem registers_write {address : Word} (h : board.atBank address = false) (value : Byte) :
    (board.write address value).registers = board.registers := by
  rcases board.write_cases address value with
    ⟨_, hsame⟩ | ⟨_, _, hroute, hbinding, _⟩ | ⟨_, _, _, _, _, hwrite⟩
  · rw [hsame]
  · rw [atBank, route?_eq_of_routeIndex? hroute hbinding] at h
    contradiction
  · rw [hwrite]
    rfl

theorem registers_writeBytes {address : Word} {bytes : List Byte}
    (h : board.OffBank address bytes.length) :
    (board.writeBytes address bytes).registers = board.registers := by
  induction bytes generalizing board address with
  | nil => rfl
  | cons byte rest ih =>
      have hrest : (board.write address byte).OffBank (address + 1) rest.length :=
        (h.mono fun _ hwithin => Word.within_succ.mpr (.inr hwithin)).of_blank_eq
          (blank_write board address byte)
      rw [writeBytes_cons, ih hrest]
      exact registers_write (h address (Word.within_succ.mpr (.inl rfl))) byte

theorem registers_writeValue {address : Word} {count : Nat} (h : board.OffBank address count)
    (value : Word) : (board.writeValue address count value).registers = board.registers := by
  apply registers_writeBytes
  rwa [Word.length_toBytes]

theorem registers_readValue (board : Board) (address : Word) (count : Nat) :
    (board.readValue address count).2.registers = board.registers :=
  (board.agreeButQueues_readValue address count).registers_eq

/-! ## Registers that are kept -/

/-- All registers but some hold what they held before. -/
def KeepsBut (changed : List Register) (before after : Board) : Prop :=
  ∀ r, r ∉ changed → after.register r = before.register r

namespace KeepsBut

variable {changed : List Register}

theorem of_registers_eq (h : after.registers = before.registers) : KeepsBut changed before after := by
  intro r _
  rw [register, register, h]

theorem trans (hfirst : KeepsBut changed before middle) (hsecond : KeepsBut changed middle after) :
    KeepsBut changed before after :=
  fun r hnot => (hsecond r hnot).trans (hfirst r hnot)

theorem mono {wider : List Register} (h : KeepsBut changed before after) (hsub : changed ⊆ wider) :
    KeepsBut wider before after :=
  fun r hnot => h r fun hmem => hnot (hsub hmem)

theorem setRegister {r : Register} (h : KeepsBut changed before after) (hmem : r ∈ changed)
    (value : Word) : KeepsBut changed before (after.setRegister r value) := by
  intro other hnot
  rw [register_setRegister_of_ne _ _ (ne_of_mem_of_not_mem hmem hnot).symm]
  exact h other hnot

theorem readValue (h : KeepsBut changed before after) (address : Word) (count : Nat) :
    KeepsBut changed before (after.readValue address count).2 :=
  h.trans (of_registers_eq (registers_readValue after address count))

theorem pop (h : KeepsBut changed before after) (hmem : .sp ∈ changed) (width : Width) :
    KeepsBut changed before (after.pop width).2 :=
  (h.readValue _ _).setRegister hmem _

theorem popInto {r : Register} (h : KeepsBut changed before after) (hpointer : .sp ∈ changed)
    (hmem : r ∈ changed) (width : Width) : KeepsBut changed before (after.popInto width r) :=
  (h.pop hpointer width).setRegister hmem _

end KeepsBut

theorem registers_push {width : Width} (h : board.OffBank (board.pushAddress width) width.bytes)
    (value : Word) :
    (board.push width value).registers = board.registers.write .sp (board.pushAddress width) :=
  registers_writeValue (h.of_blank_eq (blank_setRegister board .sp _)) value

theorem keepsBut_push {width : Width} (h : board.OffBank (board.pushAddress width) width.bytes)
    (value : Word) : KeepsBut [.sp] board (board.push width value) := by
  intro r hnot
  rw [register, registers_push h, RegisterFile.read_write_of_ne _ _ (List.ne_of_not_mem_cons hnot)]
  rfl

/-! ## Operands -/

theorem registers_operandAddress (board : Board) (throughPointer : Bool) (operand : Operand) :
    (board.operandAddress throughPointer operand).2.registers = board.registers := by
  unfold operandAddress
  split
  next address =>
    split
    next => exact registers_readValue board address 4
    next => rfl
  next => rfl

theorem registers_load (board : Board) (width : Width) (throughPointer : Bool) (operand : Operand) :
    (board.load width throughPointer operand).2.registers = board.registers := by
  have haddress := registers_operandAddress board throughPointer operand
  cases operand with
  | register r => rfl
  | immediate value width => rfl
  | indirectRegister r => exact (registers_readValue _ _ _).trans haddress
  | indirectImmediate address => exact (registers_readValue _ _ _).trans haddress

/-- Where a value of the given width is stored, if the operand stands for memory: the first address and
the count of the bytes. -/
def storeRange? (board : Board) (width : Width) (throughPointer : Bool) (operand : Operand) :
    Option (Word × Nat) :=
  match operand with
  | .register _ | .immediate _ _ => none
  | .indirectRegister _ | .indirectImmediate _ =>
      some ((board.operandAddress throughPointer operand).1, width.bytes)

theorem registers_store {width : Width} {throughPointer : Bool} {operand : Operand}
    (hregister : ∀ r, operand ≠ .register r)
    (hoff : ∀ base count, board.storeRange? width throughPointer operand = some (base, count) →
      board.OffBank base count) (value : Word) :
    (board.store width throughPointer operand value).registers = board.registers := by
  have hblank := (blank_kept board).operandAddress throughPointer operand rfl
  have haddress := registers_operandAddress board throughPointer operand
  cases operand with
  | register r => exact absurd rfl (hregister r)
  | immediate value width => rfl
  | indirectRegister r =>
      exact (registers_writeValue ((hoff _ _ rfl).of_blank_eq hblank) value).trans haddress
  | indirectImmediate address =>
      exact (registers_writeValue ((hoff _ _ rfl).of_blank_eq hblank) value).trans haddress

/-! ## Several registers on the stack -/

theorem sub_four_mul_add (word : Word) (count : Nat) :
    word - UInt32.ofNat (4 * (count + 1)) + UInt32.ofNat (4 * count) = word - 4 := by
  rw [Nat.mul_succ, Nat.add_comm]
  exact Word.sub_ofNat_add_ofNat word 4 _

theorem sub_four_sub_four_mul (word : Word) (count : Nat) :
    word - 4 - UInt32.ofNat (4 * count) = word - UInt32.ofNat (4 * (count + 1)) := by
  rw [Nat.mul_succ, Nat.add_comm]
  exact Word.sub_ofNat_sub_ofNat word 4 _

/-- Registers are pushed on the bytes below the stack pointer, four for each. -/
theorem keepsBut_pushRegisters {rs : List Register}
    (h : board.OffBank (board.register .sp - UInt32.ofNat (4 * rs.length)) (4 * rs.length)) :
    KeepsBut [.sp] board (rs.foldl pushRegister board) := by
  induction rs generalizing board with
  | nil => exact .of_registers_eq rfl
  | cons r rest ih =>
      rw [List.length_cons] at h
      have hcount : (UInt32.ofNat (4 * rest.length)).toNat ≤ 4 * rest.length := Nat.mod_le _ _
      -- The first register goes to the topmost four bytes, and the others below them.
      have hpush : board.OffBank (board.pushAddress .w32) 4 := by
        apply h.mono
        intro address hwithin
        change Word.Within (board.register .sp - 4) 4 address at hwithin
        rw [← sub_four_mul_add _ rest.length] at hwithin
        exact Word.within_of_within_add hwithin (by omega)
      have hpushed : KeepsBut [.sp] board (board.pushRegister r) := keepsBut_push hpush _
      have hpointer : (board.pushRegister r).register .sp = board.register .sp - 4 := by
        rw [register, pushRegister, registers_push hpush, RegisterFile.read_write_self]
        rfl
      have hblank : (board.pushRegister r).blank = board.blank :=
        (blank_kept board).pushRegister r rfl
      refine hpushed.trans (ih ?_)
      rw [hpointer, sub_four_sub_four_mul]
      exact (h.mono fun _ hwithin => Nat.lt_of_lt_of_le hwithin (by omega)).of_blank_eq hblank

theorem keepsBut_pushAll (h : board.OffBank (board.register .sp - 48) 48) :
    KeepsBut [.sp] board (Register.generalPurpose.foldl pushRegister board) := by
  have hlength : Register.generalPurpose.length = 12 := rfl
  apply keepsBut_pushRegisters
  rw [hlength]
  exact h

theorem keepsBut_popRegisters (rs : List Register) (board : Board) :
    KeepsBut (.sp :: rs) board (rs.foldl (popInto · .w32 ·) board) :=
  List.foldlRecOn rs _ (.of_registers_eq rfl) fun _ hpopped _ hmem =>
    hpopped.popInto List.mem_cons_self (List.mem_cons_of_mem _ hmem) .w32

/-! ## Interrupts -/

theorem keepsBut_saveContext (returnAddress : Word)
    (h : board.OffBank (board.register .sp - 8) 8) :
    KeepsBut [.sp, .fl] board (board.saveContext returnAddress) ∧
      (board.saveContext returnAddress).flags = board.flags.set .interrupts false := by
  have hupper : board.OffBank (board.pushAddress .w32) 4 :=
    h.mono fun _ hwithin => (within_stack_upper hwithin).1
  have hfirst : KeepsBut [.sp] board (board.push .w32 returnAddress) := keepsBut_push hupper _
  have hpointer : (board.push .w32 returnAddress).pushAddress .w32 = board.register .sp - 8 := by
    rw [pushAddress, register, registers_push hupper, RegisterFile.read_write_self]
    exact Word.sub_four_sub_four _
  have hblank : (board.push .w32 returnAddress).blank = board.blank :=
    (blank_kept board).push .w32 returnAddress rfl
  have hlower : (board.push .w32 returnAddress).OffBank
      ((board.push .w32 returnAddress).pushAddress .w32) 4 := by
    rw [hpointer]
    exact (h.mono fun _ hwithin => within_stack_lower hwithin).of_blank_eq hblank
  have hboth := hfirst.trans (keepsBut_push hlower ((board.push .w32 returnAddress).register .fl))
  refine ⟨(hboth.mono (by decide)).setRegister (by decide) _, ?_⟩
  have hflags := congrArg Flags.mk (hboth .fl (by decide))
  exact (congrArg Flags.mk (register_setRegister_self _ _ _)).trans
    (congrArg (Flags.set · .interrupts false) hflags)

/-- Entering a handler changes the stack pointer and the program counter, and of the flags the one that
enables interrupts. -/
theorem keepsBut_enterInterrupt (returnAddress : Word) (line : Byte)
    (h : board.OffBank (board.register .sp - 8) 8) :
    KeepsBut [.fl, .pc, .sp] board (board.enterInterrupt returnAddress line) ∧
      (board.enterInterrupt returnAddress line).flags = board.flags.set .interrupts false := by
  obtain ⟨hkeeps, hflags⟩ := keepsBut_saveContext returnAddress h
  rw [enterInterrupt_eq]
  generalize board.saveContext returnAddress = saved at hkeeps hflags
  have hjump : KeepsBut [.pc] saved ((saved.readValue (saved.config.vectorAddress line) 4).2.setRegister
      .pc (saved.readValue (saved.config.vectorAddress line) 4).1) :=
    KeepsBut.setRegister (.of_registers_eq (registers_readValue _ _ _)) (by decide) _
  constructor
  · exact (hkeeps.mono (by decide)).trans (hjump.mono (by decide))
  · rw [← hflags]
    exact congrArg Flags.mk (hjump .fl (by decide))

theorem keepsBut_leaveInterrupt (board : Board) :
    KeepsBut [.fl, .pc, .sp] board board.leaveInterrupt := by
  have hpopped : KeepsBut [.fl, .pc, .sp] board (board.pop .w32).2 :=
    KeepsBut.pop (.of_registers_eq rfl) (by decide) .w32
  have hboth := hpopped.pop (by decide) .w32
  exact (hboth.setRegister (by decide) _).setRegister (by decide) _

end TinyComputer.Board
