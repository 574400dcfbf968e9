import TinyComputer.Proofs.FaultConditions
import TinyComputer.Proofs.Inspection
import TinyComputer.Proofs.MemoryWrites
import TinyComputer.Proofs.Reset

/-!
# RAM

RAM is the first device of a machine, with its window at address zero. It is there however the machine
was built, and stays there whatever is done with the machine and whatever the debugger is told. Reading a
range of RAM changes nothing, and writing one changes the bytes of RAM in this range and nothing else of
the board.
-/

namespace TinyComputer

namespace Board

variable {board before after : Board} {address other : Word} {count : Nat} {bytes : List Byte}

/-- RAM of the configured size is the first device and answers from address zero. -/
def HasRam (board : Board) : Prop :=
  ∃ ram, board.bindings[0]? = some ⟨⟨0, board.config.ramSize⟩, .memory ram⟩ ∧
    ram.size = board.config.ramSize.toNat

/-- A range of addresses lies in RAM. An empty one does wherever it is. -/
def InRam (board : Board) (address : Word) (count : Nat) : Prop :=
  count = 0 ∨ address.toNat + count ≤ board.config.ramSize.toNat

instance (board : Board) (address : Word) (count : Nat) : Decidable (board.InRam address count) :=
  inferInstanceAs (Decidable (_ ∨ _))

/-! ## RAM stays -/

/-- A board has RAM if it has RAM as new. -/
theorem hasRam_iff_blank :
    board.HasRam ↔ board.blank.bindings[0]? =
      some ⟨⟨0, board.config.ramSize⟩, .memory (.zeros board.config.ramSize.toNat)⟩ := by
  rw [getElem?_blank]
  constructor
  · rintro ⟨ram, hbinding, hsize⟩
    rw [hbinding, ← hsize]
    rfl
  · intro h
    obtain ⟨⟨window, device⟩, hbinding, hblank⟩ := Option.map_eq_some_iff.mp h
    obtain ⟨rfl, hdevice⟩ := Binding.mk.inj hblank
    cases device with
    | memory ram =>
        refine ⟨ram, hbinding, ?_⟩
        have hsize := congrArg Memory.size (Device.memory.inj hdevice)
        rwa [Memory.size_zeros, Memory.size_zeros] at hsize
    | _ => contradiction

theorem HasRam.of_blank_eq (h : before.HasRam) (hblank : after.blank = before.blank) :
    after.HasRam := by
  have hconfig : after.config = before.config := by
    change after.blank.config = before.blank.config
    rw [hblank]
  rw [hasRam_iff_blank, hblank, hconfig]
  exact hasRam_iff_blank.mp h

theorem hasRam_kept : KeptByAccesses HasRam where
  setRegister _ _ h := h
  touch address h := h.of_blank_eq (blank_touch _ address)
  write address value h := h.of_blank_eq (blank_write _ address value)
  takeInterrupt h := h.of_blank_eq (blank_takeInterrupt _)

/-! ## Ranges in RAM -/

theorem HasRam.routeIndex?_eq (h : board.HasRam)
    (hlt : address.toNat < board.config.ramSize.toNat) : board.routeIndex? address = some 0 := by
  obtain ⟨ram, hbinding, _⟩ := h
  refine routeIndex?_eq_some_iff.mpr ⟨_, hbinding, ?_, by simp⟩
  simp [Window.contains, Window.bound, hlt]

theorem HasRam.inMemory (h : board.HasRam) (hlt : address.toNat < board.config.ramSize.toNat) :
    board.InMemory address := by
  have hroute := h.routeIndex?_eq hlt
  obtain ⟨ram, hbinding, hsize⟩ := h
  refine inMemory_iff.mpr ⟨0, _, ram, hroute, hbinding, ?_⟩
  rwa [UInt32.sub_zero, hsize]

theorem InRam.count_le (h : board.InRam address count) : count ≤ board.config.ramSize.toNat := by
  unfold InRam at h
  omega

theorem InRam.lt_of_within (h : board.InRam address count) (hwithin : Word.Within address count other) :
    other.toNat < board.config.ramSize.toNat := by
  have haddress := address.toNat_lt
  have hother := other.toNat_lt
  have hsize := board.config.ramSize.toNat_lt
  unfold InRam at h
  unfold Word.Within at hwithin
  rw [UInt32.toNat_sub] at hwithin
  omega

theorem HasRam.inMemory_of_within (h : board.HasRam) (hrange : board.InRam address count) :
    ∀ other, Word.Within address count other → board.InMemory other :=
  fun _ hwithin => h.inMemory (hrange.lt_of_within hwithin)

/-- What is seen from an address upwards, byte by byte. -/
theorem peekBytes_eq_map (board : Board) (address : Word) (count : Nat) :
    board.peekBytes address count =
      (List.range count).map fun place => board.peek (address + UInt32.ofNat place) := by
  induction count generalizing address with
  | zero => rfl
  | succ count ih =>
      rw [peekBytes, ih, List.range_succ_eq_map, List.map_cons, List.map_map]
      refine congrArg₂ List.cons (congrArg board.peek (UInt32.add_zero address).symm) ?_
      exact List.map_congr_left fun place _ => congrArg board.peek (add_one_add_ofNat address place)

theorem HasRam.readBytes_eq (h : board.HasRam) (hrange : board.InRam address count) :
    board.readBytes address count = (board.peekBytes address count, board) :=
  readBytes_of_touch_eq fun other hwithin =>
    touch_of_inMemory (h.inMemory_of_within hrange other hwithin)

/-! ## Writes to RAM -/

/-- Nothing but the first device differs. -/
structure AgreeButFirst (before after : Board) : Prop where
  board_eq : after = { before with bindings := after.bindings }
  binding_eq : ∀ id : Nat, id ≠ 0 → after.bindings[id]? = before.bindings[id]?

theorem AgreeButFirst.config_eq (h : AgreeButFirst before after) : after.config = before.config := by
  rw [h.board_eq]

theorem AgreeButFirst.refl (board : Board) : AgreeButFirst board board :=
  ⟨rfl, fun _ _ => rfl⟩

theorem AgreeButFirst.trans {middle : Board} (hfirst : AgreeButFirst before middle)
    (hsecond : AgreeButFirst middle after) : AgreeButFirst before after := by
  refine ⟨?_, fun id hid => (hsecond.binding_eq id hid).trans (hfirst.binding_eq id hid)⟩
  calc
    after = { middle with bindings := after.bindings } := hsecond.board_eq
    _ = { before with bindings := after.bindings } := by rw [hfirst.board_eq]

theorem HasRam.agreeButFirst_write (h : board.HasRam)
    (hlt : address.toNat < board.config.ramSize.toNat) (value : Byte) :
    AgreeButFirst board (board.write address value) := by
  obtain ⟨id, window, memory, hroute, _, _, hwrite⟩ := write_of_inMemory (h.inMemory hlt) value
  obtain rfl : 0 = id := Option.some.inj ((h.routeIndex?_eq hlt).symm.trans hroute)
  rw [hwrite]
  refine ⟨rfl, fun id hid => ?_⟩
  rw [getElem?_modifyDevice, if_neg hid.symm]

theorem HasRam.agreeButFirst_writeBytes (h : board.HasRam)
    (hrange : board.InRam address bytes.length) :
    AgreeButFirst board (board.writeBytes address bytes) := by
  replace hrange : ∀ other, Word.Within address bytes.length other →
      other.toNat < board.config.ramSize.toNat := fun _ hwithin => hrange.lt_of_within hwithin
  induction bytes generalizing board address with
  | nil => exact .refl board
  | cons byte rest ih =>
      have hwrite := h.agreeButFirst_write (hrange address (Word.within_succ.mpr (.inl rfl))) byte
      rw [writeBytes_cons]
      refine hwrite.trans (ih (hasRam_kept.write address byte h) fun other hwithin => ?_)
      rw [hwrite.config_eq]
      exact hrange other (Word.within_succ.mpr (.inr hwithin))

/-- Bytes that are written to RAM are seen there. -/
theorem HasRam.peekBytes_writeBytes (h : board.HasRam)
    (hrange : board.InRam address bytes.length) :
    (board.writeBytes address bytes).peekBytes address bytes.length = bytes := by
  have hlength : bytes.length ≤ wordBound :=
    Nat.le_trans hrange.count_le (Nat.le_of_lt board.config.ramSize.toNat_lt)
  have hmemory := h.inMemory_of_within hrange
  have hread := (readBytes_writeBytes_of_inMemory hlength hmemory).1
  have hkept := (agreeButMemory_writeBytes hmemory).1.inMemory_iff
  rw [readBytes_of_touch_eq fun other hwithin =>
    touch_of_inMemory ((hkept other).mpr (hmemory other hwithin))] at hread
  exact congrArg Prod.fst hread

theorem HasRam.peek_writeBytes_of_not_within (h : board.HasRam)
    (hrange : board.InRam address bytes.length) (hnot : ¬ Word.Within address bytes.length other) :
    (board.writeBytes address bytes).peek other = board.peek other :=
  have hlength : bytes.length ≤ wordBound :=
    Nat.le_trans hrange.count_le (Nat.le_of_lt board.config.ramSize.toNat_lt)
  (readBytes_writeBytes_of_inMemory hlength (h.inMemory_of_within hrange)).2 other hnot

end Board

/-! ## Machines and their debuggers -/

namespace Machine

variable {config : Config} {peripherals : List Device} {built : Machine}

/-- A machine has RAM, however it was built and whatever was done with it. -/
theorem hasRam_of_build (h : Machine.build config peripherals = .ok built) (actions : List Action) :
    (built.performAll actions).board.HasRam := by
  obtain ⟨hconfig, hram⟩ := Board.addDevices_preserved (P := fun board => board.config = config ∧
      board.bindings[0]? = some ⟨⟨0, config.ramSize⟩, .memory (.zeros config.ramSize.toNat)⟩)
    (fun _ _ hboard => hboard) (by
      intro board window device _ hboard
      obtain ⟨hlt, _⟩ := Array.getElem?_eq_some_iff.mp hboard.2
      rw [Board.config_bind, Board.bindings_bind, Array.getElem?_push_lt hlt]
      exact ⟨hboard.1, Array.getElem?_eq_getElem hlt ▸ hboard.2⟩)
    (by rw [Board.config_bind, Board.bindings_bind]; exact ⟨rfl, rfl⟩) (addDevices_of_build h)
  have hbuilt : built.board.HasRam := ⟨_, hconfig ▸ hram, by rw [Memory.size_zeros, hconfig]⟩
  exact hbuilt.of_blank_eq (built.sameBlank_performAll actions).1

end Machine

namespace Board.KeptByAccesses

variable {P : Board → Prop} {debugger : Debugger}

theorem touchAll (h : KeptByAccesses P) (addresses : List Word)
    (hboard : P debugger.machine.board) : P (debugger.touchAll addresses).machine.board :=
  List.foldlRecOn addresses _ hboard fun _ hread address _ => h.touch address hread

theorem withCurrent (h : KeptByAccesses P) (text : List Char) (hboard : P debugger.machine.board) :
    P (debugger.withCurrent text).2.machine.board := by
  rw [Debugger.debugger_withCurrent]
  exact h.touchAll _ hboard

theorem debuggerStep (h : KeptByAccesses P) (hboard : P debugger.machine.board) :
    P debugger.step.2.machine.board := by
  have hstep : P (debugger.withMachine Machine.step).2.machine.board := h.step hboard
  unfold Debugger.step
  split
  next heq => rwa [heq] at hstep
  next heq =>
    rw [heq] at hstep
    exact h.withCurrent _ hstep

theorem debuggerRun (h : KeptByAccesses P) (stop : Word → Bool) (hboard : P debugger.machine.board) :
    P (debugger.run stop).2.machine.board := by
  have hrun : P (debugger.withMachine (·.runUntil stop
      debugger.machine.board.config.runLimit)).2.machine.board := h.runUntil stop _ hboard
  unfold Debugger.run Debugger.report
  simp only
  split
  · exact hrun
  · split
    · exact h.withCurrent _ hrun
    · exact h.withCurrent _ hrun
  · exact h.withCurrent _ hrun

/-- Commands of the debugger keep what accesses keep. -/
theorem debuggerExecute (h : KeptByAccesses P) (command : Command)
    (hboard : P debugger.machine.board) : P (debugger.execute command).2.machine.board := by
  cases hinspects : command.inspects with
  | true =>
      rw [Debugger.machine_execute hinspects]
      exact h.touchAll _ hboard
  | false =>
      cases command with
      | step => exact h.debuggerStep hboard
      | stepOver =>
          have hfetched : P (debugger.withBoard (·.fetch debugger.machine.pc)).2.machine.board :=
            h.fetch _ hboard
          simp only [Debugger.execute, Debugger.stepOver]
          split
          next heq =>
            rw [heq] at hfetched
            split
            · exact h.debuggerRun _ hfetched
            · exact h.debuggerStep hfetched
          next heq =>
            rw [heq] at hfetched
            exact h.debuggerStep hfetched
      | continueRun => exact h.debuggerRun _ hboard
      | assemble address instruction =>
          simp only [Debugger.execute, Debugger.assemble, Debugger.debugger_disassemble]
          exact h.touchAll _ (h.writeBytes address _ hboard)
      | enter address bytes => exact h.writeBytes address bytes hboard
      | fill address size value => exact h.writeBytes address _ hboard
      | copy source destination size =>
          exact h.writeBytes destination _ (h.readBytes source _ hboard)
      | _ => contradiction

theorem interpret (h : KeptByAccesses P) (line : List Char) (hboard : P debugger.machine.board) :
    P (debugger.interpret line).2.machine.board := by
  cases hcommand : debugger.command? line with
  | none => rwa [Debugger.interpret_of_command?_eq_none hcommand]
  | some command =>
      rw [Debugger.interpret_of_command? hcommand]
      exact h.debuggerExecute command hboard

end Board.KeptByAccesses

end TinyComputer
