import TinyComputer.Proofs.KeyboardQueue
import TinyComputer.Proofs.MachineCode

/-!
# How often a fetch reads

An instruction that is fetched by reading each of its bytes once has as many bytes as were read. The
processor reads the opcode once more than that. Nobody can tell, unless the opcode is taken from the
queue of a keyboard: the first event then says how many bytes are read, and the second one is decoded.
-/

namespace TinyComputer

theorem Form.length_le : ∀ form ∈ Form.table, form.length ≤ 9 := by
  decide +kernel

theorem instructionLength_pos (opcode : Byte) : 0 < instructionLength opcode := by
  unfold instructionLength
  split
  · exact Form.length_pos _
  · exact Nat.one_pos

theorem instructionLength_le (opcode : Byte) : instructionLength opcode ≤ 9 := by
  unfold instructionLength
  split
  next form hform => exact Form.length_le form (Form.mem_table_of_ofOpcode?_eq_some hform).1
  next => decide

/-- The opcode tells the length of the instruction that is decoded from it. -/
theorem Instruction.length_of_decode {bytes : List Byte} {instruction : Instruction}
    (h : decode bytes = .ok instruction) : instruction.length = instructionLength (bytes.headD 0) := by
  unfold decode at h
  simp only at h
  split at h
  next => contradiction
  next form hform =>
    obtain ⟨operands, _, rfl⟩ := except_map_eq_ok_iff.mp h
    simp only [instructionLength, hform, length]

/-- An instruction that was decoded from all of its bytes is encoded by them. -/
theorem Instruction.encode_of_decode {bytes : List Byte} {instruction : Instruction}
    (h : decode bytes = .ok instruction) (hlength : bytes.length = instruction.length) :
    instruction.encode = bytes := by
  rw [(decode_eq_ok_iff.mp h).2, ← hlength, List.takeD_eq_take _ (Nat.le_refl _), List.take_length]

namespace Board

variable {board : Board} {address : Word}

/-- Fetch an instruction by reading each of its bytes once, in ascending order: the opcode, and then
the bytes that follow it in an instruction with this opcode. -/
def fetchOnce (board : Board) (address : Word) : Except DecodeError Instruction × Board :=
  let (opcode, board) := board.read address
  let (rest, board) := board.readBytes (address + 1) (instructionLength opcode - 1)
  (Instruction.decode (opcode :: rest), board)

/-- How many bytes an instruction at an address has, by the opcode that is read first. -/
def fetchLength (board : Board) (address : Word) : Nat :=
  instructionLength (board.peek address)

theorem fetchLength_eq_succ (board : Board) (address : Word) :
    ∃ count, board.fetchLength address = count + 1 :=
  Nat.exists_eq_succ_of_ne_zero (Nat.ne_of_gt (instructionLength_pos _))

/-- Reading every byte once is reading that many bytes from the address on. -/
theorem fetchOnce_eq (board : Board) (address : Word) :
    board.fetchOnce address =
      (Instruction.decode (board.readBytes address (board.fetchLength address)).1,
        (board.readBytes address (board.fetchLength address)).2) := by
  obtain ⟨count, hcount⟩ := board.fetchLength_eq_succ address
  rw [hcount, readBytes_succ]
  rw [fetchLength] at hcount
  simp only [fetchOnce, read, hcount, Nat.add_sub_cancel]

/-- The processor reads that many bytes after it has read the opcode. -/
theorem fetch_eq (board : Board) (address : Word) :
    board.fetch address =
      (Instruction.decode ((board.touch address).readBytes address (board.fetchLength address)).1,
        ((board.touch address).readBytes address (board.fetchLength address)).2) := rfl

/-- As many bytes as the opcode asks for are decoded to an instruction of that length, wherever they
were read. -/
theorem length_of_decode_readBytes {count : Nat} {instruction : Instruction} (hcount : 0 < count)
    (h : Instruction.decode (board.readBytes address count).1 = .ok instruction) :
    instruction.length = board.fetchLength address := by
  obtain ⟨count, rfl⟩ := Nat.exists_eq_succ_of_ne_zero (Nat.ne_of_gt hcount)
  rw [Instruction.length_of_decode h, readBytes_succ, List.headD_cons, fetchLength]

/-- An instruction that is fetched with one read for each byte has exactly the bytes that were read. -/
theorem readBytes_of_fetchOnce {instruction : Instruction} {after : Board}
    (h : board.fetchOnce address = (.ok instruction, after)) :
    board.readBytes address instruction.length = (instruction.encode, after) := by
  rw [fetchOnce_eq, Prod.mk.injEq] at h
  obtain ⟨hdecode, rfl⟩ := h
  have hlength := length_of_decode_readBytes (instructionLength_pos _) hdecode
  have hbytes := Instruction.encode_of_decode hdecode (by rw [length_readBytes, hlength])
  rw [hlength, hbytes]

/-- No event that a second read could miss waits at an address: there is no queue of a keyboard, or
nothing but an event with the word zero waits in it. -/
def RereadsOpcode (board : Board) (address : Word) : Prop :=
  ∀ id window keyboard, board.bindings[id]? = some ⟨window, .keyboard keyboard⟩ →
    board.routeIndex? address = some id → address = window.base + Keyboard.dequeueOffset →
    keyboard.queue = [] ∨ keyboard.queue = [0]

theorem fetchLength_le (board : Board) (address : Word) : board.fetchLength address ≤ 9 :=
  instructionLength_le _

/-- Reads of other addresses leave a keyboard as it is. -/
theorem getElem?_readBytes_of_keyboard {id count : Nat} {window : Window} {keyboard : Keyboard}
    (hbinding : board.bindings[id]? = some ⟨window, .keyboard keyboard⟩)
    (hnot : ¬ Word.Within address count (window.base + Keyboard.dequeueOffset)) :
    (board.readBytes address count).2.bindings[id]? = some ⟨window, .keyboard keyboard⟩ := by
  rcases (board.agreeButQueues_readBytes address count).binding id with
    heq | ⟨found, _, _, _, hfound, _, _, hreached⟩
  · rw [heq, hbinding]
  · rw [hbinding, Option.some.injEq, Binding.mk.injEq] at hfound
    rw [hfound.1] at hnot
    exact absurd hreached hnot

/-- The bytes behind an opcode do not come back to it. -/
theorem not_within_behind (address : Word) {count : Nat} (hcount : count ≤ 9) :
    ¬ Word.Within (address + 1) count address := by
  intro hwithin
  refine Word.not_within_of_within_add hwithin ?_ (Word.within_succ.mpr (.inl rfl))
  exact Nat.le_trans (Nat.add_le_add_left hcount 1) (by decide)

/-- Where the second read of the opcode takes nothing, it is as if there was one read. -/
theorem fetch_eq_fetchOnce_of_touch (htouch : (board.touch address).touch address = board.touch address)
    (hpeek : (board.touch address).peek address = board.peek address) :
    board.fetch address = board.fetchOnce address := by
  obtain ⟨count, hcount⟩ := board.fetchLength_eq_succ address
  rw [fetch_eq, fetchOnce_eq, hcount, readBytes_succ, readBytes_succ, htouch, hpeek]

theorem fetch_eq_fetchOnce_of_rereadsOpcode (h : board.RereadsOpcode address) :
    board.fetch address = board.fetchOnce address := by
  rcases board.touch_cases address with hsame | ⟨id, window, keyboard, hbinding, hroute, rfl, _⟩
  · exact fetch_eq_fetchOnce_of_touch (by rw [hsame, hsame]) (by rw [hsame])
  · have hqueue := h id window keyboard hbinding hroute rfl
    have hoffset := Word.add_sub_self window.base Keyboard.dequeueOffset
    have htouch := touch_of_keyboard hroute hbinding hoffset
    -- All that can be taken is a zero, which an empty queue gives as well.
    have hpop : keyboard.pop.pop = keyboard.pop := by
      rcases hqueue with hqueue | hqueue <;> simp [Keyboard.pop, hqueue]
    have hhead : keyboard.pop.queue.headD 0 = keyboard.queue.headD 0 := by
      rcases hqueue with hqueue | hqueue <;> simp [Keyboard.pop, hqueue]
    have hpopped := getElem?_modifyDevice_self hbinding (.keyboard keyboard.pop)
    have hroute' := (board.routeIndex?_modifyDevice id (fun _ => .keyboard keyboard.pop) _).trans hroute
    apply fetch_eq_fetchOnce_of_touch
    · rw [htouch, touch_of_keyboard hroute' hpopped hoffset, hpop, modifyDevice_modifyDevice]
      rfl
    · rw [htouch, peek_of_keyboard hroute' hpopped, peek_of_keyboard hroute hbinding, hoffset]
      have hlowest : ∀ k : Keyboard, k.read Keyboard.dequeueOffset = (k.queue.headD 0).byte 0 :=
        fun k => k.read_dequeueOffset_add 0
      rw [hlowest, hlowest, hhead]

/-- A keyboard that was read once more has lost an event, unless there was none to lose. -/
theorem rereadsOpcode_of_fetch_eq_fetchOnce (h : board.fetch address = board.fetchOnce address) :
    board.RereadsOpcode address := by
  rintro id window keyboard hbinding hroute rfl
  have hoffset := Word.add_sub_self window.base Keyboard.dequeueOffset
  have htouch := touch_of_keyboard hroute hbinding hoffset
  have hpopped := getElem?_modifyDevice_self hbinding (.keyboard keyboard.pop)
  have hroute' := (board.routeIndex?_modifyDevice id (fun _ => .keyboard keyboard.pop) _).trans hroute
  have htouch' := touch_of_keyboard hroute' hpopped hoffset
  have hpopped' := getElem?_modifyDevice_self hpopped (.keyboard keyboard.pop.pop)
  obtain ⟨count, hcount⟩ := board.fetchLength_eq_succ (window.base + Keyboard.dequeueOffset)
  have hle := board.fetchLength_le (window.base + Keyboard.dequeueOffset)
  have hbehind : ¬ Word.Within (window.base + Keyboard.dequeueOffset + 1) count
      (window.base + Keyboard.dequeueOffset) := not_within_behind _ (by omega)
  -- The bytes behind the opcode are read on boards that differ in the queue of the keyboard.
  have hafter := congrArg (fun fetched => fetched.2.bindings[id]?) h
  simp only [fetch_eq, fetchOnce_eq, hcount, readBytes_succ, htouch, htouch'] at hafter
  rw [getElem?_readBytes_of_keyboard hpopped hbehind,
    getElem?_readBytes_of_keyboard hpopped' hbehind] at hafter
  have hpop : keyboard.pop.pop = keyboard.pop := by simpa using hafter
  have hqueue := congrArg Keyboard.queue hpop
  have hlatch := congrArg Keyboard.latch hpop
  simp only [Keyboard.pop] at hqueue hlatch
  rcases hwaits : keyboard.queue with _ | ⟨word, _ | ⟨second, rest⟩⟩
  · exact .inl rfl
  · rw [hwaits] at hlatch
    exact .inr (congrArg (fun word => [word]) hlatch.symm)
  · rw [hwaits] at hqueue
    exact absurd (congrArg List.length hqueue) (by simp)

/-- A fetch gives what reading each byte once gives, and leaves the same board, exactly where no event
is lost to the second read of the opcode. An instruction that is fetched there has as many bytes as were
read, and is encoded by them, whichever devices they come from. Elsewhere the bytes that are read are
counted by the first opcode, and the instruction has the length of the second. -/
theorem fetch_eq_fetchOnce_iff (board : Board) (address : Word) :
    (board.fetch address = board.fetchOnce address ↔ board.RereadsOpcode address) ∧
    (board.RereadsOpcode address → ∀ instruction after,
      board.fetch address = (.ok instruction, after) →
        board.readBytes address instruction.length = (instruction.encode, after)) ∧
    ∀ instruction after, board.fetch address = (.ok instruction, after) →
      ∃ bytes, (board.touch address).readBytes address (board.fetchLength address) = (bytes, after) ∧
        bytes.length = board.fetchLength address ∧ Instruction.decode bytes = .ok instruction ∧
        instruction.length = (board.touch address).fetchLength address := by
  refine ⟨⟨rereadsOpcode_of_fetch_eq_fetchOnce, fetch_eq_fetchOnce_of_rereadsOpcode⟩, ?_, ?_⟩
  · intro hrereads instruction after hfetch
    rw [fetch_eq_fetchOnce_of_rereadsOpcode hrereads] at hfetch
    exact readBytes_of_fetchOnce hfetch
  · intro instruction after hfetch
    rw [fetch_eq, Prod.mk.injEq] at hfetch
    obtain ⟨hdecode, rfl⟩ := hfetch
    exact ⟨_, rfl, length_readBytes _ _ _, hdecode,
      length_of_decode_readBytes (instructionLength_pos _) hdecode⟩

/-- An instruction is fetched from the window of a keyboard whose queue is full: `QUEUE_FULL` is the
opcode of a move, and the event in front names the registers. It is taken once. -/
theorem fetch_eq_fetchOnce_iff_at_full_queue :
    let keyboard : Keyboard := { queue := List.replicate 16 0x0201 }
    let board : Board :=
      { empty {} with bindings := #[⟨⟨0x20000, 0x1000⟩, .keyboard keyboard⟩] }
    let move : Instruction :=
      ⟨⟨0x01, .mov, [.register, .register]⟩, [.register .b, .register .c]⟩
    board.RereadsOpcode 0x20011 ∧ board.fetch 0x20011 = board.fetchOnce 0x20011 ∧
      ∃ after, board.fetch 0x20011 = (.ok move, after) ∧
        board.readBytes 0x20011 3 = ([0x01, 0x01, 0x02], after) ∧
        after.device? 0 =
          some (.keyboard { queue := List.replicate 15 0x0201, latch := 0x0201 }) := by
  intro keyboard board move
  have hrereads : board.RereadsOpcode 0x20011 := by
    intro id window keyboard hbinding _ haddress
    have hwindow : window = ⟨0x20000, 0x1000⟩ := by
      match id with
      | 0 => exact (Binding.mk.inj (Option.some.inj hbinding)).1.symm
      | id + 1 => contradiction
    subst hwindow
    exact absurd haddress (by decide)
  have hmove : (board.fetch 0x20011).1 = .ok move := by decide +kernel
  have hfetch : board.fetch 0x20011 = (.ok move, (board.fetch 0x20011).2) := by rw [← hmove]
  obtain ⟨hiff, hread, _⟩ := board.fetch_eq_fetchOnce_iff 0x20011
  exact ⟨hrereads, hiff.mpr hrereads, _, hfetch, hread hrereads move _ hfetch, by decide +kernel⟩

/-- A keyboard that waits for its program has two events, and the program runs into its queue. Reading
each byte once would fetch the instruction that the first event says and leave the second one. The fetch
takes both: it reads a single byte and gives an instruction of three. -/
theorem fetch_loses_event_in_queue :
    let attached := ((empty {}).attach (.keyboard {}) ⟨0x20000, 0x1000⟩).2
    let board := ((attached.addKeyEvent 0 { key := 0x87 }).2.addKeyEvent 0 { key := 0x01 }).2
    let nop : Instruction := ⟨⟨0x87, .nop, []⟩, []⟩
    let move : Instruction :=
      ⟨⟨0x01, .mov, [.register, .register]⟩, [.register .a, .register .a]⟩
    attached.Assembled ∧ board.fetchLength 0x20012 = 1 ∧
      (board.fetchOnce 0x20012).1 = .ok nop ∧ nop.length = 1 ∧
      (board.fetchOnce 0x20012).2.device? 0 =
        some (.keyboard { queue := [0x01], latch := 0x87, line := some 0 }) ∧
      (board.fetch 0x20012).1 = .ok move ∧ move.length = 3 ∧
      (board.fetch 0x20012).2.device? 0 = some (.keyboard { latch := 0x01, line := some 0 }) ∧
      board.fetch 0x20012 ≠ board.fetchOnce 0x20012 := by
  intro attached board nop move
  have hfetch : (board.fetch 0x20012).1 = .ok move := by decide +kernel
  have honce : (board.fetchOnce 0x20012).1 = .ok nop := by decide +kernel
  refine ⟨.attach _ _ (.empty _), by decide +kernel, honce, rfl, by decide +kernel, hfetch, rfl,
    by decide +kernel, ?_⟩
  intro heq
  rw [heq, honce] at hfetch
  exact absurd hfetch (by decide)

end Board

end TinyComputer
