import TinyComputer.Assembly.Program
import TinyComputer.Disassembly
import TinyComputer.Proofs.InstructionText
import TinyComputer.Proofs.MemoryView
import TinyComputer.Proofs.Outcomes

/-!
# Programs in memory

The machine code of a program stands in memory as the code of its instructions, one behind the other.
Each of them is fetched from where the one before it ends, so that the program is read back as it was
written and the last instruction ends where the code ends. A disassembly shows the same instructions
at the same addresses.
-/

namespace TinyComputer

open Text

namespace Program

/-- The lines of a program that hold an instruction, without their comments. -/
def codeLines (text : List Char) : List (List Char) :=
  ((Text.lines text).map code).filter fun line => !line.isEmpty

theorem parseLines_eq_ok_iff {number : Nat} {lines : List (List Char)}
    {instructions : List Instruction} :
    parseLines number lines = .ok instructions ↔
      ((lines.map code).filter fun line => !line.isEmpty).mapM Instruction.parse =
        .ok instructions := by
  induction lines generalizing number instructions with
  | nil => rw [parseLines, List.map_nil, List.filter_nil, List.mapM_nil]; simp [pure, Except.pure]
  | cons line rest ih =>
      rw [parseLines, List.map_cons, List.filter_cons]
      cases (code line).isEmpty with
      | true => exact ih
      | false =>
          rw [if_neg Bool.false_ne_true, if_pos (by rfl), except_mapM_cons_eq_ok_iff]
          cases Instruction.parse (code line) with
          | error error => simp
          | ok instruction => simp [except_map_eq_ok_iff, ih]

theorem assemble_eq_ok_iff {text : List Char} {bytes : List Byte} :
    assemble text = .ok bytes ↔
      ∃ instructions, (codeLines text).mapM Instruction.parse = .ok instructions ∧
        instructions.flatMap Instruction.encode = bytes := by
  rw [assemble, except_map_eq_ok_iff]
  exact exists_congr fun _ => and_congr_left fun _ => parseLines_eq_ok_iff

theorem wellFormed_of_mapM_parse {lines : List (List Char)} {instructions : List Instruction}
    (h : lines.mapM Instruction.parse = .ok instructions) :
    ∀ instruction ∈ instructions, instruction.WellFormed := by
  induction lines generalizing instructions with
  | nil =>
      obtain rfl : [] = instructions := Except.ok.inj h
      simp
  | cons line rest ih =>
      obtain ⟨instruction, others, hparse, hothers, rfl⟩ := except_mapM_cons_eq_ok_iff.mp h
      exact List.forall_mem_cons.mpr ⟨Instruction.wellFormed_of_parse hparse, ih hothers⟩

end Program

namespace DisassemblyRow

/-- No mnemonic is spelled like the word that starts a row of data. -/
theorem padRight_name_ne : ∀ mnemonic ∈ Mnemonic.all,
    padRight 8 mnemonic.name.toList ≠ padRight 8 "data".toList := by
  decide +kernel

/-- The text of an instruction is not that of a row of data. -/
theorem render_ne_text_data (symbols : Symbols) (instruction : Instruction) (byte : Byte) :
    symbols.render instruction ≠ (data byte).text := by
  intro h
  have htext : symbols.render instruction =
      padRight 8 "data".toList ++ (['0', 'x'] ++ hexFixed 2 byte.toNat) := by
    rw [← List.append_assoc]
    exact h
  have hname := Mnemonic.length_name _ instruction.mnemonic.mem_all
  rw [Symbols.render, Instruction.renderWith] at htext
  split at htext
  next =>
    have hlength := congrArg List.length htext
    rw [List.length_append, length_padRight] at hlength
    omega
  next =>
    have hpad := (List.append_inj htext (by
      rw [length_padRight, length_padRight, Nat.max_eq_left (Nat.le_of_lt hname.2)]
      rfl)).1
    exact padRight_name_ne _ instruction.mnemonic.mem_all hpad

/-- A row that shows an instruction is no row of data. -/
theorem ne_data (symbols : Symbols) (instruction : Instruction) (byte : Byte) :
    (⟨symbols.render instruction, instruction.length⟩ : DisassemblyRow) ≠ data byte :=
  fun h => render_ne_text_data symbols instruction byte (congrArg text h)

end DisassemblyRow

namespace Board

variable {board : Board} {address : Word}

/-- An instruction is fetched from where its code is. -/
theorem Stores.fetch_eq {instruction : Instruction} (hwell : instruction.WellFormed)
    (h : board.Stores address instruction.encode) :
    board.fetch address = (.ok instruction, board) := by
  have hopcode : board.peek address = instruction.form.opcode := peek_of_memoryByte? h.1
  have hlength : instructionLength instruction.form.opcode = instruction.encode.length := by
    rw [Instruction.length_encode hwell, instructionLength, Form.ofOpcode?_opcode _ hwell.1]
    rfl
  have hdecode := Instruction.decode_encode_append hwell []
  rw [List.append_nil] at hdecode
  simp only [fetch, read, touch_of_inMemory h.inMemory, hopcode, hlength, h.readBytes_eq, hdecode]

/-- Fetch instructions one behind the other, up to the first that cannot be decoded. The answer comes
with the address behind the last of them. -/
def fetchAll (board : Board) (address : Word) : (count : Nat) → List Instruction × Word × Board
  | 0 => ([], address, board)
  | count + 1 =>
      match board.fetch address with
      | (.error _, board) => ([], address, board)
      | (.ok instruction, board) =>
          let (rest, final) := board.fetchAll (address + UInt32.ofNat instruction.length) count
          (instruction :: rest, final)

/-- The rows that show instructions which stand one behind the other. -/
def listing (symbols : Symbols) (address : Word) : List Instruction → List (Word × DisassemblyRow)
  | [] => []
  | instruction :: rest =>
      (address, ⟨symbols.render instruction, instruction.length⟩) ::
        listing symbols (address + UInt32.ofNat instruction.length) rest

variable {instructions : List Instruction}

/-- The code of instructions takes as many bytes as they do. -/
theorem add_length_encode {instruction : Instruction} (hwell : instruction.WellFormed)
    (address : Word) (rest : List Byte) :
    address + UInt32.ofNat instruction.length + UInt32.ofNat rest.length =
      address + UInt32.ofNat (instruction.encode ++ rest).length := by
  rw [List.length_append, Instruction.length_encode hwell, UInt32.ofNat_add, UInt32.add_assoc]

theorem Stores.fetchAll_eq (hwell : ∀ instruction ∈ instructions, instruction.WellFormed)
    (h : board.Stores address (instructions.flatMap Instruction.encode)) :
    board.fetchAll address instructions.length =
      (instructions,
        address + UInt32.ofNat (instructions.flatMap Instruction.encode).length, board) := by
  induction instructions generalizing address with
  | nil => simp [fetchAll]
  | cons instruction rest ih =>
      obtain ⟨hfirst, hrest⟩ := List.forall_mem_cons.mp hwell
      rw [List.flatMap_cons, stores_append, Instruction.length_encode hfirst] at h
      rw [List.length_cons, fetchAll, h.1.fetch_eq hfirst]
      simp only [ih hrest h.2, add_length_encode hfirst, List.flatMap_cons]

theorem Stores.disassembleRows_eq (hwell : ∀ instruction ∈ instructions, instruction.WellFormed)
    (h : board.Stores address (instructions.flatMap Instruction.encode)) (symbols : Symbols) :
    board.disassembleRows symbols address instructions.length =
      (listing symbols address instructions, board) := by
  induction instructions generalizing address with
  | nil => rfl
  | cons instruction rest ih =>
      obtain ⟨hfirst, hrest⟩ := List.forall_mem_cons.mp hwell
      rw [List.flatMap_cons, stores_append, Instruction.length_encode hfirst] at h
      simp only [List.length_cons, disassembleRows, disassemble, h.1.fetch_eq hfirst,
        ih hrest h.2, listing]

theorem ne_data_of_mem_listing (symbols : Symbols) (address : Word)
    (instructions : List Instruction) :
    ∀ row ∈ listing symbols address instructions, ∀ byte, row.2 ≠ .data byte := by
  induction instructions generalizing address with
  | nil => simp [listing]
  | cons instruction rest ih =>
      rw [listing, List.forall_mem_cons]
      exact ⟨DisassemblyRow.ne_data symbols instruction, ih _⟩

/-- A program that is assembled and written to memory is there as it was written: its instructions are
what its lines say, they are fetched one behind the other, and the last one ends where the code ends.
A disassembly shows each of them where it is fetched, and none of its rows is a row of data. -/
theorem program_reads_back {text : List Char} {bytes : List Byte}
    (h : Program.assemble text = .ok bytes) :
    ∃ instructions, (Program.codeLines text).mapM Instruction.parse = .ok instructions ∧
      ∀ (board : Board) (base : Word), bytes.length ≤ wordBound →
        (∀ address, Word.Within base bytes.length address → board.InMemory address) →
        (board.writeBytes base bytes).fetchAll base instructions.length =
          (instructions, base + UInt32.ofNat bytes.length, board.writeBytes base bytes) ∧
        ∀ symbols,
          (board.writeBytes base bytes).disassembleRows symbols base instructions.length =
            (listing symbols base instructions, board.writeBytes base bytes) ∧
          ∀ row ∈ listing symbols base instructions, ∀ byte, row.2 ≠ .data byte := by
  obtain ⟨instructions, hparse, rfl⟩ := Program.assemble_eq_ok_iff.mp h
  refine ⟨instructions, hparse, ?_⟩
  intro board base hlength hmemory
  have hwell := Program.wellFormed_of_mapM_parse hparse
  have hstores := stores_writeBytes hlength hmemory
  refine ⟨hstores.fetchAll_eq hwell, ?_⟩
  intro symbols
  exact ⟨hstores.disassembleRows_eq hwell symbols, ne_data_of_mem_listing symbols base instructions⟩

/-- A loop of three instructions is loaded across two memories, so that the second of them takes over
in the middle of an instruction. -/
theorem program_reads_back_across_memories :
    let text := "; count down from three\n mov A, 3\n\n dec A  ; loop body\n bnz 0x3".toList
    let bytes : List Byte := [0x02, 0x00, 0x03, 0x5B, 0x00, 0x5F, 0x03, 0x00, 0x00, 0x00]
    let program : List Instruction :=
      [⟨⟨0x02, .mov, [.register, .immediate .w8]⟩, [.register .a, .immediate 3 .w8]⟩,
        ⟨⟨0x5B, .dec, [.register]⟩, [.register .a]⟩,
        ⟨⟨0x5F, .branch .notZero, [.immediate .w32]⟩, [.immediate 3 .w32]⟩]
    let board : Board :=
      { empty {} with
        bindings := #[⟨⟨0, 0x14⟩, .memory (.zeros 0x14)⟩, ⟨⟨0x14, 0x10⟩, .memory (.zeros 0x10)⟩] }
    let loaded := board.writeBytes 0x10 bytes
    Program.assemble text = .ok bytes ∧ loaded.fetchAll 0x10 3 = (program, 0x1A, loaded) ∧
      ∀ symbols, loaded.disassembleRows symbols 0x10 3 = (listing symbols 0x10 program, loaded) := by
  intro text bytes program board loaded
  have hassemble : Program.assemble text = .ok bytes := by decide +kernel
  have hlines : (Program.codeLines text).mapM Instruction.parse = .ok program := by decide +kernel
  have hmemory : ∀ address, Word.Within 0x10 bytes.length address → board.InMemory address :=
    Word.forall_within (by decide +kernel)
  obtain ⟨instructions, hparse, hrun⟩ := program_reads_back hassemble
  obtain rfl : program = instructions := Except.ok.inj (hlines.symm.trans hparse)
  obtain ⟨hfetch, hrows⟩ := hrun board 0x10 (by decide) hmemory
  exact ⟨hassemble, hfetch, fun symbols => (hrows symbols).1⟩

end Board

end TinyComputer
