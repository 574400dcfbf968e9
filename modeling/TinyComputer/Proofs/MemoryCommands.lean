import TinyComputer.Proofs.DumpText
import TinyComputer.Proofs.ProgramImage
import TinyComputer.Proofs.Ram
import TinyComputer.Proofs.Respacing

/-!
# Commands that write to memory

Copying, filling, entering and assembling all write a list of bytes from an address on: those of the block
to be copied as they were before, one byte again and again, those that were given, or the code of the
instruction. If the addresses are in RAM, these bytes are there afterwards, in order, and nothing else has
changed. A dump shows the bytes of its range and changes nothing.
-/

namespace TinyComputer

open Text

/-! ## Reading the commands -/

namespace CommandContext

variable {context : CommandContext} {token? : Option (List Char)} {size : Word}

theorem blockSize_eq_ok_iff {token : List Char} :
    context.blockSize token = .ok size ↔
      context.address token = .ok size ∧ size ≤ context.ramSize := by
  unfold blockSize
  cases context.address token with
  | error error => simp
  | ok value =>
      simp only [Except.ok.injEq]
      split
      next hlarge =>
        refine ⟨fun h => absurd h (by simp), ?_⟩
        rintro ⟨rfl, hle⟩
        exact absurd hle (UInt32.not_le.mpr hlarge)
      next hfits =>
        rw [Except.ok.injEq]
        refine ⟨?_, And.left⟩
        rintro rfl
        exact ⟨rfl, UInt32.not_lt.mp hfits⟩

theorem requiredAddress_eq_ok_iff {name : String} {address : Word} :
    context.requiredAddress name token? = .ok address ↔
      ∃ token, token? = some token ∧ context.address token = .ok address := by
  cases token? <;> simp [requiredAddress]

theorem requiredSize_eq_ok_iff :
    context.requiredSize token? = .ok size ↔
      ∃ token, token? = some token ∧ context.address token = .ok size ∧ size ≤ context.ramSize := by
  cases token? <;> simp [requiredSize, blockSize_eq_ok_iff]

end CommandContext

namespace Command

theorem parseBytes_eq_ok_iff {tokens : List (List Char)} {bytes : List Byte} :
    parseBytes tokens = .ok bytes ↔
      List.Forall₂ (fun token byte => parseByte token = .ok byte) tokens bytes := by
  induction tokens generalizing bytes with
  | nil => simp [parseBytes, eq_comm]
  | cons token rest ih =>
      rw [parseBytes, List.forall₂_cons_left_iff]
      cases parseByte token with
      | error error => simp
      | ok byte =>
          simp only [except_map_eq_ok_iff, Except.ok.injEq, ih]
          constructor
          · rintro ⟨others, hothers, rfl⟩
            exact ⟨byte, others, rfl, hothers, rfl⟩
          · rintro ⟨_, others, rfl, hothers, rfl⟩
            exact ⟨others, hothers, rfl⟩

theorem parseSomeBytes_eq_ok_iff {name : String} {tokens : List (List Char)} {bytes : List Byte} :
    parseSomeBytes name tokens = .ok bytes ↔ parseBytes tokens = .ok bytes ∧ bytes ≠ [] := by
  unfold parseSomeBytes
  cases parseBytes tokens with
  | error error => simp
  | ok found =>
      cases found with
      | nil =>
          refine ⟨fun h => absurd h (by simp), ?_⟩
          rintro ⟨h, hne⟩
          exact absurd (Except.ok.inj h).symm hne
      | cons byte rest =>
          refine ⟨?_, And.left⟩
          rintro h
          exact ⟨h, fun hnil => absurd (Except.ok.inj (hnil ▸ h)) (List.cons_ne_nil _ _)⟩

/-- The words of a line that writes to memory or dumps it, and what they are read as. Addresses and sizes
are literals or symbols, no size is larger than RAM, and what comes after the arguments of a copy, a
filling or a dump with a size counts for nothing. -/
inductive Reads (context : CommandContext) : List (List Char) → Command → Prop
  | copy {first second third : List Char} {rest : List (List Char)} {source destination size : Word} :
      context.address first = .ok source → context.address second = .ok destination →
      context.address third = .ok size → size ≤ context.ramSize →
      Reads context (['y'] :: first :: second :: third :: rest) (.copy source destination size)
  | fill {first second third : List Char} {rest : List (List Char)} {address size : Word}
      {value : Byte} :
      context.address first = .ok address → context.address second = .ok size →
      size ≤ context.ramSize → parseByte third = .ok value →
      Reads context (['f'] :: first :: second :: third :: rest) (.fill address size value)
  | enter {first : List Char} {tokens : List (List Char)} {address : Word} {bytes : List Byte} :
      context.address first = .ok address → bytes ≠ [] →
      List.Forall₂ (fun token byte => parseByte token = .ok byte) tokens bytes →
      Reads context (['e'] :: first :: tokens) (.enter address bytes)
  | assemble {first text : List Char} {address : Word} {instruction : Instruction} :
      context.address first = .ok address → Instruction.parse text = .ok instruction →
      Reads context (['a'] :: first :: words text) (.assemble address instruction)
  | dump {first second : List Char} {rest : List (List Char)} {address size : Word} :
      context.address first = .ok address → context.address second = .ok size →
      size ≤ context.ramSize →
      Reads context (['d'] :: first :: second :: rest) (.dump address size)
  | dumpDefault {first : List Char} {address : Word} : context.address first = .ok address →
      Reads context [['d'], first] (.dump address defaultDumpSize)

variable {context : CommandContext} {line : List Char} {arguments : List (List Char)}
  {command : Command}

theorem Reads.parse_eq_ok {name : List Char} (h : Reads context (name :: arguments) command) :
    parse context name arguments = .ok command := by
  cases h with
  | copy hsource hdestination hsize hle =>
      have hblock := CommandContext.blockSize_eq_ok_iff.mpr ⟨hsize, hle⟩
      simp only [parse, List.head?_cons, List.getElem?_cons_succ, List.getElem?_cons_zero,
        CommandContext.requiredAddress, CommandContext.requiredSize, hsource, hdestination, hblock]
      rfl
  | fill haddress hsize hle hvalue =>
      have hblock := CommandContext.blockSize_eq_ok_iff.mpr ⟨hsize, hle⟩
      simp only [parse, List.head?_cons, List.getElem?_cons_succ, List.getElem?_cons_zero,
        CommandContext.requiredAddress, CommandContext.requiredSize, parseValue, haddress, hblock, hvalue]
      rfl
  | enter haddress hne hbytes =>
      have hsome : parseSomeBytes "data" _ = .ok _ :=
        parseSomeBytes_eq_ok_iff.mpr ⟨parseBytes_eq_ok_iff.mpr hbytes, hne⟩
      simp only [parse, List.head?_cons, List.tail_cons, CommandContext.requiredAddress, haddress, hsome]
      rfl
  | assemble haddress hparse =>
      simp only [parse, List.head?_cons, List.tail_cons, CommandContext.requiredAddress, haddress,
        parseInstruction_words hparse]
      rfl
  | dump haddress hsize hle =>
      have hblock := CommandContext.blockSize_eq_ok_iff.mpr ⟨hsize, hle⟩
      simp only [parse, List.head?_cons, List.getElem?_cons_succ, List.getElem?_cons_zero,
        CommandContext.requiredAddress, haddress, hblock]
      rfl
  | dumpDefault haddress =>
      simp only [parse, List.head?_cons, List.getElem?_cons_succ, List.getElem?_nil,
        CommandContext.requiredAddress, haddress]
      rfl

theorem parseValue_eq_ok_iff {token? : Option (List Char)} {value : Byte} :
    parseValue token? = .ok value ↔ ∃ token, token? = some token ∧ parseByte token = .ok value := by
  cases token? <;> simp [parseValue]

/-- An instruction is read from words exactly when it is read from a text with these words. -/
theorem exists_text_of_parseInstruction {tokens : List (List Char)} {instruction : Instruction}
    (hsolid : ∀ token ∈ tokens, Solid token) (hne : ∀ token ∈ tokens, token ≠ [])
    (h : parseInstruction tokens = .ok instruction) :
    ∃ text, words text = tokens ∧ Instruction.parse text = .ok instruction := by
  cases tokens with
  | nil => contradiction
  | cons token rest =>
      refine ⟨_, words_join hsolid hne, ?_⟩
      simp only [parseInstruction] at h
      split at h
      next => contradiction
      next hparse => rw [hparse, Except.ok.inj h]

theorem reads_of_parse_copy (h : parse context ['y'] arguments = .ok command) :
    Reads context (['y'] :: arguments) command := by
  obtain ⟨source, hsource, h⟩ := except_bind_eq_ok_iff.mp h
  obtain ⟨destination, hdestination, h⟩ := except_bind_eq_ok_iff.mp h
  obtain ⟨size, hsize, h⟩ := except_bind_eq_ok_iff.mp h
  obtain rfl := Except.ok.inj h
  obtain ⟨_, hfirst, hsource⟩ := CommandContext.requiredAddress_eq_ok_iff.mp hsource
  obtain ⟨_, hsecond, hdestination⟩ := CommandContext.requiredAddress_eq_ok_iff.mp hdestination
  obtain ⟨_, hthird, hsize, hle⟩ := CommandContext.requiredSize_eq_ok_iff.mp hsize
  match arguments with
  | [] | [_] | [_, _] => contradiction
  | first :: second :: third :: rest =>
      obtain rfl := Option.some.inj hfirst
      obtain rfl := Option.some.inj hsecond
      obtain rfl := Option.some.inj hthird
      exact .copy hsource hdestination hsize hle

theorem reads_of_parse_fill (h : parse context ['f'] arguments = .ok command) :
    Reads context (['f'] :: arguments) command := by
  obtain ⟨address, haddress, h⟩ := except_bind_eq_ok_iff.mp h
  obtain ⟨size, hsize, h⟩ := except_bind_eq_ok_iff.mp h
  obtain ⟨value, hvalue, h⟩ := except_bind_eq_ok_iff.mp h
  obtain rfl := Except.ok.inj h
  obtain ⟨_, hfirst, haddress⟩ := CommandContext.requiredAddress_eq_ok_iff.mp haddress
  obtain ⟨_, hsecond, hsize, hle⟩ := CommandContext.requiredSize_eq_ok_iff.mp hsize
  obtain ⟨_, hthird, hvalue⟩ := parseValue_eq_ok_iff.mp hvalue
  match arguments with
  | [] | [_] | [_, _] => contradiction
  | first :: second :: third :: rest =>
      obtain rfl := Option.some.inj hfirst
      obtain rfl := Option.some.inj hsecond
      obtain rfl := Option.some.inj hthird
      exact .fill haddress hsize hle hvalue

theorem reads_of_parse_enter (h : parse context ['e'] arguments = .ok command) :
    Reads context (['e'] :: arguments) command := by
  obtain ⟨address, haddress, h⟩ := except_bind_eq_ok_iff.mp h
  obtain ⟨bytes, hbytes, h⟩ := except_bind_eq_ok_iff.mp h
  obtain rfl := Except.ok.inj h
  obtain ⟨first, hfirst, haddress⟩ := CommandContext.requiredAddress_eq_ok_iff.mp haddress
  obtain ⟨hbytes, hne⟩ := parseSomeBytes_eq_ok_iff.mp hbytes
  obtain ⟨rest, rfl⟩ := List.head?_eq_some_iff.mp hfirst
  exact .enter haddress hne (parseBytes_eq_ok_iff.mp hbytes)

theorem reads_of_parse_assemble (hsolid : ∀ token ∈ arguments, Solid token)
    (hne : ∀ token ∈ arguments, token ≠ []) (h : parse context ['a'] arguments = .ok command) :
    Reads context (['a'] :: arguments) command := by
  obtain ⟨address, haddress, h⟩ := except_bind_eq_ok_iff.mp h
  obtain ⟨instruction, hinstruction, h⟩ := except_bind_eq_ok_iff.mp h
  obtain rfl := Except.ok.inj h
  obtain ⟨first, hfirst, haddress⟩ := CommandContext.requiredAddress_eq_ok_iff.mp haddress
  obtain ⟨rest, rfl⟩ := List.head?_eq_some_iff.mp hfirst
  obtain ⟨text, rfl, hparse⟩ := exists_text_of_parseInstruction
    (fun token hmem => hsolid token (List.mem_cons_of_mem _ hmem))
    (fun token hmem => hne token (List.mem_cons_of_mem _ hmem)) hinstruction
  exact .assemble haddress hparse

theorem reads_of_parse_dump (h : parse context ['d'] arguments = .ok command) :
    Reads context (['d'] :: arguments) command := by
  obtain ⟨address, haddress, h⟩ := except_bind_eq_ok_iff.mp h
  obtain ⟨_, hfirst, haddress⟩ := CommandContext.requiredAddress_eq_ok_iff.mp haddress
  match arguments with
  | [] => contradiction
  | [first] =>
      obtain rfl := Option.some.inj hfirst
      obtain rfl := Except.ok.inj h
      exact .dumpDefault haddress
  | first :: second :: rest =>
      obtain rfl := Option.some.inj hfirst
      obtain ⟨size, hsize, h⟩ := except_bind_eq_ok_iff.mp h
      obtain rfl := Except.ok.inj h
      obtain ⟨hsize, hle⟩ := CommandContext.blockSize_eq_ok_iff.mp hsize
      exact .dump haddress hsize hle

end Command

namespace Debugger

variable {debugger after : Debugger} {line : List Char} {command : Command} {address : Word}
  {count : Nat} {bytes : List Byte}

/-- The names of the commands that write to memory, and of the one that dumps it. -/
def memoryNames : List (List Char) :=
  [['y'], ['f'], ['e'], ['a'], ['d']]

/-- A line with one of these names calls the command that its words are read as, if there is one. -/
theorem command?_eq_some_iff_reads (h : calls memoryNames line = true) :
    debugger.command? line = some command ↔ command.Reads debugger.context (words line) := by
  rw [command?_eq_some_iff]
  constructor
  · rintro ⟨name, arguments, hwords, hparse⟩
    have hsolid : ∀ token ∈ arguments, Solid token := fun token hmem =>
      not_isBlank_of_mem_words (hwords ▸ List.mem_cons_of_mem _ hmem)
    have hne : ∀ token ∈ arguments, token ≠ [] := fun token hmem =>
      ne_nil_of_mem_words (hwords ▸ List.mem_cons_of_mem _ hmem)
    rw [calls, hwords] at h
    rw [hwords]
    have hname : name ∈ memoryNames := by simpa using h
    simp only [memoryNames, List.mem_cons, List.not_mem_nil, or_false] at hname
    rcases hname with rfl | rfl | rfl | rfl | rfl
    · exact Command.reads_of_parse_copy hparse
    · exact Command.reads_of_parse_fill hparse
    · exact Command.reads_of_parse_enter hparse
    · exact Command.reads_of_parse_assemble hsolid hne hparse
    · exact Command.reads_of_parse_dump hparse
  · intro hreads
    cases hwords : words line with
    | nil =>
        rw [hwords] at hreads
        cases hreads
    | cons name arguments =>
        rw [hwords] at hreads
        exact ⟨name, arguments, rfl, hreads.parse_eq_ok⟩

/-- Reading is all that can fail in these commands. -/
theorem exists_answer_iff_reads (h : calls memoryNames line = true) :
    (∃ answer, (debugger.interpret line).1 = .ok answer) ↔
      ∃ command : Command, command.Reads debugger.context (words line) := by
  constructor
  · rintro ⟨answer, hanswer⟩
    cases hcommand : debugger.command? line with
    | some command => exact ⟨command, (command?_eq_some_iff_reads h).mp hcommand⟩
    | none =>
        cases hwords : words line with
        | nil => simp [calls, hwords] at h
        | cons name arguments =>
            cases hparse : Command.parse debugger.context name arguments with
            | error error => simp [interpret, hwords, hparse] at hanswer
            | ok command => simp [command?, hwords, hparse, Except.toOption] at hcommand
  · rintro ⟨command, hreads⟩
    rw [interpret_of_command? ((command?_eq_some_iff_reads h).mpr hreads)]
    generalize words line = tokens at hreads
    cases hreads <;> exact ⟨_, rfl⟩

/-! ## What the commands do -/

/-- The byte that is seen at an address. -/
def peek (debugger : Debugger) (address : Word) : Byte :=
  debugger.machine.board.peek address

def HasRam (debugger : Debugger) : Prop :=
  debugger.machine.board.HasRam

def InRam (debugger : Debugger) (address : Word) (count : Nat) : Prop :=
  debugger.machine.board.InRam address count

instance (debugger : Debugger) (address : Word) (count : Nat) :
    Decidable (debugger.InRam address count) :=
  inferInstanceAs (Decidable (debugger.machine.board.InRam address count))

/-- Ranges of RAM are dumped as they are: a line of text for each sixteen bytes and one for the rest, with
addresses that are sixteen apart, whose columns make up the bytes of the range. The dump changes
nothing. -/
def DumpsRam (debugger : Debugger) : Prop :=
  ∀ line address size, debugger.command? line = some (.dump address size) →
    debugger.InRam address size.toNat →
    ∃ rows, debugger.interpret line = (.ok (join ['\n'] rows), debugger) ∧
      rows.length = (size.toNat + 15) / 16 ∧
      (rows ≠ [] → lines (join ['\n'] rows) = rows) ∧
      rows.map Dump.lineAddress? =
        (List.range rows.length).map (fun row => some (address.toNat + 16 * row)) ∧
      rows.flatMap Dump.lineBytes =
        (List.range size.toNat).map fun place =>
          some (debugger.peek (address + UInt32.ofNat place)).toNat

/-- A line succeeds and has one effect: the given bytes are at an address and behind it, in order. Other
addresses show what they showed, other devices than RAM and the registers are as they were, and so are the
symbols and the breakpoints. Ranges of RAM can be dumped afterwards. -/
structure Writes (debugger : Debugger) (line : List Char) (address : Word) (bytes : List Byte) :
    Prop where
  succeeds : ∃ answer, (debugger.interpret line).1 = .ok answer
  peek_eq : ∀ (place : Nat) (h : place < bytes.length),
    (debugger.interpret line).2.peek (address + UInt32.ofNat place) = bytes[place]
  peek_other_eq : ∀ other, ¬ Word.Within address bytes.length other →
    (debugger.interpret line).2.peek other = debugger.peek other
  agreeButFirst : Board.AgreeButFirst debugger.machine.board
    (debugger.interpret line).2.machine.board
  symbols_eq : (debugger.interpret line).2.machine.symbols = debugger.machine.symbols
  breakpoints_eq : (debugger.interpret line).2.breakpoints = debugger.breakpoints
  dumpsRam : (debugger.interpret line).2.DumpsRam

theorem HasRam.interpret (h : debugger.HasRam) (line : List Char) :
    (debugger.interpret line).2.HasRam :=
  Board.hasRam_kept.interpret line h

theorem HasRam.dumpsRam (h : debugger.HasRam) : debugger.DumpsRam := by
  intro line address size hcommand hrange
  have hread := Board.HasRam.readBytes_eq h hrange
  have hlength : (debugger.machine.board.peekBytes address size.toNat).length = size.toNat := by
    rw [Board.peekBytes_eq_map, List.length_map, List.length_range]
  refine ⟨Dump.renderLines address (debugger.machine.board.peekBytes address size.toNat), ?_, ?_, ?_,
    ?_, ?_⟩
  · rw [interpret_of_command? hcommand]
    simp only [execute, dump, withBoard, withMachine, Machine.withBoard, hread]
    rfl
  · rw [Dump.renderLines_eq, List.length_map, List.length_range, hlength]
  · exact fun hne => lines_join hne (Dump.newline_notMem_renderLines _ _)
  · rw [Dump.map_lineAddress?_renderLines, hlength, Dump.renderLines_eq, List.length_map,
      List.length_range, hlength]
    apply List.map_congr_left
    intro row hrow
    rw [List.mem_range] at hrow
    -- RAM ends within the address space, so no address of a line wraps around.
    have hsum : address.toNat + 16 * row < 2 ^ 32 := by
      have hbound := debugger.machine.board.config.ramSize.toNat_lt
      unfold InRam Board.InRam at hrange
      omega
    have hrow : (UInt32.ofNat (16 * row)).toNat = 16 * row := Nat.mod_eq_of_lt (by omega)
    rw [UInt32.toNat_add, hrow, Nat.mod_eq_of_lt hsum]
  · rw [Dump.flatMap_lineBytes_renderLines, Board.peekBytes_eq_map, List.map_map]
    rfl

/-- What is written to RAM is there, and nothing else has changed. -/
theorem HasRam.writes (h : debugger.HasRam) (hrange : debugger.InRam address bytes.length)
    (hline : ∃ answer, debugger.interpret line =
      (.ok answer, debugger.mapBoard (·.writeBytes address bytes))) :
    debugger.Writes line address bytes := by
  obtain ⟨answer, hline⟩ := hline
  have hafter := congrArg Prod.snd hline
  have hseen := Board.HasRam.peekBytes_writeBytes h hrange
  refine ⟨⟨answer, congrArg Prod.fst hline⟩, ?_, ?_, ?_, ?_, ?_, (h.interpret line).dumpsRam⟩
  · intro place hplace
    rw [Board.peekBytes_eq_map] at hseen
    have hbyte := List.getElem_of_eq hseen.symm hplace
    rw [List.getElem_map, List.getElem_range] at hbyte
    rw [hafter, hbyte]
    rfl
  · intro other hnot
    rw [hafter]
    exact Board.HasRam.peek_writeBytes_of_not_within h hrange hnot
  · rw [hafter]
    exact Board.HasRam.agreeButFirst_writeBytes h hrange
  · rw [hafter]
    rfl
  · rw [hafter]
    rfl

theorem HasRam.writes_copy (h : debugger.HasRam) {source destination size : Word}
    (hcommand : debugger.command? line = some (.copy source destination size))
    (hsource : debugger.InRam source size.toNat) (hdestination : debugger.InRam destination size.toNat) :
    debugger.Writes line destination ((List.range size.toNat).map fun place =>
      debugger.peek (source + UInt32.ofNat place)) := by
  have hread := Board.HasRam.readBytes_eq h hsource
  rw [Board.peekBytes_eq_map] at hread
  apply h.writes
  · rwa [List.length_map, List.length_range]
  · rw [interpret_of_command? hcommand]
    simp only [execute, copy, withBoard, withMachine, Machine.withBoard, hread]
    exact ⟨_, rfl⟩

theorem HasRam.writes_fill (h : debugger.HasRam) {size : Word} {value : Byte}
    (hcommand : debugger.command? line = some (.fill address size value))
    (hrange : debugger.InRam address size.toNat) :
    debugger.Writes line address (List.replicate size.toNat value) := by
  apply h.writes
  · rwa [List.length_replicate]
  · exact ⟨_, interpret_of_command? hcommand⟩

theorem HasRam.writes_enter (h : debugger.HasRam)
    (hcommand : debugger.command? line = some (.enter address bytes))
    (hrange : debugger.InRam address bytes.length) : debugger.Writes line address bytes :=
  h.writes hrange ⟨_, interpret_of_command? hcommand⟩

/-- The instruction that was written is read again to be shown, which does nothing in RAM. -/
theorem HasRam.writes_assemble (h : debugger.HasRam) {token text : List Char}
    (hline : words line = ['a'] :: token :: words text)
    (haddress : debugger.context.address token = .ok address)
    (hbytes : Instruction.assemble text = .ok bytes) (hrange : debugger.InRam address bytes.length) :
    debugger.Writes line address bytes := by
  obtain ⟨instruction, hparse, rfl⟩ := Instruction.assemble_eq_ok_iff.mp hbytes
  have hlength : instruction.encode.length ≤ wordBound :=
    Nat.le_trans hrange.count_le (Nat.le_of_lt debugger.machine.board.config.ramSize.toNat_lt)
  have hstores := Board.stores_writeBytes hlength (Board.HasRam.inMemory_of_within h hrange)
  have hfetch := hstores.fetch_eq (Instruction.wellFormed_of_parse hparse)
  apply h.writes hrange
  rw [interpret_assemble hline haddress hparse]
  simp only [assemble, mapBoard, Machine.mapBoard, withMachine, Machine.disassemble,
    Board.disassemble, hfetch]
  exact ⟨_, rfl⟩

/-- Commands that write to memory have the effect that they stand for and no other. However a machine was
built and used, it has RAM, and keeps it whatever its debugger is told. With ranges in RAM, a copy leaves
at its destination the bytes that its block held before, also if the two overlap; a filling leaves its
byte everywhere; and the bytes that were entered, or those of the code of an instruction, are there in
order. Nothing else has changed, and dumps show the ranges of RAM as they are then. The lines that call
such a command succeed exactly if their words can be read. -/
theorem memory_commands_exact :
    (∀ config peripherals built actions, Machine.build config peripherals = .ok built →
      (built.performAll actions).board.HasRam) ∧
    ∀ debugger : Debugger, debugger.HasRam →
      debugger.DumpsRam ∧ (∀ line, (debugger.interpret line).2.HasRam) ∧
      (∀ line, calls memoryNames line = true →
        (∀ command, debugger.command? line = some command ↔
          command.Reads debugger.context (words line)) ∧
        ((∃ answer, (debugger.interpret line).1 = .ok answer) ↔
          ∃ command : Command, command.Reads debugger.context (words line))) ∧
      (∀ line source destination size,
        debugger.command? line = some (.copy source destination size) →
        debugger.InRam source size.toNat → debugger.InRam destination size.toNat →
        debugger.Writes line destination ((List.range size.toNat).map fun place =>
          debugger.peek (source + UInt32.ofNat place))) ∧
      (∀ line address size value, debugger.command? line = some (.fill address size value) →
        debugger.InRam address size.toNat →
        debugger.Writes line address (List.replicate size.toNat value)) ∧
      (∀ line address bytes, debugger.command? line = some (.enter address bytes) →
        debugger.InRam address bytes.length → debugger.Writes line address bytes) ∧
      ∀ line token text address bytes, words line = ['a'] :: token :: words text →
        debugger.context.address token = .ok address → Instruction.assemble text = .ok bytes →
        debugger.InRam address bytes.length → debugger.Writes line address bytes := by
  refine ⟨fun _ _ _ actions hbuild => Machine.hasRam_of_build hbuild actions, ?_⟩
  intro debugger h
  refine ⟨h.dumpsRam, h.interpret, ?_, ?_, ?_, ?_, ?_⟩
  · intro line hcalls
    exact ⟨fun command => command?_eq_some_iff_reads hcalls, exists_answer_iff_reads hcalls⟩
  · intro line source destination size hcommand hsource hdestination
    exact h.writes_copy hcommand hsource hdestination
  · intro line address size value hcommand hrange
    exact h.writes_fill hcommand hrange
  · intro line address bytes hcommand hrange
    exact h.writes_enter hcommand hrange
  · intro line token text address bytes hline haddress hbytes hrange
    exact h.writes_assemble hline haddress hbytes hrange

/-- A machine is built and used, and told to copy a block onto a place that overlaps it, to fill an empty
block that is not in RAM, to enter bytes at the end of RAM, to assemble an instruction and to show the end
of RAM. -/
theorem memory_commands_exact_of_overlapping_copy :
    let config : Config := { ramSize := 0x40, vectorBase := 0x20, stackTop := 0x40 }
    let actions : List Machine.Action :=
      [.board (.write 0x10 1), .board (.write 0x11 2), .board (.write 0x12 3)]
    ∃ built, Machine.build config [.keyboard {}] = .ok built ∧
      let debugger := ofMachine (built.performAll actions)
      debugger.HasRam ∧ debugger.Writes "y 0x10 0x11 3".toList 0x11 [1, 2, 3] ∧
        debugger.Writes "f KBD_DEQUEUE 0 7".toList 0xF0003012 [] ∧
        debugger.Writes "e 62 0xAB 255".toList 62 [0xAB, 0xFF] ∧
        debugger.Writes "a 0x20 mov  A,3".toList 0x20 [0x02, 0x00, 0x03] ∧
        ∃ rows, debugger.interpret "d 0x3E 2".toList = (.ok (join ['\n'] rows), debugger) ∧
          rows.flatMap Dump.lineBytes = [some 0, some 0] := by
  intro config actions
  have hfacts : (Machine.build config [.keyboard {}]).toOption.any (fun built =>
      let debugger := ofMachine (built.performAll actions)
      debugger.command? "y 0x10 0x11 3".toList = some (.copy 0x10 0x11 3) ∧
        debugger.InRam 0x10 3 ∧ debugger.InRam 0x11 3 ∧
        debugger.command? "f KBD_DEQUEUE 0 7".toList = some (.fill 0xF0003012 0 7) ∧
        debugger.command? "e 62 0xAB 255".toList = some (.enter 62 [0xAB, 0xFF]) ∧
        debugger.InRam 62 2 ∧ debugger.InRam 0x20 3 ∧
        debugger.command? "d 0x3E 2".toList = some (.dump 0x3E 2) ∧
        (List.range 3).map (fun place => debugger.peek (0x10 + UInt32.ofNat place)) = [1, 2, 3] ∧
        (List.range 2).map (fun place => some (debugger.peek (0x3E + UInt32.ofNat place)).toNat) =
          [some 0, some 0]) = true := by
    decide +kernel
  cases hbuild : Machine.build config [.keyboard {}] with
  | error error =>
      rw [hbuild] at hfacts
      contradiction
  | ok built =>
      rw [hbuild] at hfacts
      obtain ⟨hcopy, hsource, hdestination, hfill, henter, hend, hcode, hdump, hblock, hzeros⟩ :=
        of_decide_eq_true hfacts
      obtain ⟨hbuilt, hexact⟩ := memory_commands_exact
      have hram := hbuilt config [.keyboard {}] built actions hbuild
      obtain ⟨hdumps, _, _, hcopies, hfills, henters, hassembles⟩ :=
        hexact (ofMachine (built.performAll actions)) hram
      have hcopied := hcopies _ _ _ _ hcopy hsource hdestination
      have hassembled := hassembles "a 0x20 mov  A,3".toList "0x20".toList "mov  A,3".toList 0x20
        [0x02, 0x00, 0x03] (by decide +kernel) rfl (by decide +kernel) hcode
      obtain ⟨rows, hrows, _, _, _, hcolumns⟩ := hdumps _ _ _ hdump hend
      refine ⟨built, rfl, hram, ?_, hfills _ _ _ _ hfill (.inl rfl), henters _ _ _ henter hend,
        hassembled, rows, hrows, ?_⟩
      · rwa [← hblock]
      · rw [← hzeros]
        exact hcolumns

end Debugger

end TinyComputer
