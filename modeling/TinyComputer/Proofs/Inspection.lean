import TinyComputer.Debugger.Basic
import TinyComputer.Proofs.FetchOnce
import TinyComputer.Proofs.Outcomes

/-!
# What inspecting commands read

Some commands of the debugger show the machine and do not act on it. All that they do to the machine is
done by the bytes that they read, one after the other, and a read changes a board only where it takes an
event from the queue of a keyboard. So a command that reads no such byte leaves the machine as it was.
-/

namespace TinyComputer

namespace Board

variable {board : Board} {address : Word}

/-! ## Reads -/

/-- Whether an address is that of the lowest byte of `DEQUEUE` of a keyboard. -/
def isDequeue (board : Board) (address : Word) : Bool :=
  match board.route? address with
  | some ⟨window, .keyboard _⟩ => address == window.base + Keyboard.dequeueOffset
  | _ => false

/-- Reads of other bytes have no effect, whatever device they come from. -/
theorem touch_of_isDequeue_eq_false (h : board.isDequeue address = false) :
    board.touch address = board := by
  rcases board.touch_cases address with hsame | ⟨id, window, keyboard, hbinding, hroute, haddress, _⟩
  · exact hsame
  · rw [isDequeue, route?_eq_of_routeIndex? hroute hbinding] at h
    simp [haddress] at h

/-- The board after bytes were read at some addresses, one after the other. -/
def touchAll (board : Board) (addresses : List Word) : Board :=
  addresses.foldl touch board

@[simp] theorem touchAll_nil (board : Board) : board.touchAll [] = board := rfl

@[simp] theorem touchAll_cons (board : Board) (address : Word) (rest : List Word) :
    board.touchAll (address :: rest) = (board.touch address).touchAll rest := rfl

@[simp] theorem touchAll_append (board : Board) (first second : List Word) :
    board.touchAll (first ++ second) = (board.touchAll first).touchAll second :=
  List.foldl_append

theorem touchAll_of_isDequeue_eq_false {addresses : List Word}
    (h : ∀ address ∈ addresses, board.isDequeue address = false) :
    board.touchAll addresses = board := by
  induction addresses with
  | nil => rfl
  | cons address rest ih =>
      obtain ⟨hfirst, hrest⟩ := List.forall_mem_cons.mp h
      rw [touchAll_cons, touch_of_isDequeue_eq_false hfirst, ih hrest]

/-- Consecutive addresses, a count of them. -/
def span (address : Word) : (count : Nat) → List Word
  | 0 => []
  | count + 1 => address :: span (address + 1) count

theorem board_readBytes (board : Board) (address : Word) (count : Nat) :
    (board.readBytes address count).2 = board.touchAll (span address count) := by
  induction count generalizing board address with
  | zero => rfl
  | succ count ih =>
      rw [readBytes_succ, span, touchAll_cons]
      exact ih (board.touch address) (address + 1)

/-! ## Disassembly -/

/-- The addresses that a fetch reads: the opcode, and then the instruction from its opcode on. -/
def fetchReads (board : Board) (address : Word) : List Word :=
  address :: span address (board.fetchLength address)

theorem board_fetch (board : Board) (address : Word) :
    (board.fetch address).2 = board.touchAll (board.fetchReads address) := by
  rw [fetch_eq, fetchReads, touchAll_cons, ← board_readBytes]

/-- The addresses that disassembling one row reads. A byte that starts no instruction is read again. -/
def rowReads (board : Board) (address : Word) : List Word :=
  match (board.fetch address).1 with
  | .ok _ => board.fetchReads address
  | .error _ => board.fetchReads address ++ [address]

/-- How many bytes a row of a disassembly shows. -/
def rowLength (board : Board) (address : Word) : Nat :=
  match (board.fetch address).1 with
  | .ok instruction => instruction.length
  | .error _ => 1

theorem board_disassemble (board : Board) (symbols : Symbols) (address : Word) :
    (board.disassemble symbols address).2 = board.touchAll (board.rowReads address) := by
  have hfetch := board.board_fetch address
  unfold disassemble rowReads
  split
  next heq =>
    rw [heq] at hfetch
    rw [heq, hfetch]
  next heq =>
    rw [heq] at hfetch
    rw [heq, touchAll_append, ← hfetch]
    rfl

theorem length_disassemble (board : Board) (symbols : Symbols) (address : Word) :
    (board.disassemble symbols address).1.length = board.rowLength address := by
  unfold disassemble rowLength
  split
  next heq => rw [heq]
  next heq =>
    rw [heq]
    rfl

/-- The addresses that a listing reads: each row is disassembled, and then its bytes are read to be
shown. -/
def listingReads (board : Board) (address : Word) : (count : Nat) → List Word
  | 0 => []
  | count + 1 =>
      let reads := board.rowReads address ++ span address (board.rowLength address)
      reads ++ (board.touchAll reads).listingReads
        (address + UInt32.ofNat (board.rowLength address)) count

end Board

/-! ## Commands -/

namespace Command

/-- The names under which a command is called. -/
def names : Command → List (List Char)
  | .help => [['?'], ['h']]
  | .registers => [['r']]
  | .step => [['s']]
  | .stepOver => [['o']]
  | .continueRun => [['c']]
  | .setBreakpoint _ => [['b']]
  | .clearBreakpoint _ => [['u']]
  | .list _ => [['l']]
  | .assemble _ _ => [['a']]
  | .dump _ _ => [['d']]
  | .enter _ _ => [['e']]
  | .fill _ _ _ => [['f']]
  | .copy _ _ _ => [['y']]
  | .search _ => [['p']]

theorem mem_names_of_parse {context : CommandContext} {name : List Char}
    {arguments : List (List Char)} {command : Command}
    (h : parse context name arguments = .ok command) : name ∈ command.names := by
  unfold parse at h
  split at h
  -- The commands without arguments come first, then those with one, and then those with several.
  iterate 6 next => obtain rfl := Except.ok.inj h; simp [names]
  iterate 3 next => obtain ⟨_, _, rfl⟩ := except_map_eq_ok_iff.mp h; simp [names]
  next =>
    obtain ⟨_, _, h⟩ := except_bind_eq_ok_iff.mp h
    obtain ⟨_, _, h⟩ := except_bind_eq_ok_iff.mp h
    obtain rfl := Except.ok.inj h
    simp [names]
  next =>
    obtain ⟨_, _, h⟩ := except_bind_eq_ok_iff.mp h
    split at h
    · obtain ⟨_, _, h⟩ := except_bind_eq_ok_iff.mp h
      obtain rfl := Except.ok.inj h
      simp [names]
    · obtain rfl := Except.ok.inj h
      simp [names]
  next =>
    obtain ⟨_, _, h⟩ := except_bind_eq_ok_iff.mp h
    obtain ⟨_, _, h⟩ := except_bind_eq_ok_iff.mp h
    obtain rfl := Except.ok.inj h
    simp [names]
  iterate 2 next =>
    obtain ⟨_, _, h⟩ := except_bind_eq_ok_iff.mp h
    obtain ⟨_, _, h⟩ := except_bind_eq_ok_iff.mp h
    obtain ⟨_, _, h⟩ := except_bind_eq_ok_iff.mp h
    obtain rfl := Except.ok.inj h
    simp [names]
  next => obtain ⟨_, _, rfl⟩ := except_map_eq_ok_iff.mp h; simp [names]
  next => contradiction

/-- Whether a command shows the machine and does not act on it. -/
def inspects : Command → Bool
  | .help | .registers | .setBreakpoint _ | .clearBreakpoint _ | .list _ | .dump _ _ | .search _ =>
      true
  | _ => false

/-- Whether a command sets or removes a breakpoint. -/
def setsBreakpoints : Command → Bool
  | .setBreakpoint _ | .clearBreakpoint _ => true
  | _ => false

/-- Whether a command runs the machine up to a breakpoint. -/
def runs : Command → Bool
  | .stepOver | .continueRun => true
  | _ => false

end Command

namespace Debugger

variable {debugger : Debugger} {command : Command}

/-- The addresses that are read to show the current instruction. -/
def currentReads (debugger : Debugger) : List Word :=
  debugger.machine.board.rowReads debugger.machine.pc

/-- The addresses that an inspecting command reads, in the order of reading. -/
def reads (debugger : Debugger) : Command → List Word
  | .registers => debugger.currentReads
  | .list address => debugger.machine.board.listingReads address listingRows
  | .dump address size => Board.span address size.toNat
  | .search _ => Board.span 0 debugger.machine.board.config.ramSize.toNat
  | _ => []

/-- The debugger after bytes were read at some addresses, one after the other. -/
def touchAll (debugger : Debugger) (addresses : List Word) : Debugger :=
  ⟨⟨debugger.machine.board.touchAll addresses, debugger.machine.symbols⟩, debugger.breakpoints⟩

/-- None of the given bytes is taken from the queue of a keyboard. -/
def Quiet (debugger : Debugger) (addresses : List Word) : Prop :=
  ∀ address ∈ addresses, debugger.machine.board.isDequeue address = false

instance (debugger : Debugger) (addresses : List Word) : Decidable (debugger.Quiet addresses) :=
  List.decidableBAll _ addresses

/-- Reads of such bytes leave everything as it was. -/
theorem Quiet.touchAll_eq {addresses : List Word} (h : debugger.Quiet addresses) :
    debugger.touchAll addresses = debugger := by
  rw [touchAll, Board.touchAll_of_isDequeue_eq_false h]

theorem debugger_disassemble (debugger : Debugger) (address : Word) :
    (debugger.withMachine (·.disassemble address)).2 =
      debugger.touchAll (debugger.machine.board.rowReads address) := by
  rw [touchAll, ← Board.board_disassemble _ debugger.machine.symbols]
  rfl

theorem debugger_readBytes (debugger : Debugger) (address : Word) (count : Nat) :
    (debugger.withBoard (·.readBytes address count)).2 =
      debugger.touchAll (Board.span address count) := by
  rw [touchAll, ← Board.board_readBytes]
  rfl

theorem debugger_withCurrent (text : List Char) (debugger : Debugger) :
    (debugger.withCurrent text).2 = debugger.touchAll debugger.currentReads :=
  debugger.debugger_disassemble debugger.machine.pc

theorem debugger_welcome (debugger : Debugger) :
    debugger.welcome.2 = debugger.touchAll debugger.currentReads :=
  debugger.debugger_disassemble debugger.machine.pc

theorem debugger_listingRowsFrom (debugger : Debugger) (address : Word) (count : Nat) :
    (debugger.listingRowsFrom address count).2 =
      debugger.touchAll (debugger.machine.board.listingReads address count) := by
  induction count generalizing debugger address with
  | zero => rfl
  | succ count ih =>
      have hlength : (debugger.withMachine (·.disassemble address)).1.length =
          debugger.machine.board.rowLength address :=
        debugger.machine.board.length_disassemble debugger.machine.symbols address
      simp only [listingRowsFrom, hlength, ih, debugger_readBytes, debugger_disassemble,
        Board.listingReads]
      simp only [touchAll, Board.touchAll_append]

/-- An inspecting command does what its reads do, and nothing else unless it sets breakpoints. -/
theorem debugger_execute (h : command.inspects = true) (hkeeps : command.setsBreakpoints = false) :
    (debugger.execute command).2 = debugger.touchAll (debugger.reads command) := by
  cases command with
  | help => rfl
  | registers => exact debugger_withCurrent _ debugger
  | list address => simp only [execute, list, debugger_listingRowsFrom, reads]
  | dump address size => simp only [execute, dump, debugger_readBytes, reads]
  | search pattern =>
      simp only [execute, search, debugger_readBytes]
      split <;> rfl
  | _ => contradiction

theorem machine_execute (h : command.inspects = true) :
    (debugger.execute command).2.machine = (debugger.touchAll (debugger.reads command)).machine := by
  cases command with
  | setBreakpoint address => rfl
  | clearBreakpoint address =>
      simp only [execute, clearBreakpoint]
      split <;> rfl
  | _ => rw [debugger_execute h rfl]

/-! ## Command lines -/

/-- The command that a line calls, if it can be read. -/
def command? (debugger : Debugger) (line : List Char) : Option Command :=
  match Text.words line with
  | [] => none
  | name :: arguments => (Command.parse debugger.context name arguments).toOption

/-- Whether a line calls a command by one of the given names, whatever its arguments are. -/
def calls (names : List (List Char)) (line : List Char) : Bool :=
  (Text.words line).head?.any names.contains

/-- The names of the commands that show the machine. -/
def inspectingNames : List (List Char) :=
  [['r'], ['l'], ['d'], ['p'], ['b'], ['u'], ['?'], ['h']]

/-- The names of the commands that set and remove breakpoints. -/
def breakpointNames : List (List Char) :=
  [['b'], ['u']]

/-- The names of the commands that run the machine up to a breakpoint. -/
def runNames : List (List Char) :=
  [['o'], ['c']]

variable {line : List Char}

theorem interpret_of_command?_eq_none (h : debugger.command? line = none) :
    (debugger.interpret line).2 = debugger := by
  unfold interpret
  cases hwords : Text.words line with
  | nil => rfl
  | cons name arguments =>
      cases hparse : Command.parse debugger.context name arguments with
      | error error => simp only [hparse]
      | ok command => simp [command?, hwords, hparse, Except.toOption] at h

theorem command?_eq_some_iff :
    debugger.command? line = some command ↔ ∃ name arguments, Text.words line = name :: arguments ∧
      Command.parse debugger.context name arguments = .ok command := by
  unfold command?
  cases Text.words line with
  | nil => simp
  | cons name arguments =>
      simp only [List.cons.injEq, and_assoc, exists_and_left, exists_eq_left']
      cases Command.parse debugger.context name arguments <;> simp [Except.toOption]

theorem interpret_of_command? (h : debugger.command? line = some command) :
    debugger.interpret line = debugger.execute command := by
  obtain ⟨name, arguments, hwords, hparse⟩ := command?_eq_some_iff.mp h
  simp only [interpret, hwords, hparse]

/-- Lines call the commands that they are read as: what the name of a line says about it is what can be
said about the command. -/
theorem calls_of_command? (h : debugger.command? line = some command) {names : List (List Char)}
    {p : Command → Bool}
    (hnames : ∀ command : Command, ∀ name ∈ command.names, names.contains name = p command) :
    calls names line = p command := by
  obtain ⟨name, arguments, hwords, hparse⟩ := command?_eq_some_iff.mp h
  rw [calls, hwords, List.head?_cons, Option.any_some]
  exact hnames command name (Command.mem_names_of_parse hparse)

theorem contains_inspectingNames (command : Command) :
    ∀ name ∈ command.names, inspectingNames.contains name = command.inspects := by
  cases command <;> simp [Command.names, Command.inspects, inspectingNames]

theorem contains_breakpointNames (command : Command) :
    ∀ name ∈ command.names, breakpointNames.contains name = command.setsBreakpoints := by
  cases command <;> simp [Command.names, Command.setsBreakpoints, breakpointNames]

theorem contains_runNames (command : Command) :
    ∀ name ∈ command.names, runNames.contains name = command.runs := by
  cases command <;> simp [Command.names, Command.runs, runNames]

/-- The addresses that an inspecting command line reads. A line that cannot be read itself reads none. -/
def lineReads (debugger : Debugger) (line : List Char) : List Word :=
  ((debugger.command? line).map debugger.reads).getD []

theorem debugger_interpret (h : calls inspectingNames line = true)
    (hkeeps : calls breakpointNames line = false) :
    (debugger.interpret line).2 = debugger.touchAll (debugger.lineReads line) := by
  cases hcommand : debugger.command? line with
  | none => rw [interpret_of_command?_eq_none hcommand, lineReads, hcommand]; rfl
  | some command =>
      rw [calls_of_command? hcommand contains_inspectingNames] at h
      rw [calls_of_command? hcommand contains_breakpointNames] at hkeeps
      rw [interpret_of_command? hcommand, debugger_execute h hkeeps, lineReads, hcommand]
      rfl

theorem machine_interpret (h : calls inspectingNames line = true) :
    (debugger.interpret line).2.machine =
      (debugger.touchAll (debugger.lineReads line)).machine := by
  cases hcommand : debugger.command? line with
  | none => rw [interpret_of_command?_eq_none hcommand, lineReads, hcommand]; rfl
  | some command =>
      rw [calls_of_command? hcommand contains_inspectingNames] at h
      rw [interpret_of_command? hcommand, machine_execute h, lineReads, hcommand]
      rfl

/-! ## Breakpoints -/

variable {machine : Machine}

/-- The breakpoints have a part in what happens to the machine only when it runs up to them. -/
theorem machine_execute_congr (h : command.runs = false) (first second : Breakpoints) :
    (execute command ⟨machine, first⟩).2.machine = (execute command ⟨machine, second⟩).2.machine := by
  cases hinspects : command.inspects with
  | true =>
      rw [machine_execute hinspects, machine_execute hinspects]
      cases command <;> rfl
  | false =>
      cases command with
      | step =>
          simp only [execute, step, withMachine]
          cases machine.step with
          | mk fault after => cases fault <;> rfl
      | assemble address instruction => rfl
      | enter address bytes => rfl
      | fill address size value => rfl
      | copy source destination size => rfl
      | _ => contradiction

theorem machine_interpret_congr (h : calls runNames line = false) (first second : Breakpoints) :
    (interpret line ⟨machine, first⟩).2.machine = (interpret line ⟨machine, second⟩).2.machine := by
  have hsame : command? ⟨machine, first⟩ line = command? ⟨machine, second⟩ line := rfl
  cases hcommand : command? ⟨machine, first⟩ line with
  | none =>
      rw [interpret_of_command?_eq_none hcommand, interpret_of_command?_eq_none (hsame ▸ hcommand)]
  | some command =>
      rw [calls_of_command? hcommand contains_runNames] at h
      rw [interpret_of_command? hcommand, interpret_of_command? (hsame ▸ hcommand)]
      exact machine_execute_congr h first second

end Debugger

end TinyComputer
