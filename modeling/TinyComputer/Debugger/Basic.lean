import TinyComputer.Debugger.Breakpoints
import TinyComputer.Debugger.Command
import TinyComputer.Debugger.Dump
import TinyComputer.Machine.Display

/-!
# The debugger

A debugger drives a machine by command lines and answers each of them with a text. Commands access
memory as a program does, so that looking at a device has the effects of reading it. A command line
that cannot be read leaves the machine and the breakpoints as they are.
-/

namespace TinyComputer

open Text

/-- A machine and the breakpoints at which its runs stop. -/
structure Debugger where
  machine : Machine
  breakpoints : Breakpoints
  deriving Repr

deriving noncomputable instance DecidableEq for Debugger

namespace Debugger

def ofMachine (machine : Machine) : Debugger :=
  ⟨machine, .empty⟩

abbrev Answer := Except CommandError (List Char)

/-- The most matches that a search reports. -/
abbrev maxMatches : Nat := 32

/-- The count of instructions in a listing. -/
abbrev listingRows : Nat := 16

def renderAddress (address : Word) : List Char :=
  ['0', 'x'] ++ hexFixed 8 address.toNat

/-- What there is to know about the commands. -/
def helpText : String :=
  "CPU:
  [r] registers
  [s] step through
  [o] step over
  [c] continue execution
  [b]/[u] set/unset breakpoint  ([address=PC])
  [l] disassembly               ([address=PC])

Memory:
  [a] assemble into memory      (address instruction)
  [d] dump memory block         (address [size=0x100])
  [e] enter memory data         (address byte...)
  [f] fill memory with data     (address size byte)
  [y] copy memory block         (origin destination size)
  [p] search RAM for pattern    (byte...)"

/-- Ask something of the machine that may change it. -/
def withMachine (f : Machine → α × Machine) : Debugger → α × Debugger
  | ⟨machine, breakpoints⟩ =>
      let (answer, machine) := f machine
      (answer, ⟨machine, breakpoints⟩)

/-- Ask something of the board of the machine that may change it. -/
def withBoard (f : Board → α × Board) : Debugger → α × Debugger :=
  withMachine (Machine.withBoard f)

def mapBoard (f : Board → Board) : Debugger → Debugger
  | ⟨machine, breakpoints⟩ => ⟨machine.mapBoard f, breakpoints⟩

/-- The instruction at the program counter, in words. -/
def currentInstruction (debugger : Debugger) : List Char × Debugger :=
  let pc := debugger.machine.pc
  let (row, debugger) := debugger.withMachine (·.disassemble pc)
  (":: PC ".toList ++ renderAddress pc ++ " -> ".toList ++ row.text, debugger)

/-- Some text and the instruction at the program counter. -/
def withCurrent (text : List Char) (debugger : Debugger) : Answer × Debugger :=
  let (current, debugger) := debugger.currentInstruction
  (.ok (text ++ current), debugger)

/-- The greeting of the debugger. -/
def welcome (debugger : Debugger) : List Char × Debugger :=
  let (current, debugger) := debugger.currentInstruction
  ("Welcome to the TinyVM debugger. Type '?' for help.\n\n".toList ++ current, debugger)

/-- Show the registers, the flags and the current instruction. -/
def showRegisters (debugger : Debugger) : Answer × Debugger :=
  let registers := debugger.machine.board.registers
  debugger.withCurrent
    (registers.table.render ++ ("\nFlags => " ++ registers.flags.text ++ "\n\n").toList)

def step (debugger : Debugger) : Answer × Debugger :=
  match debugger.withMachine Machine.step with
  | (some fault, debugger) => (.error (.fault fault), debugger)
  | (none, debugger) => debugger.withCurrent []

/-- Say how a run ended. -/
def report (outcome : RunOutcome) (debugger : Debugger) : Answer × Debugger :=
  match outcome with
  | .faulted fault => (.error (.fault fault), debugger)
  | .stopped pc =>
      if debugger.breakpoints.contains pc then
        debugger.withCurrent "breakpoint reached\n".toList
      else debugger.withCurrent []
  | .exhausted =>
      let limit := debugger.machine.board.config.runLimit
      debugger.withCurrent ("stopped after " ++ toString limit ++ " steps\n").toList

/-- Run until `stop` holds for the program counter, for as many steps as the machine is configured
for. -/
def run (stop : Word → Bool) (debugger : Debugger) : Answer × Debugger :=
  let limit := debugger.machine.board.config.runLimit
  let (outcome, debugger) := debugger.withMachine (·.runUntil stop limit)
  debugger.report outcome

def continueRun (debugger : Debugger) : Answer × Debugger :=
  let breakpoints := debugger.breakpoints
  debugger.run breakpoints.contains

/-- Execute one instruction. A call of a subroutine runs until the program counter is behind the
call, or at a breakpoint. -/
def stepOver (debugger : Debugger) : Answer × Debugger :=
  let pc := debugger.machine.pc
  -- Looking for a call fetches the instruction once before it is executed.
  match debugger.withBoard (·.fetch pc) with
  | (.ok instruction, debugger) =>
      if instruction.mnemonic = .jsr then
        let behind := pc + UInt32.ofNat instruction.length
        let breakpoints := debugger.breakpoints
        debugger.run fun pc => pc == behind || breakpoints.contains pc
      else debugger.step
  | (.error _, debugger) => debugger.step

def setBreakpoint (address : Word) (debugger : Debugger) : Answer × Debugger :=
  (.ok ("breakpoint set at ".toList ++ renderAddress address),
    { debugger with breakpoints := debugger.breakpoints.insert address })

def clearBreakpoint (address : Word) (debugger : Debugger) : Answer × Debugger :=
  if debugger.breakpoints.contains address then
    (.ok ("breakpoint removed from ".toList ++ renderAddress address),
      { debugger with breakpoints := debugger.breakpoints.erase address })
  else (.error (.noBreakpoint address), debugger)

/-- What stands before an address in a listing. -/
def marker (debugger : Debugger) (address : Word) : List Char :=
  match address == debugger.machine.pc, debugger.breakpoints.contains address with
  | true, true => "* --> ".toList
  | true, false => "--> ".toList
  | false, true => "* ".toList
  | false, false => []

/-- The rows of a listing from an address on: marker and address, bytes, and instruction. -/
def listingRowsFrom (debugger : Debugger) (address : Word) :
    (count : Nat) → List (List (List Char)) × Debugger
  | 0 => ([], debugger)
  | count + 1 =>
      let (row, debugger) := debugger.withMachine (·.disassemble address)
      -- The bytes of the row are read again to be shown.
      let (bytes, debugger) := debugger.withBoard (·.readBytes address row.length)
      let cells :=
        [debugger.marker address ++ hexFixed 8 address.toNat, Dump.hexBytes bytes, row.text]
      let (rows, debugger) :=
        debugger.listingRowsFrom (address + UInt32.ofNat row.length) count
      (cells :: rows, debugger)

def list (address : Word) (debugger : Debugger) : Answer × Debugger :=
  let (rows, debugger) := debugger.listingRowsFrom address listingRows
  let table : Table :=
    { alignments := [.right, .left, .left]
      title := some ["Address".toList, "Bytes".toList, "Instruction".toList]
      rows }
  (.ok table.render, debugger)

/-- Write an instruction into memory and show it as it can be read back. -/
def assemble (address : Word) (instruction : Instruction) (debugger : Debugger) :
    Answer × Debugger :=
  let bytes := instruction.encode
  let debugger := debugger.mapBoard (·.writeBytes address bytes)
  let (row, debugger) := debugger.withMachine (·.disassemble address)
  (.ok (renderAddress address ++ [':', ' '] ++ padRight 24 (Dump.hexBytes bytes) ++ row.text),
    debugger)

def dump (address size : Word) (debugger : Debugger) : Answer × Debugger :=
  let (bytes, debugger) := debugger.withBoard (·.readBytes address size.toNat)
  (.ok (Dump.render address bytes), debugger)

def enter (address : Word) (bytes : List Byte) (debugger : Debugger) : Answer × Debugger :=
  (.ok ((toString bytes.length ++ " byte(s) written at ").toList ++ renderAddress address),
    debugger.mapBoard (·.writeBytes address bytes))

/-- Write one byte to every address of a block. -/
def fill (address size : Word) (value : Byte) (debugger : Debugger) : Answer × Debugger :=
  (.ok (['0', 'x'] ++ hexShort size ++ " byte(s) filled at ".toList ++ renderAddress address),
    debugger.mapBoard (·.writeBytes address (List.replicate size.toNat value)))

/-- Copy a block. All of it is read before any of it is written, so that the blocks may overlap. -/
def copy (source destination size : Word) (debugger : Debugger) : Answer × Debugger :=
  let (bytes, debugger) := debugger.withBoard (·.readBytes source size.toNat)
  (.ok (['0', 'x'] ++ hexShort size ++ " byte(s) copied from ".toList ++ renderAddress source ++
      " to ".toList ++ renderAddress destination),
    debugger.mapBoard (·.writeBytes destination bytes))

/-- Show the first places of a sequence of bytes in RAM. -/
def search (pattern : List Byte) (debugger : Debugger) : Answer × Debugger :=
  let size := debugger.machine.board.config.ramSize.toNat
  let (bytes, debugger) := debugger.withBoard (·.readBytes 0 size)
  match Dump.occurrences pattern maxMatches 0 bytes with
  | [] => (.ok "pattern not found".toList, debugger)
  | found => (.ok (join ['\n'] (found.map renderAddress)), debugger)

def execute (command : Command) (debugger : Debugger) : Answer × Debugger :=
  match command with
  | .help => (.ok helpText.toList, debugger)
  | .registers => debugger.showRegisters
  | .step => debugger.step
  | .stepOver => debugger.stepOver
  | .continueRun => debugger.continueRun
  | .setBreakpoint address => debugger.setBreakpoint address
  | .clearBreakpoint address => debugger.clearBreakpoint address
  | .list address => debugger.list address
  | .assemble address instruction => debugger.assemble address instruction
  | .dump address size => debugger.dump address size
  | .enter address bytes => debugger.enter address bytes
  | .fill address size value => debugger.fill address size value
  | .copy source destination size => debugger.copy source destination size
  | .search pattern => debugger.search pattern

/-- What reading a command depends on. -/
def context (debugger : Debugger) : CommandContext where
  symbols := debugger.machine.symbols
  pc := debugger.machine.pc
  ramSize := debugger.machine.board.config.ramSize

/-- Read and execute a command line. A blank line does nothing. -/
def interpret (line : List Char) (debugger : Debugger) : Answer × Debugger :=
  match words line with
  | [] => (.ok [], debugger)
  | name :: arguments =>
      match Command.parse debugger.context name arguments with
      | .error error => (.error error, debugger)
      | .ok command => debugger.execute command

/-- Answer a command line with a text. -/
def respond (line : List Char) (debugger : Debugger) : List Char × Debugger :=
  match debugger.interpret line with
  | (.ok text, debugger) => (text, debugger)
  | (.error error, debugger) => (error.reply.toList, debugger)

end Debugger

end TinyComputer
