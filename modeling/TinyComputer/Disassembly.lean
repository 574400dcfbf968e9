import TinyComputer.Instruction.Printer
import TinyComputer.Processor.Fetch
import TinyComputer.Symbols

/-!
# Disassembly

Memory is shown as assembly text, one row for each instruction. Addresses and 32-bit immediates that
have a symbol are shown by its name. Bytes that are no instruction become a row of one byte of data,
so that a listing always advances.
-/

namespace TinyComputer

open Text

namespace Symbols

/-- An operand in assembly text, with symbols for addresses and 32-bit values. -/
def renderOperand (symbols : Symbols) (operand : Operand) : List Char :=
  match operand with
  | .immediate value .w32 => (symbols.name? value).getD operand.render
  | .indirectImmediate address =>
      match symbols.name? address with
      | some name => ['['] ++ name ++ [']']
      | none => operand.render
  | _ => operand.render

/-- An instruction in assembly text, with symbols for addresses and 32-bit values. -/
def render (symbols : Symbols) (instruction : Instruction) : List Char :=
  instruction.renderWith symbols.renderOperand

end Symbols

/-- A row of a disassembly: its text, and the count of bytes that it shows. -/
structure DisassemblyRow where
  text : List Char
  length : Nat
  deriving DecidableEq, Repr

namespace DisassemblyRow

/-- The row of a byte that starts no instruction. -/
def data (byte : Byte) : DisassemblyRow :=
  ⟨padRight 8 "data".toList ++ ['0', 'x'] ++ hexFixed 2 byte.toNat, 1⟩

end DisassemblyRow

namespace Board

/-- Disassemble what is at an address. A byte that starts no instruction is read once more to be
shown. -/
def disassemble (board : Board) (symbols : Symbols) (address : Word) : DisassemblyRow × Board :=
  match board.fetch address with
  | (.ok instruction, board) => (⟨symbols.render instruction, instruction.length⟩, board)
  | (.error _, board) =>
      let (byte, board) := board.read address
      (.data byte, board)

/-- Disassemble consecutive rows from an address on, each with its address. -/
def disassembleRows (board : Board) (symbols : Symbols) (address : Word) :
    (count : Nat) → List (Word × DisassemblyRow) × Board
  | 0 => ([], board)
  | count + 1 =>
      let (row, board) := board.disassemble symbols address
      let (rows, board) :=
        board.disassembleRows symbols (address + UInt32.ofNat row.length) count
      ((address, row) :: rows, board)

end Board

end TinyComputer
