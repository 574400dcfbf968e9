import TinyComputer.Machine.Basic
import TinyComputer.Text.Padding
import TinyComputer.Text.Table

/-!
# Showing a machine

The registers are shown in four columns of four, down the first column before the second, and the
flags on a line of their own.
-/

namespace TinyComputer

open Text

namespace RegisterFile

/-- A register with its name and contents. -/
def cell (registers : RegisterFile) (r : Register) : List Char :=
  padLeft 2 r.name.toList ++ [':', ' '] ++ hexFixed 8 (registers.read r).toNat

/-- The registers in four columns. -/
def table (registers : RegisterFile) : Table where
  alignments := List.replicate 4 .left
  rows := (List.finRange 4).map fun row =>
    (List.finRange 4).map fun column =>
      registers.cell (.ofIndex ⟨column.val * 4 + row.val, by omega⟩)

end RegisterFile

namespace Machine

/-- The registers and flags of a machine as text. -/
def display (machine : Machine) : List Char :=
  machine.board.registers.table.render ++ machine.board.flags.text.toList

end Machine

end TinyComputer
