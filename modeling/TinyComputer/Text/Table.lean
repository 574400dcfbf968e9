import TinyComputer.Text.Padding
import TinyComputer.Text.Pieces

/-!
# Ruled tables

A table is a grid of cells under an optional title row. Every column is as wide as its longest cell,
title included, with one space on each side of a cell; columns are divided by a bar, a rule closes
the table, and another one separates the title. Each line ends in a line feed.
-/

namespace TinyComputer.Text

/-- The side of a column on which its cells are flush. -/
inductive Alignment where
  | left
  | right
  deriving DecidableEq, Repr

/-- A grid of cells with one alignment for each column. -/
structure Table where
  alignments : List Alignment
  title : Option (List (List Char)) := none
  rows : List (List (List Char))

namespace Table

/-- Every line of cells, the title first. -/
def allRows (table : Table) : List (List (List Char)) :=
  table.title.toList ++ table.rows

/-- The width of each column: the length of its longest cell. -/
def widths (table : Table) : List Nat :=
  table.allRows.foldl
    (fun widths row => List.zipWith (fun width cell => max width cell.length) widths row)
    (table.alignments.map fun _ => 0)

/-- One cell, padded to the width of its column and surrounded by spaces. -/
def renderCell (alignment : Alignment) (width : Nat) (cell : List Char) : List Char :=
  let padded :=
    match alignment with
    | .left => padRight width cell
    | .right => padLeft width cell
  ' ' :: padded ++ [' ']

/-- A line of the table: its pieces with a divider between columns and a space at both ends. -/
def renderLine (divider : Char) (pieces : List (List Char)) : List Char :=
  ' ' :: join [divider] pieces ++ [' ', '\n']

def renderRow (table : Table) (row : List (List Char)) : List Char :=
  renderLine '│' ((table.alignments.zip (table.widths.zip row)).map
    fun (alignment, width, cell) => renderCell alignment width cell)

/-- A horizontal rule that meets the column dividers in `crossing`. -/
def renderRule (table : Table) (crossing : Char) : List Char :=
  renderLine crossing (table.widths.map fun width => List.replicate (width + 2) '─')

def render (table : Table) : List Char :=
  let heading :=
    match table.title with
    | none => []
    | some title => table.renderRow title ++ table.renderRule '┼'
  heading ++ table.rows.flatMap table.renderRow ++ table.renderRule '┴'

end Table

end TinyComputer.Text
