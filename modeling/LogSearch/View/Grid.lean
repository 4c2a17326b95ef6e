import LogSearch.Text.Search
import LogSearch.Text.Width

/-!
# Grids

A grid is a table of texts drawn with lines: one around it and one under its header.

* `Grid`: a header and rows.
* `Grid.widths`: each column is as wide as its widest line.
* `Grid.render`: the drawing.
-/

namespace LogSearch

/-- A header and rows of cells; a cell may have several lines. -/
structure Grid where
  header : List String
  rows : List (List String)
deriving DecidableEq, Repr

namespace Grid

/-- The lines of a cell. -/
def cellLines (cell : String) : List String :=
  (Text.splitOn '\n' cell.toList).map String.ofList

/-- How wide a cell is. -/
def cellWidth (cell : String) : Nat := ((cellLines cell).map Text.width).foldl max 0

/-- How wide the columns are. -/
def widths (g : Grid) : List Nat :=
  g.rows.foldl (fun ws row => List.zipWith max ws (row.map cellWidth)) (g.header.map cellWidth)

/-- A horizontal line. -/
def rule (left middle right : String) (widths : List Nat) : String :=
  let parts := widths.map fun w => String.ofList (List.replicate (w + 2) '─')
  left ++ Text.join middle parts ++ right

/-- The lines of a row; all cells start at its top. -/
def rowLines (widths : List Nat) (row : List String) : List String :=
  let cells := row.map cellLines
  let height := (cells.map List.length).foldl max 0
  (List.range height).map fun i =>
    let parts := List.zipWith
      (fun w lines => " " ++ Text.fillRight w (lines[i]?.getD "") ++ " ") widths cells
    "│" ++ Text.join "│" parts ++ "│"

/-- The line under the header, which also closes a grid without rows; then the rows and the line that
closes them. -/
def body (g : Grid) : List String :=
  let separator := rule "├" "┼" "┤" g.widths
  if g.rows.isEmpty then [separator]
  else separator :: g.rows.flatMap (rowLines g.widths) ++ [rule "╰" "┴" "╯" g.widths]

/-- The drawing; nothing if there are no columns. -/
def render (g : Grid) : String :=
  if g.header.isEmpty then ""
  else Text.join "\n" (rule "╭" "┬" "╮" g.widths :: rowLines g.widths g.header ++ g.body)

end Grid

end LogSearch
