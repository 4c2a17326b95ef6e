import LogSearch.Text.Blank
import LogSearch.Text.WidthTable

/-!
# The room that a text takes

* `charWidth`, `width`: columns of a terminal.
* `padRight`, `padLeft`: a text with blanks, up to a number of characters.
* `fillRight`: a text with blanks, up to a number of columns.
-/

namespace LogSearch.Text

/-- How many columns of a terminal a character takes. -/
def charWidth (c : Char) : Nat :=
  if inRanges zeroWidthRanges c.toNat then 0 else if inRanges wideRanges c.toNat then 2 else 1

/-- How many columns of a terminal a line takes. -/
def width (s : String) : Nat := s.toList.foldl (fun n c => n + charWidth c) 0

/-- So many blanks. -/
def blanks (n : Nat) : String := String.ofList (List.replicate n ' ')

/-- A text of at least `n` characters, with blanks at its end. -/
def padRight (n : Nat) (s : String) : String := s ++ blanks (n - s.length)

/-- A text of at least `n` characters, with blanks at its start. -/
def padLeft (n : Nat) (s : String) : String := blanks (n - s.length) ++ s

/-- A text of at least `n` columns, with blanks at its end. -/
def fillRight (n : Nat) (s : String) : String := s ++ blanks (n - width s)

end LogSearch.Text
