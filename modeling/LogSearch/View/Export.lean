import LogSearch.Results

/-!
# Tables as text

* `Table.toCsv`: comma-separated values; a cell with a comma, a quote or the end of a line in it is
  quoted, and each line ends with carriage return and line feed.
* `Table.toJsonText`: an array of objects.
* `Table.render`: the table in a format.
* `ExportFormat.ofText?`: the format that a word names.
-/

namespace LogSearch

/-- A format of tables. -/
inductive ExportFormat
  | csv
  | json
deriving DecidableEq, Repr

namespace ExportFormat

/-- The name of a format. -/
def name : ExportFormat → String
  | csv => "csv"
  | json => "json"

/-- A word with its letters made small. -/
def fold (word : String) : String := word.map Char.toLower

/-- The format that a word names, whatever the case. -/
def ofText? (word : String) : Option ExportFormat := [csv, json].find? fun f => f.name = fold word

/-- The message for a word that names no format. -/
def unknownMessage (word : String) : String := "unknown export format '" ++ fold word ++ "'"

end ExportFormat

namespace Csv

/-- Whether a character makes quotes necessary. -/
def needsQuotes (c : Char) : Bool := c = ',' || c = '"' || c = '\n' || c = '\r'

/-- Quotes are written twice. -/
def doubleQuotes (cs : List Char) : List Char := cs.flatMap fun c => if c = '"' then [c, c] else [c]

/-- A cell. -/
def cell (text : String) : String :=
  if text.toList.any needsQuotes then String.ofList ('"' :: doubleQuotes text.toList ++ ['"'])
  else text

/-- A line. -/
def line (cells : List String) : String := Text.join "," (cells.map cell) ++ "\r\n"

end Csv

namespace Table

/-- The texts of a row in the order of the columns. -/
def cells (t : Table) (r : Record) : List String := t.columns.map r.display

/-- The table as comma-separated values with a line of column names. -/
def toCsv (t : Table) : String :=
  String.join (Csv.line t.columns :: t.rows.map fun r => Csv.line (t.cells r))

/-- A row as an object; what the row does not have is null. -/
def rowJson (t : Table) (r : Record) : Json :=
  .object (Dict.ofList (t.columns.map fun c => (c, (r.getD c).toPlainJson)))

/-- The table as JSON. -/
def toJsonText (t : Table) : String := (Json.array (t.rows.map t.rowJson)).pretty

/-- The table in a format. -/
def render (t : Table) : ExportFormat → String
  | .csv => t.toCsv
  | .json => t.toJsonText

end Table

end LogSearch
