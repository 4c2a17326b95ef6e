import LogSearch.Number.Text
import LogSearch.Query.Tree
import LogSearch.Text.Search

/-!
# Canonical text of a query

Every tree has one canonical text. Parentheses stand exactly where the grammar would otherwise
group differently.

* `Query.text`: the canonical text of a query.
* `Expr.level`: how tightly an expression holds together; an operand that holds less tightly than
  its place asks for stands in parentheses.
-/

namespace LogSearch

/-- Texts with a comma and a blank between them. -/
def commaList : List String → String := Text.join ", "

/-- The escaped form of one character between double quotes. -/
def quoteChar (c : Char) : List Char :=
  if c = '"' then ['\\', '"']
  else if c = '\\' then ['\\', '\\']
  else if c = '\n' then ['\\', 'n']
  else if c = '\t' then ['\\', 't']
  else [c]

/-- A text between double quotes. -/
def quote (s : String) : String := String.ofList ('"' :: s.toList.flatMap quoteChar ++ ['"'])

/-- A text between backticks, or between double quotes if it holds a backtick. -/
def quotePattern (s : String) : String :=
  if s.toList.contains '\x60' then quote s else "`" ++ s ++ "`"

/-- The text of a pre-filter. -/
def PreFilter.text (f : PreFilter) : String := f.key ++ f.op.text ++ quotePattern f.value

/-- The text of a search literal. -/
def SearchLiteral.canonical : SearchLiteral → String
  | term s => s
  | phrase s => quote s

/-- Whether a search is a single literal. -/
def Search.isLiteral : Search → Bool
  | literal _ => true
  | _ => false

/-- A text, in parentheses if `wrapped`. -/
def parenthesize (wrapped : Bool) (text : String) : String :=
  if wrapped then "(" ++ text ++ ")" else text

/-- The text of a search. Both connectives bind everything to their right, so a left operand that
is no literal stands in parentheses. -/
def Search.text : Search → String
  | literal l => l.canonical
  | and l r => parenthesize (!l.isLiteral) l.text ++ " AND " ++ r.text
  | or l r => parenthesize (!l.isLiteral) l.text ++ " OR " ++ r.text

/-- The text of a constant. -/
def Literal.text : Literal → String
  | number x => Number.plainText x
  | string s => quote s
  | boolean b => if b then "true" else "false"
  | null => "null"

/-- How tightly an operator holds together. -/
def BinaryOp.level : BinaryOp → Nat
  | and | or => 0
  | equal | notEqual | greater | greaterEqual | less | lessEqual => 2
  | add | sub => 3
  | mul | div => 4

/-- The levels that the left and the right operand need to stand without parentheses. -/
def BinaryOp.operandLevels (op : BinaryOp) : Nat × Nat :=
  match op.level with
  | 0 => (1, 0)
  | 2 => (3, 3)
  | 3 => (3, 4)
  | _ => (4, 5)

/-- How tightly an expression holds together: logical operators at the bottom, then negation of a
condition, comparisons, sums, products, negation of a number, and single operands. -/
def Expr.level : Expr → Nat
  | binary op _ _ => op.level
  | not _ => 1
  | member _ _ => 2
  | negate _ => 5
  | literal _ | column _ | call _ _ => 6

mutual
/-- The text of an expression. -/
def Expr.text : Expr → String
  | .literal l => l.text
  | .column name => name
  | .not e => "!" ++ parenthesize (e.level < 1) e.text
  | .negate e => "-" ++ parenthesize (e.level < 5) e.text
  | .binary op l r =>
    parenthesize (l.level < op.operandLevels.1) l.text ++ " " ++ op.text ++ " "
      ++ parenthesize (r.level < op.operandLevels.2) r.text
  | .member e list =>
    parenthesize (e.level < 3) e.text ++ " in [" ++ commaList (list.map Literal.text) ++ "]"
  | .call f args => f.name ++ "(" ++ commaList (argumentTexts args) ++ ")"

/-- The texts of arguments. -/
def argumentTexts : List Expr → List String
  | [] => []
  | e :: rest => e.text :: argumentTexts rest
end

/-- The text ` as name`, if there is a name. -/
def newNameText : Option String → String
  | some name => " as " ++ name
  | none => ""

/-- The text of a column. -/
def TableColumn.text (c : TableColumn) : String := c.column ++ newNameText c.newName

/-- The text of an aggregation. -/
def AggregateCall.text (a : AggregateCall) : String :=
  a.function.name ++ "(" ++ a.column.getD "" ++ ")" ++ newNameText a.newName

/-- The text of a sort key. -/
def SortKey.text (k : SortKey) : String := k.column ++ " " ++ k.direction.text

/-- The text of aggregations and of the columns they are grouped by. -/
def aggregationsText (aggregations : List AggregateCall) (groupBy : List String) : String :=
  commaList (aggregations.map AggregateCall.text)
    ++ if groupBy.isEmpty then "" else " by " ++ commaList groupBy

/-- The text `name=value `, if there is a value. -/
def optionText (name : String) : Option String → String
  | some value => name ++ "=" ++ value ++ " "
  | none => ""

/-- The text of a stage after its name. -/
def Stage.body : Stage → String
  | .table columns => commaList (columns.map TableColumn.text)
  | .stats aggregations groupBy => aggregationsText aggregations groupBy
  | .regex field pattern => optionText "field" field ++ quotePattern pattern
  | .sort keys => commaList (keys.map SortKey.text)
  | .filter condition => condition.text
  | .timeChart span timeColumn maxGroups aggregations groupBy =>
    optionText "span" (span.map TimeSpan.text) ++ optionText "timeCol" timeColumn
      ++ optionText "maxGroups" (maxGroups.map toString) ++ aggregationsText aggregations groupBy
  | .eval target value => target ++ " = " ++ value.text

/-- The text of a stage. -/
def Stage.text (s : Stage) : String := s.name ++ " " ++ s.body

/-- The canonical text of a query. -/
def Query.text (q : Query) : String :=
  Text.join " " (q.preFilters.map PreFilter.text ++ q.search.toList.map Search.text
    ++ q.pipeline.map fun s => "| " ++ s.text)

end LogSearch
