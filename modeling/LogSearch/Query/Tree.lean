import LogSearch.Number.Read
import LogSearch.Text.Blank

/-!
# Query trees

A query is a head, forwarded to the data sources, and a pipeline of stages. Trees carry no
positions, so two queries that differ in blanks and comments only are equal.

* `Query`: pre-filters, an optional search and the stages.
* `Search.holds`: a search decided by a test of its literals.
* `Stage`, `Expr`: the stages and the expressions in them.
* `TimeSpan.ofText?`, `TimeSpan.millis`: durations such as `5m`.
-/

namespace LogSearch

/-! ## Head -/

/-- How a pre-filter compares. -/
inductive FilterOp
  | equal
  | notEqual
deriving DecidableEq, Repr

/-- The spelling of a comparison. -/
def FilterOp.text : FilterOp → String
  | equal => "="
  | notEqual => "!="

/-- `key=value` or `key!=value` at the head of a query. -/
structure PreFilter where
  key : String
  op : FilterOp
  value : String
deriving DecidableEq, Repr

/-- Whether a candidate value passes the filter. -/
def PreFilter.accepts (f : PreFilter) (candidate : String) : Bool :=
  match f.op with
  | .equal => candidate = f.value
  | .notEqual => candidate ≠ f.value

/-- What a search looks for. -/
inductive SearchLiteral
  | term (text : String)
  | phrase (text : String)
deriving DecidableEq, Repr

/-- The text that is looked for. -/
def SearchLiteral.text : SearchLiteral → String
  | term s => s
  | phrase s => s

/-- A free-text search. -/
inductive Search
  | literal (literal : SearchLiteral)
  | and (left right : Search)
  | or (left right : Search)
deriving DecidableEq, Repr

/-- The search decided by a test of its literals. -/
def Search.holds (test : SearchLiteral → Bool) : Search → Bool
  | literal l => test l
  | and l r => l.holds test && r.holds test
  | or l r => l.holds test || r.holds test

/-! ## Expressions -/

/-- A constant of an expression. -/
inductive Literal
  | number (value : Float)
  | string (value : String)
  | boolean (value : Bool)
  | null
deriving BEq

/-- An operator between two operands. -/
inductive BinaryOp
  | add
  | sub
  | mul
  | div
  | equal
  | notEqual
  | greater
  | greaterEqual
  | less
  | lessEqual
  | and
  | or
deriving DecidableEq, Repr

/-- The spelling of an operator. -/
def BinaryOp.text : BinaryOp → String
  | add => "+"
  | sub => "-"
  | mul => "*"
  | div => "/"
  | equal => "=="
  | notEqual => "!="
  | greater => ">"
  | greaterEqual => ">="
  | less => "<"
  | lessEqual => "<="
  | and => "&&"
  | or => "||"

/-- A function of expressions. -/
inductive Function
  | contains
  | startsWith
  | endsWith
  | matchesPattern
  | isNull
  | isNotNull
  | lower
  | upper
  | length
  | abs
  | round
  | floor
  | ceil
  | toNumber
  | toText
  | choose
  | case
  | coalesce
deriving DecidableEq, Repr

namespace Function

/-- All functions, in the order in which they are offered. -/
def all : List Function :=
  [contains, startsWith, endsWith, matchesPattern, isNull, isNotNull, lower, upper, length, abs,
    round, floor, ceil, toNumber, toText, choose, case, coalesce]

/-- The name of a function. -/
def name : Function → String
  | contains => "contains"
  | startsWith => "startsWith"
  | endsWith => "endsWith"
  | matchesPattern => "match"
  | isNull => "isNull"
  | isNotNull => "isNotNull"
  | lower => "lower"
  | upper => "upper"
  | length => "length"
  | abs => "abs"
  | round => "round"
  | floor => "floor"
  | ceil => "ceil"
  | toNumber => "toNumber"
  | toText => "toString"
  | choose => "if"
  | case => "case"
  | coalesce => "coalesce"

/-- The function that a word names. -/
def ofName? (word : String) : Option Function := all.find? fun f => f.name = word

/-- Whether the function decides something and returns a boolean. -/
def isPredicate : Function → Bool
  | contains | startsWith | endsWith | matchesPattern | isNull | isNotNull => true
  | _ => false

/-- The least and the greatest number of arguments; no greatest means any number. -/
def arity : Function → Nat × Option Nat
  | contains | startsWith | endsWith | matchesPattern => (2, some 2)
  | round => (1, some 2)
  | choose => (3, some 3)
  | case => (2, none)
  | coalesce => (1, none)
  | _ => (1, some 1)

/-- Whether the function takes `n` arguments. -/
def takes (f : Function) (n : Nat) : Bool :=
  f.arity.1 ≤ n && f.arity.2.all fun most => n ≤ most

end Function

/-- An expression of `where` and `eval`. -/
inductive Expr
  | literal (literal : Literal)
  | column (name : String)
  | not (operand : Expr)
  | negate (operand : Expr)
  | binary (op : BinaryOp) (left right : Expr)
  | member (operand : Expr) (list : List Literal)
  | call (function : Function) (arguments : List Expr)
deriving BEq

/-! ## Stages -/

/-- A column of a `table` stage, under its own name or another. -/
structure TableColumn where
  column : String
  newName : Option String
deriving DecidableEq, Repr

/-- The name under which the column is shown. -/
def TableColumn.outputName (c : TableColumn) : String := c.newName.getD c.column

/-- How a group of values becomes one. -/
inductive Aggregate
  | first
  | last
  | count
  | sum
  | avg
  | min
  | max
deriving DecidableEq, Repr

namespace Aggregate

/-- All aggregations, in the order in which they are offered. -/
def all : List Aggregate := [first, last, count, sum, avg, min, max]

/-- The name of an aggregation. -/
def name : Aggregate → String
  | first => "first"
  | last => "last"
  | count => "count"
  | sum => "sum"
  | avg => "avg"
  | min => "min"
  | max => "max"

/-- The aggregation that a word names. -/
def ofName? (word : String) : Option Aggregate := all.find? fun a => a.name = word

end Aggregate

/-- `function(column) as name`. -/
structure AggregateCall where
  function : Aggregate
  column : Option String
  newName : Option String
deriving DecidableEq, Repr

/-- The name of the result: the new name, else `function(column)`, else `function`. -/
def AggregateCall.outputName (a : AggregateCall) : String :=
  match a.newName, a.column with
  | some name, _ => name
  | none, some column => a.function.name ++ "(" ++ column ++ ")"
  | none, none => a.function.name

/-- The direction of a sort key. -/
inductive Direction
  | asc
  | desc
deriving DecidableEq, Repr

/-- The spelling of a direction. -/
def Direction.text : Direction → String
  | asc => "asc"
  | desc => "desc"

/-- A key of a `sort` stage. -/
structure SortKey where
  column : String
  direction : Direction
deriving DecidableEq, Repr

/-- A unit of time. -/
inductive SpanUnit
  | seconds
  | minutes
  | hours
  | days
deriving DecidableEq, Repr

namespace SpanUnit

/-- The letter that stands for a unit. -/
def letter : SpanUnit → Char
  | seconds => 's'
  | minutes => 'm'
  | hours => 'h'
  | days => 'd'

/-- The unit that a letter stands for. -/
def ofLetter? (c : Char) : Option SpanUnit :=
  [seconds, minutes, hours, days].find? fun u => u.letter = c

/-- Milliseconds of a unit. -/
def millis : SpanUnit → Int
  | seconds => 1000
  | minutes => 60000
  | hours => 3600000
  | days => 86400000

end SpanUnit

/-- A duration: an amount of a unit. -/
structure TimeSpan where
  amount : UInt64
  unit : SpanUnit
deriving DecidableEq, Repr

namespace TimeSpan

/-- The milliseconds of a duration, held within sixty-four bits; the amount counts as a signed word. -/
def millis (s : TimeSpan) : Int := Number.clamp64 (s.amount.toInt64.toInt * s.unit.millis)

/-- Reads an amount of at least one and the letter of a unit. -/
def ofText? (text : String) : Option TimeSpan :=
  let cs := Text.trim text.toList
  let digits := cs.dropLast
  match cs.getLast?.bind SpanUnit.ofLetter? with
  | none => none
  | some unit =>
    let amount := Number.ofDigits digits
    if digits.isEmpty || !digits.all Number.isDigit || amount = 0 || Number.countMax < amount then
      none
    else some ⟨amount.toUInt64, unit⟩

/-- The text of a duration. -/
def text (s : TimeSpan) : String := toString s.amount.toNat ++ String.singleton s.unit.letter

/-- The message for a text that is no duration. -/
def invalidMessage (text : String) : String :=
  "invalid duration '" ++ Text.trimText text ++ "': expected <N>s|m|h|d"

end TimeSpan

/-- A stage of the pipeline. -/
inductive Stage
  | table (columns : List TableColumn)
  | stats (aggregations : List AggregateCall) (groupBy : List String)
  | regex (field : Option String) (pattern : String)
  | sort (keys : List SortKey)
  | filter (condition : Expr)
  | timeChart (span : Option TimeSpan) (timeColumn : Option String) (maxGroups : Option Nat)
      (aggregations : List AggregateCall) (groupBy : List String)
  | eval (target : String) (value : Expr)
deriving BEq

/-- The name of a stage. -/
def Stage.name : Stage → String
  | table .. => "table"
  | stats .. => "stats"
  | regex .. => "regex"
  | sort .. => "sort"
  | filter .. => "where"
  | timeChart .. => "timechart"
  | eval .. => "eval"

/-- A query: its head and its stages. -/
structure Query where
  preFilters : List PreFilter
  search : Option Search
  pipeline : List Stage
deriving BEq

/-- The query that selects everything. -/
def Query.empty : Query := ⟨[], none, []⟩

end LogSearch
