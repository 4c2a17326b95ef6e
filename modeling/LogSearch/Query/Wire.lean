import LogSearch.Json.Decode
import LogSearch.Query.Tree

/-!
# Queries in JSON

* `Query.toJson`, `Query.ofJson?`: a query as JSON and back; likewise for the parts of a query.

Choices without parts are names in lower case with underscores, except for functions, which keep
their own names.
-/

namespace LogSearch

open Json (object string)

/-! ## Head -/

/-- The name of a comparison of pre-filters. -/
def FilterOp.wireName : FilterOp → String
  | equal => "eq"
  | notEqual => "not_eq"

/-- A pre-filter as JSON. -/
def PreFilter.toJson (f : PreFilter) : Json :=
  object [("key", string f.key), ("op", string f.op.wireName), ("value", string f.value)]

/-- A pre-filter from JSON. -/
def PreFilter.ofJson? (j : Json) : Option PreFilter := do
  let f ← Json.fields? ["key", "op", "value"] j
  return {
    key := ← f.required "key" Json.text?
    op := ← f.required "op" (Json.unitChoice? FilterOp.wireName [.equal, .notEqual])
    value := ← f.required "value" Json.text? }

/-- A search literal as JSON. -/
def SearchLiteral.toJson : SearchLiteral → Json
  | term s => object [("term", string s)]
  | phrase s => object [("phrase", string s)]

/-- A search literal from JSON. -/
def SearchLiteral.ofJson? (j : Json) : Option SearchLiteral := do
  match ← Json.choice? j with
  | ("term", s) => return .term (← s.text?)
  | ("phrase", s) => return .phrase (← s.text?)
  | _ => none

/-- A search as JSON. -/
def Search.toJson : Search → Json
  | literal l => object [("literal", l.toJson)]
  | and l r => object [("and", .array [l.toJson, r.toJson])]
  | or l r => object [("or", .array [l.toJson, r.toJson])]

/-- A search from JSON. -/
def Search.ofJson? : Json → Option Search
  | .object [("literal", l)] => (SearchLiteral.ofJson? l).map .literal
  | .object [("and", .array [l, r])] => do return .and (← ofJson? l) (← ofJson? r)
  | .object [("or", .array [l, r])] => do return .or (← ofJson? l) (← ofJson? r)
  | _ => none

/-! ## Expressions -/

/-- A constant as JSON. -/
def Literal.toJson : Literal → Json
  | number x => object [("type", .string "number"), ("value", .real x)]
  | string s => object [("type", .string "string"), ("value", .string s)]
  | boolean b => object [("type", .string "boolean"), ("value", .bool b)]
  | null => object [("type", .string "null")]

/-- A constant from JSON. -/
def Literal.ofJson? (j : Json) : Option Literal := do
  match ← Json.adjacent? "type" "value" j with
  | ("number", some v) => return .number (← v.float?)
  | ("string", some v) => return .string (← v.text?)
  | ("boolean", some v) => return .boolean (← v.bool?)
  | ("null", v) => (Json.noContent? v).map fun _ => .null
  | _ => none

/-- The name of an operator. -/
def BinaryOp.wireName : BinaryOp → String
  | add => "add"
  | sub => "sub"
  | mul => "mul"
  | div => "div"
  | equal => "eq"
  | notEqual => "not_eq"
  | greater => "gt"
  | greaterEqual => "gt_eq"
  | less => "lt"
  | lessEqual => "lt_eq"
  | and => "and"
  | or => "or"

/-- All operators. -/
def BinaryOp.all : List BinaryOp :=
  [add, sub, mul, div, equal, notEqual, greater, greaterEqual, less, lessEqual, and, or]

mutual
/-- An expression as JSON. -/
def Expr.toJson : Expr → Json
  | .literal l => object [("literal", l.toJson)]
  | .column name => object [("column", string name)]
  | .not e => object [("not", e.toJson)]
  | .negate e => object [("neg", e.toJson)]
  | .binary op l r =>
    object [("binary", object [("op", string op.wireName), ("left", l.toJson), ("right", r.toJson)])]
  | .member e list =>
    object [("in", object [("expr", e.toJson), ("list", Json.ofList Literal.toJson list)])]
  | .call f args =>
    object [("call", object [("func", string f.name), ("args", .array (argumentsToJson args))])]

/-- Arguments as JSON. -/
def argumentsToJson : List Expr → List Json
  | [] => []
  | e :: rest => e.toJson :: argumentsToJson rest
end

/-- An expression from JSON that nests at most as deep as given. -/
def Expr.ofJsonWithin? : Nat → Json → Option Expr
  | 0, _ => none
  | fuel + 1, j => do
    match ← Json.choice? j with
    | ("literal", l) => return .literal (← Literal.ofJson? l)
    | ("column", name) => return .column (← name.text?)
    | ("not", e) => return .not (← ofJsonWithin? fuel e)
    | ("neg", e) => return .negate (← ofJsonWithin? fuel e)
    | ("binary", b) =>
      let f ← Json.fields? ["op", "left", "right"] b
      let op ← f.required "op" (Json.unitChoice? BinaryOp.wireName BinaryOp.all)
      return .binary op (← f.required "left" (ofJsonWithin? fuel))
        (← f.required "right" (ofJsonWithin? fuel))
    | ("in", b) =>
      let f ← Json.fields? ["expr", "list"] b
      return .member (← f.required "expr" (ofJsonWithin? fuel))
        (← f.required "list" (Json.list? Literal.ofJson?))
    | ("call", b) =>
      let f ← Json.fields? ["func", "args"] b
      let function ← f.required "func" (Json.unitChoice? Function.name Function.all)
      return .call function (← f.required "args" (Json.list? (ofJsonWithin? fuel)))
    | _ => none

/-- An expression from JSON. -/
def Expr.ofJson? (j : Json) : Option Expr := ofJsonWithin? (j.depth + 1) j

/-! ## Stages -/

/-- A column of a table as JSON. -/
def TableColumn.toJson (c : TableColumn) : Json :=
  object [("column", string c.column), ("alias", Json.ofOption string c.newName)]

/-- A column of a table from JSON. -/
def TableColumn.ofJson? (j : Json) : Option TableColumn := do
  let f ← Json.fields? ["column", "alias"] j
  return ⟨← f.required "column" Json.text?, ← f.optional "alias" Json.text?⟩

/-- An aggregation as JSON. -/
def AggregateCall.toJson (a : AggregateCall) : Json :=
  object [("func", string a.function.name), ("column", Json.ofOption string a.column),
    ("alias", Json.ofOption string a.newName)]

/-- An aggregation from JSON. -/
def AggregateCall.ofJson? (j : Json) : Option AggregateCall := do
  let f ← Json.fields? ["func", "column", "alias"] j
  return ⟨← f.required "func" (Json.unitChoice? Aggregate.name Aggregate.all),
    ← f.optional "column" Json.text?, ← f.optional "alias" Json.text?⟩

/-- A sort key as JSON. -/
def SortKey.toJson (k : SortKey) : Json :=
  object [("column", string k.column), ("direction", string k.direction.text)]

/-- A sort key from JSON. -/
def SortKey.ofJson? (j : Json) : Option SortKey := do
  let f ← Json.fields? ["column", "direction"] j
  return ⟨← f.required "column" Json.text?,
    ← f.required "direction" (Json.unitChoice? Direction.text [.asc, .desc])⟩

/-- The name of a unit of time. -/
def SpanUnit.wireName : SpanUnit → String
  | seconds => "seconds"
  | minutes => "minutes"
  | hours => "hours"
  | days => "days"

/-- A duration as JSON. -/
def TimeSpan.toJson (s : TimeSpan) : Json :=
  object [("amount", .integer s.amount.toNat), ("unit", string s.unit.wireName)]

/-- A duration from JSON. -/
def TimeSpan.ofJson? (j : Json) : Option TimeSpan := do
  let f ← Json.fields? ["amount", "unit"] j
  return ⟨(← f.required "amount" Json.count?).toUInt64,
    ← f.required "unit" (Json.unitChoice? SpanUnit.wireName [.seconds, .minutes, .hours, .days])⟩

/-- The tag of a stage. -/
def Stage.wireName : Stage → String
  | timeChart .. => "time_chart"
  | s => s.name

/-- The members of a stage after its tag. -/
def Stage.members : Stage → List (String × Json)
  | table columns => [("columns", Json.ofList TableColumn.toJson columns)]
  | stats aggregations groupBy =>
    [("aggregations", Json.ofList AggregateCall.toJson aggregations), ("by", Json.ofTexts groupBy)]
  | regex field pattern => [("field", Json.ofOption string field), ("pattern", string pattern)]
  | sort keys => [("keys", Json.ofList SortKey.toJson keys)]
  | filter condition => [("expr", condition.toJson)]
  | timeChart span timeColumn maxGroups aggregations groupBy =>
    [("span", Json.ofOption TimeSpan.toJson span), ("time_col", Json.ofOption string timeColumn),
      ("max_groups", Json.ofOption (fun n => .integer (n : Nat)) maxGroups),
      ("aggregations", Json.ofList AggregateCall.toJson aggregations),
      ("by", Json.ofTexts groupBy)]
  | eval target value => [("target", string target), ("expr", value.toJson)]

/-- A stage as JSON. -/
def Stage.toJson (s : Stage) : Json := object (("command", string s.wireName) :: s.members)

/-- A stage from JSON. -/
def Stage.ofJson? (j : Json) : Option Stage := do
  match ← Json.tagged? "command" j with
  | ("table", b) =>
    let f ← Json.fields? ["columns"] b
    return .table (← f.required "columns" (Json.list? TableColumn.ofJson?))
  | ("stats", b) =>
    let f ← Json.fields? ["aggregations", "by"] b
    return .stats (← f.required "aggregations" (Json.list? AggregateCall.ofJson?))
      (← f.required "by" (Json.list? Json.text?))
  | ("regex", b) =>
    let f ← Json.fields? ["field", "pattern"] b
    return .regex (← f.optional "field" Json.text?) (← f.required "pattern" Json.text?)
  | ("sort", b) =>
    let f ← Json.fields? ["keys"] b
    return .sort (← f.required "keys" (Json.list? SortKey.ofJson?))
  | ("where", b) =>
    let f ← Json.fields? ["expr"] b
    return .filter (← f.required "expr" Expr.ofJson?)
  | ("time_chart", b) =>
    let f ← Json.fields? ["span", "time_col", "max_groups", "aggregations", "by"] b
    return .timeChart (← f.optional "span" TimeSpan.ofJson?) (← f.optional "time_col" Json.text?)
      (← f.optional "max_groups" Json.count?)
      (← f.required "aggregations" (Json.list? AggregateCall.ofJson?))
      (← f.required "by" (Json.list? Json.text?))
  | ("eval", b) =>
    let f ← Json.fields? ["target", "expr"] b
    return .eval (← f.required "target" Json.text?) (← f.required "expr" Expr.ofJson?)
  | _ => none

/-- A query as JSON. -/
def Query.toJson (q : Query) : Json :=
  object [("pre_filters", Json.ofList PreFilter.toJson q.preFilters),
    ("search", Json.ofOption Search.toJson q.search),
    ("pipeline", Json.ofList Stage.toJson q.pipeline)]

/-- A query from JSON. -/
def Query.ofJson? (j : Json) : Option Query := do
  let f ← Json.fields? ["pre_filters", "search", "pipeline"] j
  return ⟨← f.required "pre_filters" (Json.list? PreFilter.ofJson?),
    ← f.optional "search" Search.ofJson?, ← f.required "pipeline" (Json.list? Stage.ofJson?)⟩

end LogSearch
