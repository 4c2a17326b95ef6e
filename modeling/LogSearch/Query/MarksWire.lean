import LogSearch.Json.Decode
import LogSearch.Query.Marks

/-!
# Marks in JSON

* `HighlightKind.name`: the name of a class of highlights.
* `MarkerKind.toJson`, `MarkerKind.ofJson?`: what a marker offers, as JSON and back.
-/

namespace LogSearch.Query

open Json (object string)

/-- The name of a class of highlights. -/
def HighlightKind.name : HighlightKind → String
  | keyword => "keyword"
  | command => "command"
  | column => "column"
  | function => "function"
  | operator => "operator"
  | string => "string"
  | number => "number"
  | regex => "regex"
  | paramKey => "param_key"
  | paramValue => "param_value"
  | boolean => "boolean"

/-- All classes of highlights. -/
def HighlightKind.all : List HighlightKind :=
  [keyword, command, column, function, operator, string, number, regex, paramKey, paramValue,
    boolean]

/-- What a marker offers, as JSON. -/
def MarkerKind.toJson : MarkerKind → Json
  | commands => object [("kind", string "commands")]
  | params => object [("kind", string "params")]
  | paramValues key => object [("kind", string "param_values"), ("key", string key)]
  | columns => object [("kind", string "columns")]
  | aggregations => object [("kind", string "aggregation_functions")]
  | functions => object [("kind", string "functions")]
  | keywords words => object [("kind", string "keywords"), ("keywords", Json.ofTexts words)]

/-- What a marker offers, from JSON. -/
def MarkerKind.ofJson? (j : Json) : Option MarkerKind := do
  match ← Json.tagged? "kind" j with
  | ("commands", _) => return .commands
  | ("params", _) => return .params
  | ("param_values", b) =>
    let f ← Json.fields? ["key"] b
    return .paramValues (← f.required "key" Json.text?)
  | ("columns", _) => return .columns
  | ("aggregation_functions", _) => return .aggregations
  | ("functions", _) => return .functions
  | ("keywords", b) =>
    let f ← Json.fields? ["keywords"] b
    return .keywords (← f.required "keywords" (Json.list? Json.text?))
  | _ => none

end LogSearch.Query
