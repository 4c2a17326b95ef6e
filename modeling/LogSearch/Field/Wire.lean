import LogSearch.Json.Decode
import LogSearch.Record

/-!
# Fields and records in JSON with their types

* `Field.toJson`, `Field.ofJson?`: a field with its type and errors; no errors are left out.
* `Record.toJson`, `Record.ofJson?`: a record.
-/

namespace LogSearch

namespace Field

/-- A value with its type. -/
def typed (type : String) (value : Json) : List (String × Json) :=
  [("type", .string type), ("value", value)]

mutual
/-- A field with its type and errors. -/
def toJson : Field → Json
  | mk v errors =>
    .object (("value", .object (valueMembers v))
      :: if errors.isEmpty then [] else [("errors", Json.ofTexts errors)])

/-- The members of a value. -/
def valueMembers : FieldValue → List (String × Json)
  | .null => [("type", .string "null")]
  | .number x => typed "number" (.ofDouble x)
  | .string s => typed "string" (.string s)
  | .date ms => typed "date" (.integer ms)
  | .boolean b => typed "boolean" (.bool b)
  | .array items => typed "array" (.array (itemsToJson items))
  | .object entries => typed "object" (.object (entriesToJson entries))

/-- Items with their types. -/
def itemsToJson : List Field → List Json
  | [] => []
  | f :: rest => toJson f :: itemsToJson rest

/-- Entries with their types. -/
def entriesToJson : List (String × Field) → List (String × Json)
  | [] => []
  | (key, f) :: rest => (key, toJson f) :: entriesToJson rest
end

mutual
/-- A field that nests at most as deep as given. -/
def ofJsonWithin? : Nat → Json → Option Field
  | 0, _ => none
  | fuel + 1, j => do
    let f ← Json.fields? ["value", "errors"] j
    return mk (← f.required "value" (valueOfJson? fuel))
      (← f.defaulted "errors" (Json.list? Json.text?) [])

/-- A value that nests at most as deep as given. -/
def valueOfJson? : Nat → Json → Option FieldValue
  | 0, _ => none
  | fuel + 1, j => do
    match ← Json.adjacent? "type" "value" j with
    | ("null", v) => (Json.noContent? v).map fun _ => .null
    | ("number", some v) => return .number (← v.double?)
    | ("string", some v) => return .string (← v.text?)
    | ("date", some v) => return .date (← v.int64?)
    | ("boolean", some v) => return .boolean (← v.bool?)
    | ("array", some v) => return .array (← Json.list? (ofJsonWithin? fuel) v)
    | ("object", some v) => return .object (← Json.dict? (ofJsonWithin? fuel) v)
    | _ => none
end

/-- A field from JSON. Reading JSON bounds how deep it nests. -/
def ofJson? (j : Json) : Option Field := ofJsonWithin? 256 j

end Field

namespace Record

/-- A record as JSON. -/
def toJson (r : Record) : Json :=
  .object [("fields", Json.ofDict Field.toJson r.fields), ("message", .string r.message)]

/-- A record from JSON. -/
def ofJson? (j : Json) : Option Record := do
  let f ← Json.fields? ["fields", "message"] j
  return ⟨← f.required "fields" (Json.dict? Field.ofJson?), ← f.required "message" Json.text?⟩

end Record

end LogSearch
