import LogSearch.Json.Value
import LogSearch.Number.Double
import LogSearch.Number.Read

/-!
# Typed values in JSON

How records, choices, lists and numbers are written in JSON and read back.

* A record is an object with one member a field, in a fixed order; it may also be read from the list
  of its fields. Members that are no fields are skipped, but no field may be given twice.
* A choice without parts is its name; one with parts is an object with its name as the only member,
  or an object in which one member holds the name (a tag).
-/

namespace LogSearch.Json

/-! ## Scalars -/

/-- A boolean. -/
def bool? : Json → Option Bool
  | bool b => some b
  | _ => none

/-- A double; integers count. -/
def float? : Json → Option Float
  | real x => some x
  | integer n => some (Number.ofInt n)
  | _ => none

/-- A double by its bits. -/
def double? (j : Json) : Option Double := j.float?.map .ofFloat

/-- A double as JSON, which has one sign for all that is no number. -/
def ofDouble (x : Double) : Json := real x.toFloat

/-- A signed integer of sixty-four bits. -/
def int64? : Json → Option Int
  | integer n => if Number.int64Min ≤ n ∧ n ≤ Number.int64Max then some n else none
  | _ => none

/-- An unsigned integer of sixty-four bits. -/
def count? : Json → Option Nat
  | integer n => if 0 ≤ n ∧ n ≤ Number.countMax then some n.toNat else none
  | _ => none

/-- No value. -/
def isNull : Json → Bool
  | null => true
  | _ => false

/-- A value that may be absent. -/
def option? {α : Type} (item : Json → Option α) (j : Json) : Option (Option α) :=
  if j.isNull then some none else (item j).map some

/-- A list. -/
def list? {α : Type} (item : Json → Option α) (j : Json) : Option (List α) := do
  (← j.items?).mapM item

/-- A map with text keys; the last of equal keys counts. -/
def dict? {α : Type} (item : Json → Option α) (j : Json) : Option (Dict α) := do
  let members ← (← j.members?).mapM fun (key, value) => (item value).map (key, ·)
  return Dict.ofList members

/-! ## Records -/

/-- The fields of a record that has been found to be well-formed. -/
structure Fields where
  members : List (String × Json)
  /-- Whether the record was written as a list; then only defaults may be missing. -/
  listed : Bool

/-- How often a key occurs. -/
def occurrences (key : String) (members : List (String × Json)) : Nat :=
  (members.filter fun m => m.1 = key).length

/-- The fields of an object or of a list. -/
def fields? (names : List String) : Json → Option Fields
  | object members =>
    if names.all fun n => occurrences n members ≤ 1 then some ⟨members, false⟩ else none
  | array items =>
    if items.length ≤ names.length then some ⟨names.zip items, true⟩ else none
  | _ => none

namespace Fields

/-- A field that has to be there. -/
def required {α : Type} (f : Fields) (name : String) (item : Json → Option α) : Option α :=
  (Dict.get? name f.members).bind item

/-- A field that has a default. -/
def defaulted {α : Type} (f : Fields) (name : String) (item : Json → Option α) (default : α) :
    Option α :=
  match Dict.get? name f.members with
  | none => some default
  | some j => item j

/-- A field whose value may be absent; a missing one counts as absent, except in a list. -/
def optional {α : Type} (f : Fields) (name : String) (item : Json → Option α) :
    Option (Option α) :=
  match Dict.get? name f.members with
  | none => if f.listed then none else some none
  | some j => option? item j

end Fields

/-! ## Choices -/

/-- A choice without parts, by its name. -/
def unitChoice? {α : Type} (name : α → String) (all : List α) (j : Json) : Option α :=
  match j with
  | string s => all.find? fun a => name a = s
  | object [(s, null)] => all.find? fun a => name a = s
  | _ => none

/-- A choice with parts, as its name and what is under it. -/
def choice? : Json → Option (String × Json)
  | object [(name, value)] => some (name, value)
  | _ => none

/-- A choice whose name is the member `tag`, and the object without it. -/
def tagged? (tag : String) : Json → Option (String × Json)
  | object members => do
    if occurrences tag members ≠ 1 then none
    else
      let name ← ((Dict.get? tag members).bind text?)
      return (name, object (members.filter fun m => m.1 ≠ tag))
  | array (string name :: rest) => some (name, array rest)
  | _ => none

/-- A choice whose name is the member `tag` and whose part is the member `content`. -/
def adjacent? (tag content : String) : Json → Option (String × Option Json)
  | object members => do
    if occurrences tag members ≠ 1 ∨ 1 < occurrences content members then none
    else
      let name ← ((Dict.get? tag members).bind text?)
      return (name, Dict.get? content members)
  | array [string name] => some (name, none)
  | array [string name, value] => some (name, some value)
  | _ => none

/-- A choice without part has no content or an empty one. -/
def noContent? (content : Option Json) : Option Unit :=
  match content with
  | none | some null => some ()
  | _ => none

/-- A value that may be absent, written as null. -/
def ofOption {α : Type} (item : α → Json) : Option α → Json
  | some a => item a
  | none => null

/-- A list. -/
def ofList {α : Type} (item : α → Json) (items : List α) : Json := array (items.map item)

/-- A map. -/
def ofDict {α : Type} (item : α → Json) (d : Dict α) : Json :=
  object (d.map fun (key, value) => (key, item value))

/-- A list of texts. -/
def ofTexts (texts : List String) : Json := ofList string texts

end LogSearch.Json
