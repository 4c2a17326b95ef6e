import LogSearch.Dict

/-!
# JSON values

* `Json`: a JSON value whose objects keep the order in which they were written.
* `Json.normalize`: the same value with every object ordered by key; of members with one key the
  last one counts.
* `Json.depth`: how deep arrays and objects nest.
-/

namespace LogSearch

/-- A JSON value. Integers of sixty-four bits are kept apart from other numbers. -/
inductive Json
  | null
  | bool (value : Bool)
  | integer (value : Int)
  | real (value : Float)
  | string (value : String)
  | array (items : List Json)
  | object (members : List (String × Json))

namespace Json

mutual
/-- The value with every object ordered by key, the last of equal keys winning. -/
def normalize : Json → Json
  | array items => array (normalizeItems items)
  | object members => object (Dict.ofList (normalizeMembers members))
  | value => value

/-- `normalize` on the items of an array. -/
def normalizeItems : List Json → List Json
  | [] => []
  | item :: items => normalize item :: normalizeItems items

/-- `normalize` on the values of an object. -/
def normalizeMembers : List (String × Json) → List (String × Json)
  | [] => []
  | (key, value) :: members => (key, normalize value) :: normalizeMembers members
end

/-- How deep a JSON value nests. -/
def depth : Json → Nat
  | array items => depths items + 1
  | object members => memberDepths members + 1
  | _ => 0
where
  /-- The greatest depth of items. -/
  depths : List Json → Nat
    | [] => 0
    | item :: items => max item.depth (depths items)
  /-- The greatest depth of members. -/
  memberDepths : List (String × Json) → Nat
    | [] => 0
    | (_, value) :: members => max value.depth (memberDepths members)

/-- The members of an object. -/
def members? : Json → Option (List (String × Json))
  | object members => some members
  | _ => none

/-- The member of an object under `key`. -/
def member? (key : String) : Json → Option Json
  | object members => Dict.get? key members
  | _ => none

/-- The text of a string. -/
def text? : Json → Option String
  | string value => some value
  | _ => none

/-- The items of an array. -/
def items? : Json → Option (List Json)
  | array items => some items
  | _ => none

end Json

end LogSearch
