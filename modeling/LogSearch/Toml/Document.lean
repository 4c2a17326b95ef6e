import LogSearch.Toml.Value

/-!
# Building a configuration from its lines

Headers open tables and elements of lists of tables, and keys with dots open tables of their own.
No key is given twice, and no table is opened twice.

* `Toml.Item`: what stands under a key while lines are still to come.
* `Toml.Entries.put?`: writes a value under a key with dots.
* `Toml.Entries.openTable?`, `Toml.Entries.openElement?`: the effect of a header.
-/

namespace LogSearch.Toml

/-- How a table came to be. -/
inductive Origin
  /-- By a header of its own. -/
  | header
  /-- By the header of a table inside it. -/
  | within
  /-- By a key with dots. -/
  | dotted
deriving DecidableEq, Repr

/-- What stands under a key. -/
inductive Item
  | value (value : Toml)
  | table (origin : Origin) (entries : List (String × Item))
  /-- Tables in a list, the newest first. -/
  | tables (elements : List (List (String × Item)))

/-- The entries of a table. -/
abbrev Entries := List (String × Item)

namespace Entries

/-- Writes a value under a path of keys and a last key. A table is entered only if a key with dots or
an inner header made it, and the last one only if a key with dots made it. -/
def put? (key : String) (v : Toml) : List String → Entries → Option Entries
  | [], es => if Dict.contains key es then none else some (Dict.insert key (.value v) es)
  | k :: path, es => do
    match Dict.get? k es with
    | none => return Dict.insert k (.table .dotted (← put? key v path [])) es
    | some (.value _) => none
    | some (.table .header _) => none
    | some (.table origin inner) =>
      if path.isEmpty ∧ origin ≠ .dotted then none
      else return Dict.insert k (.table origin (← put? key v path inner)) es
    | some (.tables []) => none
    | some (.tables (last :: others)) =>
      if path.isEmpty then none
      else return Dict.insert k (.tables ((← put? key v path last) :: others)) es

/-- Changes the table at a path of keys; missing tables are made, and of a list the newest counts. -/
def change? (f : Entries → Option Entries) : List String → Entries → Option Entries
  | [], es => f es
  | k :: path, es => do
    match Dict.get? k es with
    | none => return Dict.insert k (.table .within (← change? f path [])) es
    | some (.value _) => none
    | some (.table origin inner) =>
      return Dict.insert k (.table origin (← change? f path inner)) es
    | some (.tables []) => none
    | some (.tables (last :: others)) =>
      return Dict.insert k (.tables ((← change? f path last) :: others)) es

/-- Opens a table. -/
def openTable? (path : List String) (key : String) : Entries → Option Entries :=
  change? (fun es =>
      match Dict.get? key es with
      | none => some (Dict.insert key (.table .header []) es)
      | some (.table .within inner) => some (Dict.insert key (.table .header inner) es)
      | _ => none)
    path

/-- Opens a new element of a list of tables. -/
def openElement? (path : List String) (key : String) : Entries → Option Entries :=
  change? (fun es =>
      match Dict.get? key es with
      | none => some (Dict.insert key (.tables [[]]) es)
      | some (.tables elements) => some (Dict.insert key (.tables ([] :: elements)) es)
      | _ => none)
    path

end Entries

mutual
/-- The finished value. -/
def Item.toToml : Item → Toml
  | .value v => v
  | .table _ entries => .table (entriesToToml entries)
  | .tables elements => .array (elementsToToml elements).reverse

/-- The finished values under keys. -/
def entriesToToml : List (String × Item) → List (String × Toml)
  | [] => []
  | (key, item) :: rest => (key, item.toToml) :: entriesToToml rest

/-- The finished elements of a list. -/
def elementsToToml : List (List (String × Item)) → List Toml
  | [] => []
  | es :: rest => .table (entriesToToml es) :: elementsToToml rest
end

end LogSearch.Toml
