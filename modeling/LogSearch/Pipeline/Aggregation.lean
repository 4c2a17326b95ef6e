import LogSearch.Number.Machine
import LogSearch.Pipeline.Fault
import LogSearch.Query.Tree
import LogSearch.Results

/-!
# Grouping and aggregating rows

* `groupKey`, `groupRows`: rows grouped by the texts of some columns, in order of appearance.
* `AggregateCall.compute`: the value of an aggregation over a group.
* `aggregate`: the table with a row for each group.
-/

namespace LogSearch

/-! ## Groups -/

/-- The key of the group of a row: the texts of the columns. -/
def groupKey (columns : List String) (r : Record) : String :=
  Text.join ", " (columns.map r.display)

/-- Items by key; keys in order of first appearance, items in their order. -/
def groupByKey {α : Type} (keyed : List (String × α)) : List (String × List α) :=
  (keyed.map Prod.fst).eraseDups.map fun key =>
    (key, (keyed.filter fun item => item.1 = key).map Prod.snd)

/-- Rows grouped by the texts of some columns. -/
def groupRows (columns : List String) (rows : List Record) : List (String × List Record) :=
  groupByKey (rows.map fun r => (groupKey columns r, r))

/-! ## Aggregations -/

/-- The values of a column that are there and not null. -/
def presentValues (column : String) (rows : List Record) : List Field :=
  rows.filterMap fun r => (r.get? column).filter fun f => !f.isNull

/-- The numbers of a column; a value that is none is a fault. -/
def columnNumbers (stage column : String) (values : List Field) : Except StageFault (List Double) :=
  values.mapM fun f =>
    match f.asNumber? with
    | some x => .ok x
    | none => .error (.nonNumeric stage column f.display)

/-- The lesser of two numbers; what is no number gives way, and of equal ones the first stays. -/
def lesser (x y : Double) : Double := if y < x then y else x

/-- The greater of two numbers; what is no number gives way, and of equal ones the first stays. -/
def greater (x y : Double) : Double := if x < y then y else x

/-- An infinite number. -/
def infinity : Float := 1.0 / 0.0

variable [Machine]

/-- The sum in order. -/
def sumOf (xs : List Double) : Double := xs.foldl Double.add (.ofFloat (-0.0))

/-- A numeric aggregation. Without numbers a sum is zero and anything else is null. -/
def numericAggregate (function : Aggregate) (xs : List Double) : Field :=
  match function, xs with
  | .sum, [] => .number (.ofFloat 0.0)
  | _, [] => .null
  | .sum, _ => .number (sumOf xs)
  | .avg, _ => .number ((sumOf xs).div (.ofInt xs.length))
  | .min, _ => .number (xs.foldl lesser (.ofFloat infinity))
  | _, _ => .number (xs.foldl greater (.ofFloat (-infinity)))

/-- The value of an aggregation over a group. -/
def AggregateCall.compute (a : AggregateCall) (stage : String) (rows : List Record) :
    Except StageFault Field :=
  match a.column with
  | none =>
    match a.function with
    | .count => .ok (.number (.ofInt rows.length))
    | _ => .ok .null
  | some column =>
    let present := presentValues column rows
    match a.function with
    | .count => .ok (.number (.ofInt present.length))
    | .first => .ok (present.headD .null)
    | .last => .ok (present.getLastD .null)
    | f => (columnNumbers stage column present).map (numericAggregate f)

/-! ## Tables -/

/-- The row of a group: the columns of its first member, then the aggregations. -/
def groupRow (stage : String) (calls : List AggregateCall) (columns : List String)
    (members : List Record) : Except StageFault Record := do
  let start : Record := match members with
    | [] => Record.ofMessage ""
    | first :: _ => columns.foldl (fun r c => r.set c (first.getD c)) (Record.ofMessage "")
  calls.foldlM (fun r a => do return r.set a.outputName (← a.compute stage members)) start

/-- A row for each group; without columns to group by, all rows are one group. -/
def aggregate (stage : String) (calls : List AggregateCall) (columns : List String)
    (rows : List Record) : Except StageFault Table := do
  let groups := if columns.isEmpty then [rows] else (groupRows columns rows).map Prod.snd
  return ⟨columns ++ calls.map AggregateCall.outputName,
    ← groups.mapM (groupRow stage calls columns)⟩

end LogSearch
