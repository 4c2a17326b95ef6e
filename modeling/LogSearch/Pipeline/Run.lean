import LogSearch.Pipeline.Draft
import LogSearch.Pipeline.Evaluation
import LogSearch.Pipeline.TimeChart

/-!
# Running a pipeline

* `Stage.apply`: the results after a stage.
* `runPipeline`: the results after all stages; the first fault ends the run.
-/

namespace LogSearch

/-- The order of two rows by the keys of a sort; the first key that tells them apart decides. -/
def compareRows (keys : List SortKey) (a b : Record) : Ordering :=
  match keys with
  | [] => .eq
  | key :: rest =>
    let x := a.getD key.column
    let y := b.getD key.column
    let o := match key.direction with
      | .asc => x.compareNatural y
      | .desc => y.compareNatural x
    match o with
    | .eq => compareRows rest a b
    | o => o

/-- The rows in the order of the keys; rows that no key tells apart keep their order. -/
def sortRows (keys : List SortKey) (rows : List Record) : List Record :=
  rows.mergeSort fun a b => compareRows keys a b != .gt

/-- The columns of a table stage that the row has, under their new names. -/
def projectRow (columns : List TableColumn) (r : Record) : Record :=
  columns.foldl (fun out c =>
      match r.get? c.column with
      | some f => out.set c.outputName f
      | none => out)
    (Record.ofMessage r.message)

/-- The named groups of all matches; a later match overwrites an earlier one. -/
def capturedFields (r : Regex) (text : String) : List (String × Field) :=
  (r.captures text).flatMap fun part => r.names.filterMap fun name =>
    (part name).map fun s => (name, .string s)

/-- The text that a regex stage looks at. -/
def regexText (field : Option String) (r : Record) : String :=
  match field with
  | some name => r.display name
  | none => r.message

/-- Columns that are not there yet are added at the end. -/
def addColumns (columns names : List String) : List String :=
  names.foldl (fun cs n => if n ∈ cs then cs else cs ++ [n]) columns

namespace Results

/-- Edits the current rows; a table gets the new columns. -/
def edit (r : Results) (names : List String) (change : Record → List (String × Field)) : Results :=
  match r.table with
  | some t => ⟨r.events, some ⟨addColumns t.columns names, editRows change t.rows⟩, none⟩
  | none => ⟨editRows change r.events, none, none⟩

/-- Keeps the events and the rows of the table that pass a test. -/
def keep (r : Results) (test : Record → Bool) : Results :=
  ⟨r.events.filter test, r.table.map fun t => { t with rows := t.rows.filter test }, none⟩

end Results

variable [Regex.Library] [Machine]

/-- The results after a stage. Only a time chart leaves a chart. -/
def Stage.apply (range : TimeRange) (r : Results) : Stage → Except StageFault Results
  | table columns =>
    .ok ⟨r.events, some ⟨columns.map TableColumn.outputName, r.rows.map (projectRow columns)⟩, none⟩
  | stats calls groupBy => do
    return ⟨r.events, some (← aggregate "stats" calls groupBy r.rows), none⟩
  | regex field pattern =>
    match Regex.compile pattern with
    | .error reason => .error (.invalidPattern "regex" reason)
    | .ok compiled =>
      .ok (r.edit compiled.names fun row => capturedFields compiled (regexText field row))
  | sort keys => .ok { r.withRows (sortRows keys r.rows) with chart := none }
  | filter condition => .ok (r.keep condition.holds)
  | timeChart span timeColumn maxGroups calls groupBy => do
    let width ← TimeChart.width range span
    let plan : TimeChart.Plan :=
      { range
        span := width
        timeColumn := timeColumn.getD timeField
        maxGroups := maxGroups.getD TimeChart.defaultGroups
        calls, groupBy }
    let drawn ← plan.draw r.rows
    return ⟨r.events, some drawn.1, some drawn.2⟩
  | eval target value => .ok (r.edit [target] fun row => [(target, value.eval row)])

/-- The results of all stages over the events. -/
def runPipeline (range : TimeRange) (stages : List Stage) (events : List Record) :
    Except StageFault Results :=
  stages.foldlM (Stage.apply range) (Results.ofEvents events)

end LogSearch
