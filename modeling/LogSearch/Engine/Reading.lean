import LogSearch.Engine.Basic
import LogSearch.View.Export
import LogSearch.View.Page

/-!
# Reading from a task

All answers come from the results of the last run that succeeded.

* `Engine.taskInfo`: how a task and its sources stand.
* `Engine.logs`, `Engine.tablePage`, `Engine.exportTable`: events and the table.
* `Engine.closestEvent`: the event nearest to an instant.
-/

namespace LogSearch

/-- How a source of a task stands. -/
structure SourceStatus where
  source : String
  key : String
  status : FetchStatus
  rows : Nat
deriving DecidableEq, Repr

/-- How a task stands. -/
structure TaskInfo where
  id : String
  text : String
  status : TaskStatus
  error : Option String
  range : TimeRange
  events : Nat
  sources : List SourceStatus
deriving DecidableEq, Repr

/-- The event nearest to an instant. -/
structure ClosestEvent where
  position : Nat
  timestamp : Int
  event : Record

namespace Engine

/-- How the sources of a task stand. -/
def sourceStatuses (c : Cache) (t : Task) : List SourceStatus :=
  t.subtasks.filterMap fun s =>
    (c.fetch? s.fetch).map fun f => ⟨s.source, f.key, f.status, f.rows.length⟩

/-- How a task stands. -/
def taskInfo (e : Engine) (id : String) : Except EngineFault TaskInfo := do
  let t ← e.task? id
  return ⟨t.id, t.text, t.status, t.error, t.range, t.view.results.events.length,
    sourceStatuses e.cache t⟩

/-- A page of the events. -/
def logs (e : Engine) (id : String) (offset limit : Nat) : Except EngineFault (Page Record) := do
  return Page.slice (← e.task? id).view.results.events offset limit

/-- The table of a task. -/
def table (e : Engine) (id : String) : Except EngineFault Table := do
  match (← e.task? id).view.results.table with
  | some t => return t
  | none => throw (.noTable id)

/-- The columns and a page of the rows of the table. -/
def tablePage (e : Engine) (id : String) (offset limit : Nat) :
    Except EngineFault (List String × Page Record) := do
  let t ← e.table id
  return (t.columns, Page.slice t.rows offset limit)

/-- The table in a format. -/
def exportTable (e : Engine) (id : String) (format : ExportFormat) : Except EngineFault String := do
  return (← e.table id).render format

/-- The event nearest to an instant. -/
def closestEvent (e : Engine) (id : String) (time : Int) :
    Except EngineFault (Option ClosestEvent) := do
  let v := (← e.task? id).view
  return do
    let (timestamp, position) ← v.index.closest time
    let event ← v.results.events[position]?
    return ⟨position, timestamp, event⟩

/-- The chart of a task. -/
def chart (e : Engine) (id : String) : Except EngineFault (Option Chart) := do
  return (← e.task? id).view.results.chart

/-- The histogram of a task. -/
def histogram (e : Engine) (id : String) : Except EngineFault Histogram := do
  return (← e.task? id).view.histogram

end Engine

end LogSearch
