import LogSearch.Cache.Store
import LogSearch.Engine.Update
import LogSearch.Pipeline.Run
import LogSearch.View.TimeIndex

/-!
# Tasks

A task runs the pipeline of a query over the rows of some fetches, again on each change of one of
them, until all of them have ended. Between its sections anything else may happen.

* `TaskView`: the results of the last run that succeeded, with what is derived from them.
* `Task`, `Phase`: a task, and the section that comes next.
* `Task.step`: the next section, with the updates that it publishes.
* `Task.finish`: the task leaves the running state, once.
-/

namespace LogSearch

/-- Results with an index and a histogram of their events. -/
structure TaskView where
  results : Results
  index : TimeIndex
  histogram : Histogram

namespace TaskView

/-- Nothing. -/
def empty : TaskView := ⟨Results.ofEvents [], TimeIndex.empty, Histogram.empty⟩

/-- Puts results in the place of those that are there. The index comes first, then the histogram, and
the results come last; a histogram that cannot be counted stops the program between the two. The answer
says whether the results are there. -/
def publish [Machine] (range : TimeRange) (buckets : Nat) (v : TaskView) (r : Results) :
    Bool × TaskView :=
  let v := { v with index := TimeIndex.ofEvents r.events }
  match Histogram.ofEvents? r.events range buckets with
  | some histogram => (true, { v with histogram, results := r })
  | none => (false, v)

/-- How many events are looked at for names of fields. -/
def keySample : Nat := 1000

/-- The columns of the table, if there is one. -/
def columns (v : TaskView) : List String := (v.results.table.map Table.columns).getD []

/-- The names of fields and columns, each once, in order. -/
def keys (v : TaskView) : List String :=
  let names := (v.results.events.take keySample).flatMap fun e => Dict.keys e.fields
  Dict.keys (Dict.ofList ((names ++ v.columns).map fun n => (n, ())))

/-- What the results look like. -/
def summary (v : TaskView) : BatchSummary :=
  ⟨v.histogram, v.results.events.length, v.results.table.map fun t => t.rows.length, v.columns,
    v.keys⟩

end TaskView

/-- A fetch of a task, and the source that it asks. -/
structure Subtask where
  source : String
  fetch : Nat
deriving DecidableEq, Repr

/-- The section of a task that comes next. -/
inductive Phase
  /-- The task has not looked at its fetches yet. -/
  | starting
  /-- The task waits for a change of a fetch since the versions that it has seen. -/
  | waiting (seen : List Nat)
  /-- The task is about to run the pipeline; `last` after all fetches have ended. -/
  | computing (rows : List Record) (seen : List Nat) (last : Bool)
  /-- The task is about to decide about its status. -/
  | concluding (succeeded : Bool)
  | ended
  /-- Arithmetic has stopped the task in a run of the pipeline. -/
  | brokenOff

/-- A task. -/
structure Task where
  id : String
  text : String
  query : Query
  range : TimeRange
  subtasks : List Subtask
  /-- Whether the task is to stop. -/
  cancelled : Bool
  status : TaskStatus
  /-- Whether the task has let go of its fetches. -/
  released : Bool
  /-- Whether the task can be found. -/
  listed : Bool
  view : TaskView
  /-- The last fault of a stage or of the sources. -/
  error : Option String
  phase : Phase

namespace Task

/-- A task that starts. -/
def start (id text : String) (query : Query) (range : TimeRange) (subtasks : List Subtask) : Task :=
  { id, text, query, range, subtasks
    cancelled := false
    status := .running
    released := false
    listed := true
    view := .empty
    error := none
    phase := .starting }

/-- The fetches of the task. -/
def fetches (c : Cache) (t : Task) : List Fetch := t.subtasks.filterMap fun s => c.fetch? s.fetch

/-- The versions of the fetches. -/
def versions (c : Cache) (t : Task) : List Nat := (t.fetches c).map Fetch.version

/-- Whether all fetches have ended. -/
def isSettled (c : Cache) (t : Task) : Bool := (t.fetches c).all fun f => f.status.isSettled

/-- The rows of all fetches. -/
def mergedRows (c : Cache) (t : Task) : List Record := mergeAllByTime ((t.fetches c).map Fetch.rows)

/-- Moves a running task to a status. The answer says whether it was running. -/
def finish (t : Task) (status : TaskStatus) : Bool × Task :=
  if t.status = .running then (true, { t with status }) else (false, t)

/-- Goes on after the versions in `seen`: waits, runs for the last time, or ends. -/
def proceed (c : Cache) (t : Task) (seen : List Nat) : Task :=
  if !t.isSettled c then { t with phase := .waiting seen }
  else if t.cancelled then { t with phase := .ended }
  else { t with phase := .computing (t.mergedRows c) seen true }

variable [Regex.Library] [Machine]

/-- How a run of the pipeline ends. -/
inductive RunEnd
  | succeeded
  | failed
  /-- Arithmetic has stopped the task. -/
  | brokenOff
deriving DecidableEq, Repr

/-- Runs the pipeline. A run that fails leaves the view as it is. -/
def compute (buckets : Nat) (t : Task) (rows : List Record) : RunEnd × Task × List TaskUpdate :=
  if t.cancelled then (.failed, t, [])
  else
    match runPipeline t.range t.query.pipeline rows with
    | .ok results =>
      match t.view.publish t.range buckets results with
      | (true, view) =>
        (.succeeded, { t with view, error := none }, [.batchDone t.id view.summary])
      | (false, view) => (.brokenOff, { t with view }, [])
    | .error fault =>
      if fault.stops then (.brokenOff, t, [])
      else (.failed, { t with error := some fault.message }, [.stageFailed t.id fault.message])

/-- Decides about the status. The task fails if its last run did, or if all sources failed that were
not cancelled. -/
def conclude (c : Cache) (t : Task) (succeeded : Bool) : Task × List TaskUpdate :=
  let statuses := (t.fetches c).map Fetch.status
  let failures := statuses.filterMap fun
    | .failed error => some error
    | _ => none
  let live := (statuses.filter fun s => s ≠ .canceled).length
  let allFailed := 0 < live && failures.length = live
  let error :=
    if allFailed then some (Text.join "; " failures)
    else if !failures.isEmpty && t.error.isNone then
      some (toString failures.length ++ " of " ++ toString live ++ " sources failed")
    else t.error
  let status : TaskStatus := if allFailed || !succeeded then .failed else .completed
  let (changed, t) := { t with error, phase := .ended }.finish status
  (t, if changed then [.statusChanged t.id status error] else [])

/-- Whether the next section can be done. -/
def canStep (c : Cache) (t : Task) : Bool :=
  match t.phase with
  | .waiting seen => t.cancelled || t.versions c != seen
  | .ended | .brokenOff => false
  | _ => true

/-- The next section. -/
def step (c : Cache) (buckets : Nat) (t : Task) : Task × List TaskUpdate :=
  match t.phase with
  | .starting => (t.proceed c (t.versions c), [])
  | .waiting seen =>
    if t.cancelled then ({ t with phase := .ended }, [])
    else if t.versions c = seen then (t, [])
    else if t.isSettled c then (t.proceed c (t.versions c), [])
    else ({ t with phase := .computing (t.mergedRows c) (t.versions c) false }, [])
  | .computing rows seen last =>
    match t.compute buckets rows with
    | (.brokenOff, t, updates) => ({ t with phase := .brokenOff }, updates)
    | (runEnd, t, updates) =>
      (if last then { t with phase := .concluding (runEnd = .succeeded) } else t.proceed c seen, updates)
  | .concluding succeeded => t.conclude c succeeded
  | .ended | .brokenOff => (t, [])

/-- Sections until the task has to wait; six are enough for that. -/
def run (c : Cache) (buckets : Nat) : Nat → Task → Task × List TaskUpdate
  | 0, t => (t, [])
  | fuel + 1, t =>
    if t.canStep c then
      let (t, updates) := t.step c buckets
      let (t, more) := run c buckets fuel t
      (t, updates ++ more)
    else (t, [])

end Task

end LogSearch
