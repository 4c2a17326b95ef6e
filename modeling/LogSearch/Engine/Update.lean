import LogSearch.Json.Decode
import LogSearch.View.Histogram

/-!
# What the engine tells about its tasks

* `TaskStatus`: how a task stands.
* `TaskUpdate`: an entry of the stream of updates.
-/

namespace LogSearch

/-- How a task stands. -/
inductive TaskStatus
  | running
  | completed
  | failed
  | canceled
deriving DecidableEq, Repr

namespace TaskStatus

/-- All statuses. -/
def all : List TaskStatus := [running, completed, failed, canceled]

/-- The name of a status. -/
def name : TaskStatus → String
  | running => "running"
  | completed => "completed"
  | failed => "failed"
  | canceled => "canceled"

end TaskStatus

/-- What new results look like. -/
structure BatchSummary where
  histogram : Histogram
  events : Nat
  tableRows : Option Nat
  columns : List String
  /-- Names of fields and columns to offer while a query is typed. -/
  keys : List String
deriving DecidableEq, Repr

/-- An update of a task. -/
inductive TaskUpdate
  | batchDone (task : String) (summary : BatchSummary)
  | stageFailed (task error : String)
  | statusChanged (task : String) (status : TaskStatus) (error : Option String)
deriving DecidableEq, Repr

namespace TaskUpdate

/-- The task that an update is about. -/
def task : TaskUpdate → String
  | batchDone task _ => task
  | stageFailed task _ => task
  | statusChanged task _ _ => task

/-- A bucket as JSON. -/
def bucketToJson (b : HistogramBucket) : Json :=
  .object [("start", .integer b.start), ("count", .integer b.count)]

/-- A bucket from JSON. -/
def bucketOfJson? (j : Json) : Option HistogramBucket := do
  let f ← Json.fields? ["start", "count"] j
  return ⟨← f.required "start" Json.int64?, ← f.required "count" Json.count?⟩

/-- An update as JSON. -/
def toJson : TaskUpdate → Json
  | batchDone task s =>
    .object [("type", .string "batch_done"), ("task_id", .string task),
      ("scale", .integer s.histogram.scale), ("events", .integer s.events),
      ("table_rows", Json.ofOption (fun (n : Nat) => .integer n) s.tableRows),
      ("columns", Json.ofTexts s.columns), ("autocomplete_keys", Json.ofTexts s.keys),
      ("buckets", Json.ofList bucketToJson s.histogram.buckets)]
  | stageFailed task error =>
    .object [("type", .string "stage_failed"), ("task_id", .string task), ("error", .string error)]
  | statusChanged task status error =>
    .object [("type", .string "status_changed"), ("task_id", .string task),
      ("status", .string status.name), ("error", Json.ofOption .string error)]

/-- An update from JSON. -/
def ofJson? (j : Json) : Option TaskUpdate := do
  match ← Json.tagged? "type" j with
  | ("batch_done", j) =>
    let f ← Json.fields? ["task_id", "scale", "events", "table_rows", "columns",
      "autocomplete_keys", "buckets"] j
    return batchDone (← f.required "task_id" Json.text?)
      { events := ← f.required "events" Json.count?
        tableRows := ← f.optional "table_rows" Json.count?
        columns := ← f.required "columns" (Json.list? Json.text?)
        keys := ← f.required "autocomplete_keys" (Json.list? Json.text?)
        histogram := ⟨← f.required "scale" Json.int64?,
          ← f.required "buckets" (Json.list? bucketOfJson?)⟩ }
  | ("stage_failed", j) =>
    let f ← Json.fields? ["task_id", "error"] j
    return stageFailed (← f.required "task_id" Json.text?) (← f.required "error" Json.text?)
  | ("status_changed", j) =>
    let f ← Json.fields? ["task_id", "status", "error"] j
    return statusChanged (← f.required "task_id" Json.text?)
      (← f.required "status" (Json.unitChoice? TaskStatus.name TaskStatus.all))
      (← f.optional "error" Json.text?)
  | _ => none

end TaskUpdate

end LogSearch
