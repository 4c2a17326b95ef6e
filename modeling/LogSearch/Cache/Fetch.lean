import LogSearch.Cache.Identity
import LogSearch.Source.Basic

/-!
# Fetches

A fetch collects what a source reports. It runs until the source ends or the fetch is cancelled, and
then its status does not change any more.

* `Fetch`: a fetch with its rows, the latest first, and the tasks that refer to it.
* `Fetch.push`: takes in a batch.
* `Fetch.settle`: takes in the end.
* `Fetch.turn`: lets the source take its next turn.
-/

namespace LogSearch

/-- How a fetch stands. -/
inductive FetchStatus
  | running
  | done
  | failed (error : String)
  | canceled
deriving DecidableEq, Repr

namespace FetchStatus

/-- Whether the fetch has ended. -/
def isSettled : FetchStatus → Bool
  | running => false
  | _ => true

/-- Whether the fetch has ended with a fault. -/
def isFailed : FetchStatus → Bool
  | failed _ => true
  | _ => false

/-- The status at the end of a source. -/
def ofOutcome : Except SourceFault Unit → FetchStatus
  | .ok _ => done
  | .error fault => failed fault.message

/-- A status as JSON. -/
def toJson : FetchStatus → Json
  | running => .object [("state", .string "running")]
  | done => .object [("state", .string "done")]
  | failed error => .object [("state", .string "failed"), ("error", .string error)]
  | canceled => .object [("state", .string "canceled")]

/-- A status from JSON. -/
def ofJson? (j : Json) : Option FetchStatus := do
  match ← Json.adjacent? "state" "error" j with
  | ("running", v) => (Json.noContent? v).map fun _ => running
  | ("done", v) => (Json.noContent? v).map fun _ => done
  | ("failed", some v) => return failed (← v.text?)
  | ("canceled", v) => (Json.noContent? v).map fun _ => canceled
  | _ => none

end FetchStatus

/-- A fetch. -/
structure Fetch where
  key : String
  identity : CacheIdentity
  /-- The tasks that refer to the fetch, each once. -/
  tasks : List String
  /-- What has been reported so far, the latest first. -/
  rows : List Record
  status : FetchStatus
  /-- How many changes there were. -/
  version : Nat
  /-- Whether the fetch is to stop. -/
  cancelled : Bool
  /-- What the source is still to report. -/
  response : Response

namespace Fetch

/-- A fetch that starts. -/
def start (identity : CacheIdentity) (task : String) (response : Response) : Fetch :=
  ⟨identity.key, identity, [task], [], .running, 0, false, response⟩

/-- Whether a task refers to the fetch. -/
def isReferencedBy (f : Fetch) (task : String) : Bool := task ∈ f.tasks

/-- Adds a task. -/
def addTask (f : Fetch) (task : String) : Fetch :=
  if task ∈ f.tasks then f else { f with tasks := f.tasks ++ [task] }

/-- Removes a task. -/
def removeTask (f : Fetch) (task : String) : Fetch :=
  { f with tasks := f.tasks.filter fun t => t ≠ task }

/-- Takes in a batch; a cancelled fetch takes none. -/
def push (f : Fetch) (batch : List Record) : Fetch :=
  if f.cancelled || batch.isEmpty then f
  else { f with rows := mergeByTime f.rows (sortByTime batch), version := f.version + 1 }

/-- Takes in the end; only the first one counts, and a cancelled fetch ends as such. -/
def settle (f : Fetch) (status : FetchStatus) : Fetch :=
  if f.status.isSettled then f
  else { f with status := if f.cancelled then .canceled else status, version := f.version + 1 }

/-- Tells the fetch to stop. -/
def cancel (f : Fetch) : Fetch := { f with cancelled := true }

/-- The next turn: a fetch that is to stop does so; else the source reports a batch, or its end. -/
def turn (f : Fetch) : Fetch :=
  if f.status.isSettled then f
  else if f.cancelled then f.settle .canceled
  else
    match f.response.batches with
    | batch :: rest => { f with response := { f.response with batches := rest } }.push batch
    | [] =>
      match f.response.outcome with
      | some outcome => f.settle (.ofOutcome outcome)
      | none => f

/-- Whether a turn has an effect. -/
def canTurn (f : Fetch) : Bool :=
  !f.status.isSettled
    && (f.cancelled || !f.response.batches.isEmpty || f.response.outcome.isSome)

end Fetch

end LogSearch
