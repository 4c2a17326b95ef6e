import LogSearch.Engine.Fault
import LogSearch.Engine.Task
import LogSearch.Query.Parser

/-!
# The engine

The engine turns texts into tasks that share fetches.

* `Engine.runQuery`: starts a task, or refuses and leaves everything as it is.
* `Engine.cancelQuery`, `Engine.releaseTask`: ends a task.
* `Engine.report`, `Engine.settle`: what a source reports from outside.
* `Engine.turn`, `Engine.rest`: lets sources and tasks go on, once or until nothing can.
-/

namespace LogSearch

/-- What a query asks for besides its text. -/
structure QueryOptions where
  start : Option Int
  stop : Option Int
  limit : Option Nat
  /-- Whether fetches that are there are not to be used. -/
  forced : Bool
deriving DecidableEq, Repr

namespace QueryOptions

/-- Nothing. -/
def default : QueryOptions := ⟨none, none, none, false⟩

/-- Options as JSON. -/
def toJson (o : QueryOptions) : Json :=
  .object [("from", Json.ofOption .integer o.start), ("to", Json.ofOption .integer o.stop),
    ("limit", Json.ofOption (fun (n : Nat) => .integer n) o.limit), ("is_forced", .bool o.forced)]

/-- Options from JSON. -/
def ofJson? (j : Json) : Option QueryOptions := do
  let f ← Json.fields? ["from", "to", "limit", "is_forced"] j
  return ⟨← f.defaulted "from" (Json.option? Json.int64?) none,
    ← f.defaulted "to" (Json.option? Json.int64?) none,
    ← f.defaulted "limit" (Json.option? Json.count?) none,
    ← f.defaulted "is_forced" Json.bool? false⟩

end QueryOptions

/-- A task that was started. -/
structure TaskHandle where
  id : String
  sources : List String
  range : TimeRange
deriving DecidableEq, Repr

/-- The engine. -/
structure Engine where
  registry : Registry
  config : EngineConfig
  cache : Cache
  /-- All tasks that were ever started, in order. -/
  tasks : List Task
  /-- The stream of updates. -/
  updates : List TaskUpdate

namespace Engine

/-- An engine without tasks. -/
def start (registry : Registry) (config : EngineConfig) : Engine :=
  ⟨registry, config, Cache.empty, [], []⟩

/-! ## Starting a task -/

/-- The key of filters that choose sources instead of records. -/
def sourceSelector : String := "source"

/-- Whether a filter chooses sources. -/
def selectsSource (f : PreFilter) : Bool := f.key = sourceSelector

/-- The range of a query. Without a start it looks back from its end. -/
def resolveRange [Machine] (config : EngineConfig) (now : Int) (o : QueryOptions) :
    Except EngineFault TimeRange := do
  let stop := o.stop.getD now
  let start ← match o.start with
    | some start => pure start
    | none =>
      match config.lookBackMillis with
      | .error e => throw (.config e)
      | .ok millis =>
        match Machine.word (stop - millis) with
        | some start => pure start
        | none => throw .brokenOff
  if stop ≤ start then throw (.invalidRange ⟨start, stop⟩)
  return ⟨start, stop⟩

/-- The sources that filters name, each once, in order; all have to be there. -/
def namedSources (r : Registry) (names : List String) : Except EngineFault (List String) :=
  match names.find? fun n => !r.hasInstance n with
  | some missing => .error (.registry (.unknownInstance missing))
  | none => .ok names.eraseDups

/-- The sources of a query: those that its filters name, else those of the profile, without those that
its filters exclude. -/
def resolveSources (r : Registry) (profile : String) (filters : List PreFilter) :
    Except EngineFault (List String) := do
  let selectors := filters.filter selectsSource
  let named := (selectors.filter fun f => f.op = .equal).map PreFilter.value
  let candidates ←
    if named.isEmpty then (r.profileInstances profile).mapError .registry
    else namedSources r named
  let excluding := selectors.filter fun f => f.op = .notEqual
  let chosen := candidates.filter fun name => excluding.all fun f => f.accepts name
  if chosen.isEmpty then throw .noInstances
  return chosen

/-- The rows of a report with the name of their source. -/
def stamp (source : String) (rows : List Record) : List Record :=
  rows.map fun r => r.set sourceField (.string source)

/-- Attaches a task to the fetch of one source. -/
def attach (c : Cache) (task : String) (forced : Bool) (selection : Selection) (range : TimeRange)
    (limit : Nat) (name : String) (source : Source) : Subtask × Cache :=
  let identity : CacheIdentity := ⟨selection, range, name⟩
  let response := source.respond ⟨selection, range, limit⟩
  let stamped := { response with batches := response.batches.map (stamp name) }
  let c := if forced then (c.forceRemove identity).2 else c
  let (id, _, c) := c.referenceOrAdd identity task stamped
  (⟨name, id⟩, c)

/-- Attaches a task to the fetches of sources. -/
def attachAll (c : Cache) (task : String) (forced : Bool) (selection : Selection)
    (range : TimeRange) (limit : Nat) : List (String × Source) → List Subtask × Cache
  | [] => ([], c)
  | (name, source) :: rest =>
    let (subtask, c) := attach c task forced selection range limit name source
    let (subtasks, c) := attachAll c task forced selection range limit rest
    (subtask :: subtasks, c)

variable [Regex.Library] [Machine]

/-- Starts a task with a fresh name. -/
def runQuery (e : Engine) (id profile text : String) (o : QueryOptions) (now : Int) :
    Except EngineFault (TaskHandle × Engine) := do
  let query ← (Query.parse? text).mapError .parse
  let range ← resolveRange e.config now o
  let names ← resolveSources e.registry profile query.preFilters
  let sources ← names.mapM fun n => (e.registry.source n).mapError .registry
  let selection : Selection :=
    ⟨query.preFilters.filter fun f => !selectsSource f, query.search⟩
  let limit := o.limit.getD e.config.limit
  let (subtasks, cache) := attachAll e.cache id o.forced selection range limit (names.zip sources)
  let task := Task.start id text query range subtasks
  return (⟨id, names, range⟩, { e with cache, tasks := e.tasks ++ [task] })

/-! ## Ending a task -/

/-- The task with a name, unless it was released. -/
def task? (e : Engine) (id : String) : Except EngineFault Task :=
  match e.tasks.find? fun t => t.listed && t.id = id with
  | some t => .ok t
  | none => .error (.taskNotFound id)

/-- Puts a task in the place of the one with its name. -/
def putTask (e : Engine) (t : Task) : Engine :=
  { e with tasks := e.tasks.map fun u => if u.id = t.id then t else u }

/-- Adds updates to the stream. -/
def publish (e : Engine) (updates : List TaskUpdate) : Engine :=
  { e with updates := e.updates ++ updates }

/-- Lets go of the fetches of a task, once. -/
def releaseReferences (e : Engine) (t : Task) : Engine :=
  if t.released then e.putTask t
  else
    { e with cache := t.subtasks.foldl (fun c (s : Subtask) => (c.release s.fetch t.id).2) e.cache }.putTask
      { t with released := true }

/-- Stops a running task. -/
def cancelQuery (e : Engine) (id : String) : Except EngineFault Engine := do
  let t ← e.task? id
  let (changed, t) := t.finish .canceled
  if !changed then return e
  return (e.releaseReferences { t with cancelled := true }).publish
    [.statusChanged id .canceled none]

/-- Stops a task if it is running, and forgets it. -/
def releaseTask (e : Engine) (id : String) : Except EngineFault Engine := do
  let t ← e.task? id
  let (changed, t) := t.finish .canceled
  let e := if changed then e.publish [.statusChanged id .canceled none] else e
  return e.releaseReferences { t with cancelled := true, listed := false }

/-! ## Progress -/

/-- Takes in rows that the source of a fetch reports from outside. -/
def report (e : Engine) (fetch : Nat) (rows : List Record) : Engine :=
  { e with cache := e.cache.modify fetch fun f => f.push (stamp f.identity.source rows) }

/-- Takes in the end of a source from outside. -/
def settle (e : Engine) (fetch : Nat) (outcome : Except SourceFault Unit) : Engine :=
  { e with cache := e.cache.modify fetch fun f => f.settle (.ofOutcome outcome) }

/-- How many sections a task does before it has to wait. -/
def sectionsPerTurn : Nat := 6

/-- Lets every task go on until it has to wait. -/
def runTasks (e : Engine) : Engine :=
  let ran := e.tasks.map fun t => t.run e.cache e.config.buckets sectionsPerTurn
  { e with tasks := ran.map Prod.fst, updates := e.updates ++ ran.flatMap Prod.snd }

/-- Lets every source take a turn, then every task go on. -/
def turn (e : Engine) : Engine := { e with cache := e.cache.turn }.runTasks

/-- Whether a turn has an effect. -/
def canTurn (e : Engine) : Bool := e.cache.canTurn || e.tasks.any fun t => t.canStep e.cache

/-- Turns while they have an effect. -/
def turns : Nat → Engine → Engine
  | 0, e => e
  | fuel + 1, e => if e.canTurn then turns fuel e.turn else e

/-- More turns than there can be an effect of. -/
def turnBound (e : Engine) : Nat :=
  e.cache.fetches.foldl (fun n f => n + f.response.batches.length + 3) 3

/-- Turns until nothing can go on. -/
def rest (e : Engine) : Engine := turns e.turnBound e

end Engine

end LogSearch
