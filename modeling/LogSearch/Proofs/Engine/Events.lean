import LogSearch.Engine.Basic
import LogSearch.Proofs.Cache.References
import LogSearch.Proofs.Failing
import Mathlib.Data.List.Nodup

/-!
# What can happen to an engine

Queries, and orders to stop or to forget a task, come in between any two sections of the sources
and of the tasks.

* `EngineEvent`, `Engine.step`, `Engine.after`: single sections, and runs in any order of them.
* `Plan`: what a query comes down to; `Engine.runQuery_eq`: starting a task is planning it, and
  attaching it to one fetch a source.
* `Engine.question?`, `Engine.questions`: the queries that the tasks of a run are started for.
* `Engine.cache_step`: to the cache, an event of the engine is a list of its own events;
  `Engine.Makes`, `Engine.makes_of_mem`: which ones they can be.
* `Task.Section`, `Task.section_of_step`: all that the next section of a task can be.
* `Engine.turn_eq_after`, `Engine.exists_rest_eq_after`: letting all go on is one of the runs.
-/

namespace LogSearch

/-! ## Plans -/

/-- A query with its options, and when it is asked. -/
structure Inquiry where
  profile : String
  text : String
  options : QueryOptions
  now : Int

/-- How many rows a query asks every source for. -/
def Inquiry.limit (config : EngineConfig) (q : Inquiry) : Nat := q.options.limit.getD config.limit

/-- What a query comes down to once it is accepted. -/
structure Plan where
  query : Query
  range : TimeRange
  /-- The sources to ask, with their names. -/
  sources : List (String × Source)

/-- The answer of a source for an identity, as the engine takes it in. -/
def CacheIdentity.response (i : CacheIdentity) (limit : Nat) (source : Source) : Response :=
  let response := source.respond ⟨i.selection, i.range, limit⟩
  { response with batches := response.batches.map (Engine.stamp i.source) }

namespace Plan

/-- The part of the query that decides about single records. -/
def selection (p : Plan) : Selection :=
  ⟨p.query.preFilters.filter fun f => !Engine.selectsSource f, p.query.search⟩

/-- What the fetch of a source is shared by. -/
def identity (p : Plan) (name : String) : CacheIdentity := ⟨p.selection, p.range, name⟩

/-- How a task gets the fetch of a source. -/
def attachEvents (p : Plan) (task : String) (forced : Bool) (limit : Nat) (s : String × Source) :
    List CacheEvent :=
  (if forced then [.forceRemove (p.identity s.1)] else []) ++
    [.referenceOrAdd (p.identity s.1) task ((p.identity s.1).response limit s.2)]

end Plan

namespace Engine

variable [Regex.Library] [Machine]

/-- The plan for a query. -/
def plan (r : Registry) (config : EngineConfig) (q : Inquiry) : Except EngineFault Plan := do
  let query ← (Query.parse? q.text).mapError .parse
  let range ← resolveRange config q.now q.options
  let names ← resolveSources r q.profile query.preFilters
  let sources ← names.mapM fun n => (r.source n).mapError .registry
  return ⟨query, range, names.zip sources⟩

omit [Machine] in
open Query in
/-- The empty text asks for everything. -/
theorem parse_empty : Query.parse? "" = .ok ⟨[], none, []⟩ := by
  have htokens : (tokenize "").tokens = [⟨.endOfInput, ⟨0, 0⟩, ""⟩] := by decide +kernel
  have hfaults : (tokenize "").faults = [] := by decide +kernel
  have hread : (parseTokens [⟨.endOfInput, ⟨0, 0⟩, ""⟩]).query = ⟨[], none, []⟩ ∧
      (parseTokens [⟨.endOfInput, ⟨0, 0⟩, ""⟩]).problems = [] := ⟨rfl, rfl⟩
  simp [Query.parse?, Query.parse, htokens, hfaults, hread, Query.lexicalProblems]

/-- The engine with a task for a plan. -/
def accept (e : Engine) (id : String) (q : Inquiry) (p : Plan) : Engine :=
  let (subtasks, cache) := attachAll e.cache id q.options.forced p.selection p.range
    (q.limit e.config) p.sources
  { e with cache, tasks := e.tasks ++ [Task.start id q.text p.query p.range subtasks] }

/-- A query is refused for want of a plan, and else its plan is carried out. -/
theorem runQuery_eq (e : Engine) (id : String) (q : Inquiry) :
    (e.runQuery id q.profile q.text q.options q.now).map Prod.snd =
      (plan e.registry e.config q).map (e.accept id q) := by
  unfold runQuery plan
  cases (Query.parse? q.text).mapError EngineFault.parse with
  | error fault => rfl
  | ok query =>
    cases resolveRange e.config q.now q.options with
    | error fault => rfl
    | ok range =>
      cases hnames : resolveSources e.registry q.profile query.preFilters with
      | error fault => simp [hnames, bind, Except.bind, Except.map]
      | ok names =>
        cases hsources : names.mapM fun n => (e.registry.source n).mapError EngineFault.registry with
        | error fault => simp [hnames, hsources, bind, Except.bind, Except.map]
        | ok sources =>
          simp [hnames, hsources, bind, Except.bind, Except.map, pure, Except.pure, accept,
            Plan.selection, Inquiry.limit]

/-- A plan comes from a text without problems, a range, and sources that the registry has. -/
theorem plan_eq_ok {r : Registry} {config : EngineConfig} {q : Inquiry} {p : Plan}
    (h : plan r config q = .ok p) :
    (Query.parse? q.text).mapError EngineFault.parse = .ok p.query ∧
      resolveRange config q.now q.options = .ok p.range ∧
      ∃ names sources, resolveSources r q.profile p.query.preFilters = .ok names ∧
        List.Forall₂ (fun n s => (r.source n).mapError EngineFault.registry = .ok s) names sources ∧
        p.sources = names.zip sources := by
  obtain ⟨query, hquery, h⟩ := bind_eq_ok.1 h
  obtain ⟨range, hrange, h⟩ := bind_eq_ok.1 h
  obtain ⟨names, hnames, h⟩ := bind_eq_ok.1 h
  obtain ⟨sources, hsources, h⟩ := bind_eq_ok.1 h
  cases h
  exact ⟨hquery, hrange, names, sources, hnames, forall₂_of_mapM hsources, rfl⟩

/-- A plan asks the sources that the registry has under their names. -/
theorem source_of_mem_plan {r : Registry} {config : EngineConfig} {q : Inquiry} {p : Plan}
    (h : plan r config q = .ok p) {s : String × Source} (hmem : s ∈ p.sources) :
    r.source s.1 = .ok s.2 := by
  obtain ⟨-, -, names, sources, -, hsources, hzip⟩ := plan_eq_ok h
  rw [hzip] at hmem
  have hsource := List.forall₂_zip hsources hmem
  cases hs : r.source s.1 with
  | error fault => simp [hs, Except.mapError] at hsource
  | ok source =>
    simp only [hs, Except.mapError, Except.ok.injEq] at hsource
    rw [hsource]

end Engine

/-! ## Events -/

/-- What can happen to an engine. The sections of fetches and of tasks are named by position. -/
inductive EngineEvent
  | run (task : String) (q : Inquiry)
  | cancel (task : String)
  | release (task : String)
  /-- Rows for a fetch come from outside. -/
  | report (fetch : Nat) (rows : List Record)
  /-- The end of a fetch comes from outside. -/
  | settle (fetch : Nat) (outcome : Except SourceFault Unit)
  /-- A fetch goes on by itself. -/
  | fetchTurn (fetch : Nat)
  /-- A task does its next section. -/
  | taskStep (task : Nat)

namespace EngineEvent

/-- Whether the event is the engine's own: neither a report from outside nor an end from there. -/
def isInternal : EngineEvent → Bool
  | .report .. | .settle .. => false
  | _ => true

/-- Whether a fetch or a task goes on. -/
def isProgress : EngineEvent → Bool
  | .fetchTurn _ | .taskStep _ => true
  | _ => false

end EngineEvent

namespace Engine

variable [Regex.Library] [Machine]

/-- The next section of a task. -/
def stepTask (e : Engine) (i : Nat) : Engine :=
  match e.tasks[i]? with
  | none => e
  | some t =>
    { e with
      tasks := e.tasks.set i (t.step e.cache e.config.buckets).1
      updates := e.updates ++ (t.step e.cache e.config.buckets).2 }

/-- The engine after an event. An event that is refused changes nothing, and the name of a task is
never used again. -/
def step (e : Engine) : EngineEvent → Engine
  | .run id q =>
    if id ∈ e.tasks.map Task.id then e
    else
      match plan e.registry e.config q with
      | .ok p => e.accept id q p
      | .error _ => e
  | .cancel id => (e.cancelQuery id).toOption.getD e
  | .release id => (e.releaseTask id).toOption.getD e
  | .report fetch rows => e.report fetch rows
  | .settle fetch outcome => e.settle fetch outcome
  | .fetchTurn fetch => { e with cache := e.cache.modify fetch Fetch.turn }
  | .taskStep i => e.stepTask i

/-- The engine after events. -/
def after (e : Engine) (events : List EngineEvent) : Engine := events.foldl step e

/-- Events one after another are events of the engine in between. -/
theorem after_append (e : Engine) (events more : List EngineEvent) :
    e.after (events ++ more) = (e.after events).after more := by
  simp [after]

/-! ## What an event does to the cache -/

/-- How a task lets go of its fetches, which it does once. -/
def letGoEvents (t : Task) : List CacheEvent :=
  if t.released then [] else t.subtasks.map fun s => .release s.fetch t.id

/-- The events of the cache that make up an event of the engine. -/
def cacheEvents (e : Engine) : EngineEvent → List CacheEvent
  | .run id q =>
    if id ∈ e.tasks.map Task.id then []
    else
      match plan e.registry e.config q with
      | .ok p => p.sources.flatMap (p.attachEvents id q.options.forced (q.limit e.config))
      | .error _ => []
  | .cancel id =>
    match e.task? id with
    | .ok t => if t.status = .running then letGoEvents t else []
    | .error _ => []
  | .release id =>
    match e.task? id with
    | .ok t => letGoEvents t
    | .error _ => []
  | .report fetch rows =>
    ((e.cache.fetch? fetch).map fun f => .push fetch (stamp f.identity.source rows)).toList
  | .settle fetch outcome => [.settle fetch outcome]
  | .fetchTurn fetch => [.turn fetch]
  | .taskStep _ => []

/-- Which events of the cache an event of the engine can make. -/
inductive Makes (e : Engine) : EngineEvent → CacheEvent → Prop
  | forceRemove {id : String} {q : Inquiry} {p : Plan} {s : String × Source}
      (hplan : plan e.registry e.config q = .ok p) (hs : s ∈ p.sources) :
      Makes e (.run id q) (.forceRemove (p.identity s.1))
  | referenceOrAdd {id : String} {q : Inquiry} {p : Plan} {s : String × Source}
      (hplan : plan e.registry e.config q = .ok p) (hs : s ∈ p.sources) :
      Makes e (.run id q)
        (.referenceOrAdd (p.identity s.1) id ((p.identity s.1).response (q.limit e.config) s.2))
  | cancel {id : String} {t : Task} {s : Subtask} (hfind : e.task? id = .ok t)
      (hrunning : t.status = .running) (hs : s ∈ t.subtasks) :
      Makes e (.cancel id) (.release s.fetch t.id)
  | release {id : String} {t : Task} {s : Subtask} (hfind : e.task? id = .ok t)
      (hs : s ∈ t.subtasks) : Makes e (.release id) (.release s.fetch t.id)
  | report {fetch : Nat} {rows : List Record} {f : Fetch} (hf : e.cache.fetch? fetch = some f) :
      Makes e (.report fetch rows) (.push fetch (stamp f.identity.source rows))
  | settle (fetch : Nat) (outcome : Except SourceFault Unit) :
      Makes e (.settle fetch outcome) (.settle fetch outcome)
  | turn (fetch : Nat) : Makes e (.fetchTurn fetch) (.turn fetch)

omit [Regex.Library] [Machine] in
/-- A task lets go of fetches that its parts refer to, in its own name. -/
theorem mem_letGoEvents {t : Task} {c : CacheEvent} (h : c ∈ letGoEvents t) :
    ∃ s ∈ t.subtasks, c = .release s.fetch t.id := by
  unfold letGoEvents at h
  split at h
  · exact absurd h List.not_mem_nil
  · obtain ⟨s, hs, rfl⟩ := List.mem_map.1 h
    exact ⟨s, hs, rfl⟩

omit [Regex.Library] [Machine] in
/-- A task gets the fetch of a source by its identity, after dropping the old one if it is forced. -/
theorem mem_attachEvents {p : Plan} {task : String} {forced : Bool} {limit : Nat}
    {s : String × Source} {c : CacheEvent} (h : c ∈ p.attachEvents task forced limit s) :
    c = .forceRemove (p.identity s.1) ∨
      c = .referenceOrAdd (p.identity s.1) task ((p.identity s.1).response limit s.2) := by
  unfold Plan.attachEvents at h
  rcases List.mem_append.1 h with h | h
  · split at h
    · exact .inl (List.mem_singleton.1 h)
    · exact absurd h List.not_mem_nil
  · exact .inr (List.mem_singleton.1 h)

/-- What an event does to the cache is one of the events that it can make there. -/
theorem makes_of_mem {e : Engine} {ev : EngineEvent} {c : CacheEvent} (h : c ∈ e.cacheEvents ev) :
    e.Makes ev c := by
  cases ev with
  | run id q =>
    simp only [cacheEvents] at h
    split at h
    · exact absurd h List.not_mem_nil
    split at h
    · next p hplan =>
      obtain ⟨s, hs, hc⟩ := List.mem_flatMap.1 h
      obtain rfl | rfl := mem_attachEvents hc
      · exact .forceRemove hplan hs
      · exact .referenceOrAdd hplan hs
    · exact absurd h List.not_mem_nil
  | cancel id =>
    simp only [cacheEvents] at h
    split at h
    · next t hfind =>
      split at h
      · next hrunning =>
        obtain ⟨s, hs, rfl⟩ := mem_letGoEvents h
        exact .cancel hfind hrunning hs
      · exact absurd h List.not_mem_nil
    · exact absurd h List.not_mem_nil
  | release id =>
    simp only [cacheEvents] at h
    split at h
    · next t hfind =>
      obtain ⟨s, hs, rfl⟩ := mem_letGoEvents h
      exact .release hfind hs
    · exact absurd h List.not_mem_nil
  | report fetch rows =>
    simp only [cacheEvents, Option.mem_toList, Option.map_eq_some_iff] at h
    obtain ⟨f, hf, rfl⟩ := h
    exact .report hf
  | settle fetch outcome =>
    rw [cacheEvents, List.mem_singleton] at h
    subst h
    exact .settle fetch outcome
  | fetchTurn fetch =>
    rw [cacheEvents, List.mem_singleton] at h
    subst h
    exact .turn fetch
  | taskStep i => exact absurd h List.not_mem_nil

omit [Regex.Library] [Machine] in
/-- Attaching a task to one source does to the cache what its events do. -/
theorem attach_cache (c : Cache) (task : String) (forced : Bool) (p : Plan) (limit : Nat)
    (s : String × Source) :
    (attach c task forced p.selection p.range limit s.1 s.2).2 =
      c.after (p.attachEvents task forced limit s) := by
  cases forced <;> rfl

omit [Regex.Library] [Machine] in
/-- Attaching a task to sources does to the cache what their events do, source by source. -/
theorem attachAll_cache (c : Cache) (task : String) (forced : Bool) (p : Plan) (limit : Nat)
    (sources : List (String × Source)) :
    (attachAll c task forced p.selection p.range limit sources).2 =
      c.after (sources.flatMap (p.attachEvents task forced limit)) := by
  induction sources generalizing c with
  | nil => rfl
  | cons s rest ih =>
    rw [List.flatMap_cons, Cache.after_append, ← attach_cache]
    exact ih (attach c task forced p.selection p.range limit s.1 s.2).2

omit [Regex.Library] [Machine] in
/-- Letting go does to the cache what the releases of the task do. -/
theorem releaseReferences_cache (e : Engine) (t : Task) :
    (e.releaseReferences t).cache = e.cache.after (letGoEvents t) := by
  unfold releaseReferences letGoEvents
  split
  · rfl
  · unfold Cache.after
    rw [List.foldl_map]
    rfl

/-- An event does to the cache what its own events there do. -/
theorem cache_step (e : Engine) (ev : EngineEvent) :
    (e.step ev).cache = e.cache.after (e.cacheEvents ev) := by
  cases ev with
  | run id q =>
    simp only [step, cacheEvents]
    split
    · rfl
    · cases plan e.registry e.config q with
      | error fault => rfl
      | ok p => exact attachAll_cache e.cache id _ p _ p.sources
  | cancel id =>
    simp only [step, cacheEvents, cancelQuery]
    cases e.task? id with
    | error fault => rfl
    | ok t =>
      by_cases hrunning : t.status = .running
      · simp [bind, Except.bind, pure, Except.pure, Except.toOption, Task.finish, hrunning, publish,
          releaseReferences_cache, letGoEvents]
      · simp [bind, Except.bind, pure, Except.pure, Except.toOption, Task.finish, hrunning,
          Cache.after]
  | release id =>
    simp only [step, cacheEvents, releaseTask]
    cases e.task? id with
    | error fault => rfl
    | ok t =>
      by_cases hrunning : t.status = .running <;>
        simp [bind, Except.bind, pure, Except.pure, Except.toOption, Task.finish, hrunning, publish,
          releaseReferences_cache, letGoEvents]
  | report fetch rows =>
    simp only [step, cacheEvents, report]
    cases hf : e.cache.fetch? fetch with
    | none =>
      unfold Cache.modify
      rw [List.modify_eq_self]
      · rfl
      · exact List.getElem?_eq_none_iff.1 hf
    | some f =>
      refine Cache.modify_congr e.cache fetch fun g hg => ?_
      rw [hf] at hg
      cases hg
      rfl
  | settle fetch outcome => rfl
  | fetchTurn fetch => rfl
  | taskStep i =>
    simp only [step, cacheEvents, stepTask]
    cases e.tasks[i]? <;> rfl

/-! ## What an event does to the tasks -/

end Engine

/-- A view shows results: they are its own, and the index and the histogram are of their events. -/
structure TaskView.Shows [Machine] (v : TaskView) (range : TimeRange) (buckets : Nat) (r : Results) :
    Prop where
  results : v.results = r
  index : v.index = TimeIndex.ofEvents r.events
  histogram : Histogram.ofEvents? r.events range buckets = some v.histogram

namespace TaskView

variable [Machine] {range : TimeRange} {buckets : Nat} {v w : TaskView} {r : Results}

/-- Results that are published are shown. -/
theorem shows_of_publish (h : v.publish range buckets r = (true, w)) : w.Shows range buckets r := by
  unfold publish at h
  split at h
  · next histogram hhistogram =>
    cases h
    exact ⟨rfl, rfl, hhistogram⟩
  · cases h

/-- There is one view that shows some results. -/
theorem Shows.unique (hv : v.Shows range buckets r) (hw : w.Shows range buckets r) : v = w := by
  have hresults := hv.results.trans hw.results.symm
  have hindex := hv.index.trans hw.index.symm
  have hhistogram := Option.some.inj (hv.histogram.symm.trans hw.histogram)
  cases v
  cases w
  exact (TaskView.mk.injEq ..).mpr ⟨hresults, hindex, hhistogram⟩

/-- Results without a histogram have their index published and nothing else. -/
theorem uncounted_of_publish (h : v.publish range buckets r = (false, w)) :
    Histogram.ofEvents? r.events range buckets = none ∧
      w = { v with index := TimeIndex.ofEvents r.events } := by
  unfold publish at h
  split at h
  · cases h
  · next hhistogram =>
    cases h
    exact ⟨hhistogram, rfl⟩

end TaskView

namespace Task

/-- The task once it is told to stop. -/
def stopped (t : Task) : Task := { (t.finish .canceled).2 with cancelled := true, released := true }

/-- The task without what it has worked out so far. -/
def setup (t : Task) : Task :=
  { t with status := .running, view := .empty, error := none, phase := .starting }

/-- Going on leaves the orders to the task. -/
theorem setup_proceed (c : Cache) (t : Task) (seen : List Nat) :
    (t.proceed c seen).setup = t.setup := by
  unfold proceed
  split
  · rfl
  · split <;> rfl

/-- Moving to a status leaves the orders to the task. -/
theorem setup_finish (t : Task) (status : TaskStatus) : (t.finish status).2.setup = t.setup := by
  unfold finish
  split <;> rfl

/-- A conclusion leaves the orders to the task. -/
theorem setup_conclude (c : Cache) (t : Task) (succeeded : Bool) :
    (t.conclude c succeeded).1.setup = t.setup := by
  unfold conclude
  exact setup_finish _ _

/-- With its conclusion a task ends. -/
theorem phase_conclude (c : Cache) (t : Task) (succeeded : Bool) :
    (t.conclude c succeeded).1.phase = .ended := by
  simp only [conclude, finish]
  split <;> rfl

/-- A conclusion leaves what the task shows. -/
theorem view_conclude (c : Cache) (t : Task) (succeeded : Bool) :
    (t.conclude c succeeded).1.view = t.view := by
  simp only [conclude, finish]
  split <;> rfl

/-- Tasks with the same orders have the same name, query, range and parts, and were told the same. -/
theorem fields_of_setup {t u : Task} (h : u.setup = t.setup) :
    (u.id = t.id ∧ u.query = t.query ∧ u.range = t.range ∧ u.subtasks = t.subtasks) ∧
      u.cancelled = t.cancelled ∧ u.released = t.released := by
  simp only [setup, Task.mk.injEq] at h
  obtain ⟨hid, -, hquery, hrange, hsubtasks, hcancelled, -, hreleased, -⟩ := h
  exact ⟨⟨hid, hquery, hrange, hsubtasks⟩, hcancelled, hreleased⟩

/-- Tasks with the same orders have the same parts. -/
theorem subtasks_eq_of_setup {t u : Task} (h : u.setup = t.setup) : u.subtasks = t.subtasks :=
  (fields_of_setup h).1.2.2.2

/-- Tasks with the same orders are both told to stop, or neither is. -/
theorem cancelled_eq_of_setup {t u : Task} (h : u.setup = t.setup) : u.cancelled = t.cancelled :=
  (fields_of_setup h).2.1

/-- Tasks with the same orders have both let go, or neither has. -/
theorem released_eq_of_setup {t u : Task} (h : u.setup = t.setup) : u.released = t.released :=
  (fields_of_setup h).2.2

/-- A task that is told to stop keeps its name. -/
theorem id_stopped (t : Task) : t.stopped.id = t.id := by
  unfold stopped finish
  split <;> rfl

/-- A task that is told to stop notices it only in its next section. -/
theorem phase_stopped (t : Task) : t.stopped.phase = t.phase := by
  unfold stopped finish
  split <;> rfl

variable [Regex.Library] [Machine]

/-- What an event can make of the task at a position. -/
inductive Change (e : Engine) (j : Nat) (t : Task) : EngineEvent → Task → Prop
  | same (ev : EngineEvent) : Change e j t ev t
  | cancel (hlisted : t.listed = true) (hrunning : t.status = .running) :
    Change e j t (.cancel t.id) t.stopped
  | release (hlisted : t.listed = true) :
    Change e j t (.release t.id) { t.stopped with listed := false }
  | step : Change e j t (.taskStep j) (t.step e.cache e.config.buckets).1

/-- All that a run of the pipeline over some rows can be, with what it makes of the task and what it
publishes. -/
inductive Ran (buckets : Nat) (t : Task) (rows : List Record) :
    RunEnd → Task → List TaskUpdate → Prop
  /-- A task that is to stop does not run the pipeline. -/
  | skipped (hcancelled : t.cancelled = true) : Ran buckets t rows .failed t []
  | succeeded {results : Results} {view : TaskView} (hcancelled : t.cancelled = false)
    (hrun : runPipeline t.range t.query.pipeline rows = .ok results)
    (hview : view.Shows t.range buckets results) :
    Ran buckets t rows .succeeded { t with view, error := none } [.batchDone t.id view.summary]
  /-- There are results, but no histogram of them. -/
  | uncounted {results : Results} (hcancelled : t.cancelled = false)
    (hrun : runPipeline t.range t.query.pipeline rows = .ok results)
    (hhistogram : Histogram.ofEvents? results.events t.range buckets = none) :
    Ran buckets t rows .brokenOff
      { t with view := { t.view with index := TimeIndex.ofEvents results.events } } []
  | failed {fault : StageFault} (hcancelled : t.cancelled = false)
    (hrun : runPipeline t.range t.query.pipeline rows = .error fault)
    (hstops : fault.stops = false) :
    Ran buckets t rows .failed { t with error := some fault.message }
      [.stageFailed t.id fault.message]
  /-- A stage is broken off. -/
  | stopped {fault : StageFault} (hcancelled : t.cancelled = false)
    (hrun : runPipeline t.range t.query.pipeline rows = .error fault)
    (hstops : fault.stops = true) : Ran buckets t rows .brokenOff t []

/-- A run of the pipeline is one of those that there can be. -/
theorem ran_of_compute {buckets : Nat} {t u : Task} {rows : List Record} {runEnd : RunEnd}
    {told : List TaskUpdate} (h : t.compute buckets rows = (runEnd, u, told)) :
    t.Ran buckets rows runEnd u told := by
  unfold compute at h
  split at h
  · next hcancelled =>
    cases h
    exact .skipped hcancelled
  next hcancelled =>
  rw [Bool.not_eq_true] at hcancelled
  split at h
  · next results hrun =>
    split at h
    · next view hview =>
      cases h
      exact .succeeded hcancelled hrun (TaskView.shows_of_publish hview)
    · next view hview =>
      cases h
      obtain ⟨hhistogram, rfl⟩ := TaskView.uncounted_of_publish hview
      exact .uncounted hcancelled hrun hhistogram
  · next fault hrun =>
    split at h
    · next hstops =>
      cases h
      exact .stopped hcancelled hrun hstops
    · next hstops =>
      cases h
      exact .failed hcancelled hrun (Bool.eq_false_iff.2 hstops)

section

variable {buckets : Nat} {t u : Task} {rows : List Record} {runEnd : RunEnd} {told : List TaskUpdate}

/-- A run of the pipeline leaves the orders to the task. -/
theorem Ran.setup_eq (h : t.Ran buckets rows runEnd u told) : u.setup = t.setup := by
  cases h <;> rfl

/-- A run of the pipeline does not decide what comes next. -/
theorem Ran.phase_eq (h : t.Ran buckets rows runEnd u told) : u.phase = t.phase := by
  cases h <;> rfl

/-- A run of the pipeline leaves the status. -/
theorem Ran.status_eq (h : t.Ran buckets rows runEnd u told) : u.status = t.status := by
  cases h <;> rfl

end

/-- What the next section of a task can be, with what it makes of the task and what it publishes. -/
inductive Section (c : Cache) (buckets : Nat) (t : Task) : Task → List TaskUpdate → Prop
  | start (hphase : t.phase = .starting) : Section c buckets t (t.proceed c (t.versions c)) []
  | stop {seen : List Nat} (hphase : t.phase = .waiting seen) (hcancelled : t.cancelled = true) :
    Section c buckets t { t with phase := .ended } []
  | wait {seen : List Nat} (hphase : t.phase = .waiting seen) (hcancelled : t.cancelled = false)
    (hseen : t.versions c = seen) : Section c buckets t t []
  | settled {seen : List Nat} (hphase : t.phase = .waiting seen) (hcancelled : t.cancelled = false)
    (hsettled : t.isSettled c = true) : Section c buckets t (t.proceed c (t.versions c)) []
  | arrival {seen : List Nat} (hphase : t.phase = .waiting seen) (hcancelled : t.cancelled = false)
    (hsettled : t.isSettled c = false) :
    Section c buckets t { t with phase := .computing (t.mergedRows c) (t.versions c) false } []
  | compute {rows : List Record} {seen : List Nat} {runEnd : RunEnd} {u : Task}
    {told : List TaskUpdate} (hphase : t.phase = .computing rows seen false)
    (hran : t.Ran buckets rows runEnd u told) (hend : runEnd ≠ .brokenOff) :
    Section c buckets t (u.proceed c seen) told
  | computeLast {rows : List Record} {seen : List Nat} {runEnd : RunEnd} {u : Task}
    {told : List TaskUpdate} (hphase : t.phase = .computing rows seen true)
    (hran : t.Ran buckets rows runEnd u told) (hend : runEnd ≠ .brokenOff) :
    Section c buckets t { u with phase := .concluding (runEnd = .succeeded) } told
  | breakOff {rows : List Record} {seen : List Nat} {last : Bool} {u : Task}
    {told : List TaskUpdate} (hphase : t.phase = .computing rows seen last)
    (hran : t.Ran buckets rows .brokenOff u told) :
    Section c buckets t { u with phase := .brokenOff } told
  | conclude {succeeded : Bool} (hphase : t.phase = .concluding succeeded) :
    Section c buckets t (t.conclude c succeeded).1 (t.conclude c succeeded).2
  | rest (hphase : t.phase = .ended ∨ t.phase = .brokenOff) : Section c buckets t t []

/-- What a task does next is one of the sections that there are. -/
theorem section_of_step (c : Cache) (buckets : Nat) (t : Task) :
    ∃ u told, t.step c buckets = (u, told) ∧ t.Section c buckets u told := by
  refine ⟨(t.step c buckets).1, (t.step c buckets).2, rfl, ?_⟩
  cases hphase : t.phase with
  | starting =>
    simp only [step, hphase]
    exact .start hphase
  | waiting seen =>
    simp only [step, hphase]
    split
    · next hcancelled => exact .stop hphase hcancelled
    next hcancelled =>
    rw [Bool.not_eq_true] at hcancelled
    split
    · next hseen => exact .wait hphase hcancelled hseen
    split
    · next hsettled => exact .settled hphase hcancelled hsettled
    · next hsettled => exact .arrival hphase hcancelled (Bool.eq_false_iff.2 hsettled)
  | computing rows seen last =>
    simp only [step, hphase]
    split
    · next u told hcompute => exact .breakOff hphase (ran_of_compute hcompute)
    next runEnd u told hend hcompute =>
    have hran := ran_of_compute hcompute
    cases last with
    | true => exact .computeLast hphase hran hend
    | false => exact .compute hphase hran hend
  | concluding succeeded =>
    simp only [step, hphase]
    exact .conclude hphase
  | ended =>
    simp only [step, hphase]
    exact .rest (.inl hphase)
  | brokenOff =>
    simp only [step, hphase]
    exact .rest (.inr hphase)

/-- A section changes nothing but what the task has worked out. -/
theorem setup_step (c : Cache) (buckets : Nat) (t : Task) : (t.step c buckets).1.setup = t.setup := by
  obtain ⟨u, told, hstep, hsection⟩ := t.section_of_step c buckets
  rw [hstep]
  cases hsection with
  | start | settled => exact setup_proceed c t _
  | stop | wait | arrival | rest => rfl
  | compute _ hran => exact (setup_proceed c _ _).trans hran.setup_eq
  | computeLast _ hran => exact hran.setup_eq
  | breakOff _ hran => exact hran.setup_eq
  | conclude => exact setup_conclude c t _

/-- An event changes neither the name of a task nor what it is about. -/
theorem Change.kept {e : Engine} {j : Nat} {t u : Task} {ev : EngineEvent} (h : Change e j t ev u) :
    u.id = t.id ∧ u.query = t.query ∧ u.range = t.range ∧ u.subtasks = t.subtasks := by
  have hstopped : t.stopped.id = t.id ∧ t.stopped.query = t.query ∧ t.stopped.range = t.range ∧
      t.stopped.subtasks = t.subtasks := by
    unfold stopped finish
    split <;> exact ⟨rfl, rfl, rfl, rfl⟩
  cases h with
  | same => exact ⟨rfl, rfl, rfl, rfl⟩
  | cancel => exact hstopped
  | release => exact hstopped
  | step => exact (fields_of_setup (setup_step e.cache e.config.buckets t)).1

/-- A task that is broken off stays so. -/
theorem Change.phase_eq_brokenOff {e : Engine} {j : Nat} {t u : Task} {ev : EngineEvent}
    (h : Change e j t ev u) (hphase : t.phase = .brokenOff) : u.phase = .brokenOff := by
  cases h with
  | same => exact hphase
  | cancel => exact t.phase_stopped.trans hphase
  | release => exact t.phase_stopped.trans hphase
  | step =>
    simp only [Task.step, hphase]

/-- A task keeps its name. -/
theorem Change.id_eq {e : Engine} {j : Nat} {t u : Task} {ev : EngineEvent}
    (h : Change e j t ev u) : u.id = t.id := h.kept.1

/-- A task keeps its parts. -/
theorem Change.subtasks_eq {e : Engine} {j : Nat} {t u : Task} {ev : EngineEvent}
    (h : Change e j t ev u) : u.subtasks = t.subtasks := h.kept.2.2.2

end Task

namespace Engine

/-- A task that is found is listed under its name. -/
theorem task?_eq_ok {e : Engine} {id : String} {t : Task} (h : e.task? id = .ok t) :
    t ∈ e.tasks ∧ t.listed = true ∧ t.id = id := by
  unfold task? at h
  split at h
  · next u hfind =>
    cases h
    have hfound := List.find?_some hfind
    rw [Bool.and_eq_true, decide_eq_true_eq] at hfound
    exact ⟨List.mem_of_find?_eq_some hfind, hfound⟩
  · cases h

/-- Tasks with different names are told apart by their names. -/
theorem eq_of_id {e : Engine} (hnames : (e.tasks.map Task.id).Nodup) {t u : Task} (ht : t ∈ e.tasks)
    (hu : u ∈ e.tasks) (h : t.id = u.id) : t = u :=
  List.inj_on_of_nodup_map hnames ht hu h

/-- Tasks with different names have their own positions. -/
theorem position_of_id {e : Engine} (hnames : (e.tasks.map Task.id).Nodup) {i j : Nat} {t u : Task}
    (ht : e.tasks[i]? = some t) (hu : e.tasks[j]? = some u) (h : t.id = u.id) : i = j := by
  have hat : (e.tasks.map Task.id)[i]? = (e.tasks.map Task.id)[j]? := by
    rw [List.getElem?_map, List.getElem?_map, ht, hu, Option.map_some, Option.map_some, h]
  have hlt : i < (e.tasks.map Task.id).length := by
    rw [List.length_map]
    exact (List.getElem?_eq_some_iff.1 ht).1
  exact (List.getElem?_inj hlt hnames).1 hat

/-- Letting go changes the task of that name alone. -/
theorem tasks_releaseReferences (e : Engine) (t : Task) :
    (e.releaseReferences t).tasks =
      e.tasks.map fun u => if u.id = t.id then { t with released := true } else u := by
  unfold releaseReferences
  split
  · next h => rw [← h]; rfl
  · rfl

variable [Regex.Library] [Machine]

/-- Orders for a task that is not there are refused. -/
theorem step_of_missing {e : Engine} {id : String} {fault : EngineFault}
    (h : e.task? id = .error fault) : e.step (.cancel id) = e ∧ e.step (.release id) = e := by
  simp [step, cancelQuery, releaseTask, h, bind, Except.bind, Except.toOption]

/-- An order to stop reaches the task that is found, if it is running. -/
theorem tasks_step_cancel {e : Engine} {id : String} {t : Task} (h : e.task? id = .ok t) :
    (e.step (.cancel id)).tasks =
      if t.status = .running then e.tasks.map fun u => if u.id = t.id then t.stopped else u
      else e.tasks := by
  simp only [step, cancelQuery, h]
  by_cases hrunning : t.status = .running
  · simp [bind, Except.bind, pure, Except.pure, Except.toOption, Task.finish, hrunning, publish,
      tasks_releaseReferences, Task.stopped]
  · simp [bind, Except.bind, pure, Except.pure, Except.toOption, Task.finish, hrunning]

/-- A release stops the task that is found, and takes it off the list. -/
theorem tasks_step_release {e : Engine} {id : String} {t : Task} (h : e.task? id = .ok t) :
    (e.step (.release id)).tasks =
      e.tasks.map fun u => if u.id = t.id then { t.stopped with listed := false } else u := by
  simp only [step, releaseTask, h]
  by_cases hrunning : t.status = .running <;>
    simp [bind, Except.bind, pure, Except.pure, Except.toOption, Task.finish, hrunning, publish,
      tasks_releaseReferences, Task.stopped]

/-- The task that an event starts. -/
def started? (e : Engine) : EngineEvent → Option Task
  | .run id q =>
    if id ∈ e.tasks.map Task.id then none
    else
      match plan e.registry e.config q with
      | .ok p =>
        some (Task.start id q.text p.query p.range (attachAll e.cache id q.options.forced p.selection
          p.range (q.limit e.config) p.sources).1)
      | .error _ => none
  | _ => none

/-- A task stays, and an event changes it in one of the ways of `Task.Change`. -/
theorem task_step {e : Engine} (hnames : (e.tasks.map Task.id).Nodup) {j : Nat} {t : Task}
    (h : e.tasks[j]? = some t) (ev : EngineEvent) :
    ∃ u, (e.step ev).tasks[j]? = some u ∧ Task.Change e j t ev u := by
  have hmem : t ∈ e.tasks := List.mem_of_getElem? h
  have hput : ∀ (found changed : Task), found ∈ e.tasks → (t = found → Task.Change e j t ev changed) →
      ∃ u, (e.tasks.map fun u => if u.id = found.id then changed else u)[j]? = some u ∧
        Task.Change e j t ev u := by
    intro found changed hfound hchange
    rw [List.getElem?_map, h]
    by_cases hid : t.id = found.id
    · exact ⟨changed, by rw [Option.map_some, if_pos hid], hchange (eq_of_id hnames hmem hfound hid)⟩
    · exact ⟨t, by rw [Option.map_some, if_neg hid], .same ev⟩
  cases ev with
  | run id q =>
    simp only [step]
    split
    · exact ⟨t, h, .same _⟩
    · cases plan e.registry e.config q with
      | error fault => exact ⟨t, h, .same _⟩
      | ok p =>
        have hlt : j < e.tasks.length := (List.getElem?_eq_some_iff.1 h).1
        refine ⟨t, ?_, .same _⟩
        simpa [accept, List.getElem?_append_left hlt] using h
  | cancel id =>
    cases hfind : e.task? id with
    | error fault => exact ⟨t, by rw [(step_of_missing hfind).1]; exact h, .same _⟩
    | ok found =>
      obtain ⟨hfound, hlisted, rfl⟩ := task?_eq_ok hfind
      rw [tasks_step_cancel hfind]
      split
      · next hrunning =>
        refine hput found _ hfound fun heq => ?_
        subst heq
        exact .cancel hlisted hrunning
      · exact ⟨t, h, .same _⟩
  | release id =>
    cases hfind : e.task? id with
    | error fault => exact ⟨t, by rw [(step_of_missing hfind).2]; exact h, .same _⟩
    | ok found =>
      obtain ⟨hfound, hlisted, rfl⟩ := task?_eq_ok hfind
      rw [tasks_step_release hfind]
      refine hput found _ hfound fun heq => ?_
      subst heq
      exact .release hlisted
  | report fetch rows => exact ⟨t, h, .same _⟩
  | settle fetch outcome => exact ⟨t, h, .same _⟩
  | fetchTurn fetch => exact ⟨t, h, .same _⟩
  | taskStep i =>
    simp only [step, stepTask]
    by_cases hij : i = j
    · subst hij
      have hlt : i < e.tasks.length := (List.getElem?_eq_some_iff.1 h).1
      simp only [h]
      exact ⟨_, by rw [List.getElem?_set_self hlt], .step⟩
    · cases e.tasks[i]? with
      | none => exact ⟨t, h, .same _⟩
      | some other => exact ⟨t, by rw [← h]; exact List.getElem?_set_ne hij, .same _⟩

/-- A task is started for a query that is asked under a new name and has a plan. -/
theorem started?_eq_some {e : Engine} {ev : EngineEvent} {t : Task} (h : e.started? ev = some t) :
    ∃ id q p, ev = .run id q ∧ id ∉ e.tasks.map Task.id ∧ plan e.registry e.config q = .ok p ∧
      e.step ev = e.accept id q p ∧
      t = Task.start id q.text p.query p.range (attachAll e.cache id q.options.forced p.selection
        p.range (q.limit e.config) p.sources).1 := by
  cases ev with
  | run id q =>
    simp only [started?] at h
    split at h
    · cases h
    · next hnew =>
      split at h
      · next p hp =>
        cases h
        refine ⟨id, q, p, rfl, hnew, hp, ?_, rfl⟩
        simp only [step, if_neg hnew, hp]
      · cases h
  | cancel | release | report | settle | fetchTurn | taskStep => cases h

/-- A task that an event starts comes behind the others. -/
theorem tasks_of_started {e : Engine} {ev : EngineEvent} {t : Task} (h : e.started? ev = some t) :
    (e.step ev).tasks = e.tasks ++ [t] := by
  obtain ⟨id, q, p, -, -, -, hstep, rfl⟩ := started?_eq_some h
  rw [hstep]
  rfl

/-- An event that starts no task leaves their number. -/
theorem length_tasks_of_not_started {e : Engine} {ev : EngineEvent} (h : e.started? ev = none) :
    (e.step ev).tasks.length = e.tasks.length := by
  cases ev with
  | run id q =>
    simp only [started?, step] at h ⊢
    split
    · rfl
    · next hnew =>
      rw [if_neg hnew] at h
      split at h
      · cases h
      · rfl
  | cancel id =>
    cases hfind : e.task? id with
    | error fault => rw [(step_of_missing hfind).1]
    | ok t =>
      rw [tasks_step_cancel hfind]
      split
      · rw [List.length_map]
      · rfl
  | release id =>
    cases hfind : e.task? id with
    | error fault => rw [(step_of_missing hfind).2]
    | ok t => rw [tasks_step_release hfind, List.length_map]
  | report | settle | fetchTurn => rfl
  | taskStep i =>
    simp only [step, stepTask]
    cases e.tasks[i]? with
    | none => rfl
    | some t => exact List.length_set

/-- The tasks after an event are those before it, changed in the ways of `Task.Change`, and the one
that the event starts. -/
theorem task_step_cases {e : Engine} (hnames : (e.tasks.map Task.id).Nodup) {ev : EngineEvent}
    {j : Nat} {u : Task} (h : (e.step ev).tasks[j]? = some u) :
    (∃ t, e.tasks[j]? = some t ∧ Task.Change e j t ev u) ∨
      (j = e.tasks.length ∧ e.started? ev = some u) := by
  by_cases hlt : j < e.tasks.length
  · obtain ⟨v, hv, hchange⟩ := task_step hnames (List.getElem?_eq_getElem hlt) ev
    rw [h] at hv
    cases hv
    exact .inl ⟨_, List.getElem?_eq_getElem hlt, hchange⟩
  · have hlen : j < (e.step ev).tasks.length := (List.getElem?_eq_some_iff.1 h).1
    cases hstarted : e.started? ev with
    | none => exact absurd (length_tasks_of_not_started hstarted ▸ hlen) hlt
    | some t =>
      have hat : (e.tasks ++ [t])[j]? = some u := tasks_of_started hstarted ▸ h
      have hj : j = e.tasks.length := by
        rw [tasks_of_started hstarted, List.length_append, List.length_singleton] at hlen
        omega
      rw [hj, List.getElem?_concat_length] at hat
      exact .inr ⟨hj, hat⟩

/-- A new task has a new name. -/
theorem id_of_started {e : Engine} {ev : EngineEvent} {t : Task} (h : e.started? ev = some t) :
    t.id ∉ e.tasks.map Task.id := by
  obtain ⟨id, q, p, -, hnew, -, -, rfl⟩ := started?_eq_some h
  exact hnew

/-- The query that an event starts a task for. -/
def question? (e : Engine) : EngineEvent → Option Inquiry
  | .run id q => (e.started? (.run id q)).map fun _ => q
  | _ => none

/-- The queries that the tasks of a run are started for, in order. -/
def questions (e : Engine) : List EngineEvent → List Inquiry
  | [] => []
  | ev :: events => (e.question? ev).toList ++ questions (e.step ev) events

/-- A task is started for the query that the event asks. -/
theorem question?_of_started {e : Engine} {ev : EngineEvent} {t : Task} (h : e.started? ev = some t) :
    ∃ id q, ev = .run id q ∧ e.question? ev = some q := by
  obtain ⟨id, q, p, rfl, -⟩ := started?_eq_some h
  exact ⟨id, q, rfl, by rw [question?, h, Option.map_some]⟩

/-- Without a task there is no question. -/
theorem question?_of_not_started {e : Engine} {ev : EngineEvent} (h : e.started? ev = none) :
    e.question? ev = none := by
  cases ev with
  | run id q => rw [question?, h, Option.map_none]
  | cancel | release | report | settle | fetchTurn | taskStep => rfl

/-- There is one more task exactly after an event that asks a question. -/
theorem length_tasks_step (e : Engine) (ev : EngineEvent) :
    (e.step ev).tasks.length = e.tasks.length + (e.question? ev).toList.length := by
  cases hstarted : e.started? ev with
  | none =>
    rw [length_tasks_of_not_started hstarted, question?_of_not_started hstarted]
    rfl
  | some t =>
    obtain ⟨id, q, rfl, hquestion⟩ := question?_of_started hstarted
    rw [tasks_of_started hstarted, hquestion, List.length_append]
    rfl

/-- After an event, a task with its query is one from before, with the same query, or the one that the
event starts for that query. -/
theorem task_question_cases {e : Engine} (hnames : (e.tasks.map Task.id).Nodup)
    {questions : List Inquiry} (hlength : questions.length = e.tasks.length) {ev : EngineEvent}
    {j : Nat} {u : Task} {q : Inquiry} (hu : (e.step ev).tasks[j]? = some u)
    (hq : (questions ++ (e.question? ev).toList)[j]? = some q) :
    (∃ t, e.tasks[j]? = some t ∧ questions[j]? = some q ∧ Task.Change e j t ev u) ∨
      ∃ id, ev = .run id q ∧ e.started? ev = some u := by
  rcases task_step_cases hnames hu with ⟨t, ht, hchange⟩ | ⟨hj, hstarted⟩
  · have hlt : j < questions.length := hlength ▸ (List.getElem?_eq_some_iff.1 ht).1
    rw [List.getElem?_append_left hlt] at hq
    exact .inl ⟨t, ht, hq, hchange⟩
  · obtain ⟨id, asked, rfl, hquestion⟩ := question?_of_started hstarted
    rw [hquestion, hj, ← hlength, Option.toList_some, List.getElem?_concat_length] at hq
    exact .inr ⟨id, Option.some.inj hq ▸ rfl, hstarted⟩

omit [Regex.Library] [Machine] in
/-- Letting go leaves the registry and the configuration. -/
theorem releaseReferences_config (e : Engine) (t : Task) :
    (e.releaseReferences t).registry = e.registry ∧ (e.releaseReferences t).config = e.config := by
  unfold releaseReferences
  split <;> exact ⟨rfl, rfl⟩

/-- The registry and the configuration stay. -/
theorem config_step (e : Engine) (ev : EngineEvent) :
    (e.step ev).registry = e.registry ∧ (e.step ev).config = e.config := by
  cases ev with
  | run id q =>
    simp only [step]
    split
    · exact ⟨rfl, rfl⟩
    · cases plan e.registry e.config q <;> exact ⟨rfl, rfl⟩
  | cancel id =>
    cases hfind : e.task? id with
    | error fault => rw [(step_of_missing hfind).1]; exact ⟨rfl, rfl⟩
    | ok t =>
      by_cases hrunning : t.status = .running <;>
        simp [step, cancelQuery, hfind, bind, Except.bind, pure, Except.pure, Except.toOption,
          Task.finish, hrunning, publish, releaseReferences_config]
  | release id =>
    cases hfind : e.task? id with
    | error fault => rw [(step_of_missing hfind).2]; exact ⟨rfl, rfl⟩
    | ok t =>
      by_cases hrunning : t.status = .running <;>
        simp [step, releaseTask, hfind, bind, Except.bind, pure, Except.pure, Except.toOption,
          Task.finish, hrunning, publish, releaseReferences_config]
  | report | settle | fetchTurn => exact ⟨rfl, rfl⟩
  | taskStep i =>
    simp only [step, stepTask]
    cases e.tasks[i]? <;> exact ⟨rfl, rfl⟩

/-- The configuration stays. -/
theorem config_after (e : Engine) (events : List EngineEvent) :
    (e.after events).config = e.config := by
  induction events generalizing e with
  | nil => rfl
  | cons ev events ih => exact (ih (e.step ev)).trans (config_step e ev).2

/-- The registry stays. -/
theorem registry_after (e : Engine) (events : List EngineEvent) :
    (e.after events).registry = e.registry := by
  induction events generalizing e with
  | nil => rfl
  | cons ev events ih => exact (ih (e.step ev)).trans (config_step e ev).1

/-- Names of tasks stay different from each other. -/
theorem nodup_names_step {e : Engine} (hnames : (e.tasks.map Task.id).Nodup) (ev : EngineEvent) :
    ((e.step ev).tasks.map Task.id).Nodup := by
  cases hstarted : e.started? ev with
  | some t =>
    rw [tasks_of_started hstarted, List.map_append]
    refine List.Nodup.append hnames (List.nodup_singleton _) ?_
    rw [List.map_singleton, List.disjoint_singleton]
    exact id_of_started hstarted
  | none =>
    have hsame : (e.step ev).tasks.map Task.id = e.tasks.map Task.id := by
      refine List.ext_getElem? fun j => ?_
      rw [List.getElem?_map, List.getElem?_map]
      cases hj : e.tasks[j]? with
      | some t =>
        obtain ⟨u, hu, hchange⟩ := task_step hnames hj ev
        rw [hu, Option.map_some, Option.map_some, hchange.id_eq]
      | none =>
        have hnone : (e.step ev).tasks[j]? = none := by
          rw [List.getElem?_eq_none_iff, length_tasks_of_not_started hstarted]
          exact List.getElem?_eq_none_iff.1 hj
        rw [hnone]
    rw [hsame]
    exact hnames

end Engine

/-! ## Turns as runs -/

variable [Regex.Library] [Machine]

/-- Where the next section cannot be done, it changes nothing. -/
theorem Task.step_of_not_canStep {c : Cache} {buckets : Nat} {t : Task}
    (h : t.canStep c = false) : t.step c buckets = (t, []) := by
  cases hphase : t.phase with
  | waiting seen =>
    simp only [canStep, hphase, Bool.or_eq_false_iff, bne_eq_false_iff_eq] at h
    simp [step, hphase, h.1, h.2]
  | ended | brokenOff => simp [step, hphase]
  | starting | computing | concluding => simp [canStep, hphase] at h

namespace Engine

/-- A turn of everything, as events. -/
def turnEvents (e : Engine) : List EngineEvent :=
  (List.range e.cache.fetches.length).map .fetchTurn ++
    (List.range e.tasks.length).flatMap fun i => List.replicate sectionsPerTurn (.taskStep i)

omit [Regex.Library] [Machine] in
/-- Changing the first item that was not changed yet changes one more. -/
theorem set_map_take {α : Type} (f : α → α) (as : List α) {n : Nat} {a : α} (h : as[n]? = some a) :
    ((as.take n).map f ++ as.drop n).set n (f a) = (as.take (n + 1)).map f ++ as.drop (n + 1) := by
  obtain ⟨hn, rfl⟩ := List.getElem?_eq_some_iff.1 h
  have hlen : ((as.take n).map f).length = n := by
    rw [List.length_map, List.length_take]
    omega
  rw [List.set_append_right _ _ (Nat.le_of_eq hlen), hlen, Nat.sub_self,
    List.drop_eq_getElem_cons hn, List.set_cons_zero, List.take_add_one, h, Option.toList_some,
    List.map_append, List.append_assoc]
  rfl

omit [Regex.Library] [Machine] in
/-- The first item that was not changed yet is the item of the list. -/
theorem getElem?_map_take {α : Type} (f : α → α) (as : List α) {n : Nat} (hn : n < as.length) :
    ((as.take n).map f ++ as.drop n)[n]? = some as[n] := by
  have hlen : ((as.take n).map f).length = n := by
    rw [List.length_map, List.length_take]
    omega
  rw [List.getElem?_append_right (Nat.le_of_eq hlen), hlen, Nat.sub_self,
    List.drop_eq_getElem_cons hn]
  rfl

/-- The first turns of the sources, one by one, are those turns at once. -/
theorem after_fetchTurns (e : Engine) (n : Nat) (hn : n ≤ e.cache.fetches.length) :
    e.after ((List.range n).map .fetchTurn) =
      { e with cache := { e.cache with
          fetches := (e.cache.fetches.take n).map Fetch.turn ++ e.cache.fetches.drop n } } := by
  induction n with
  | zero => rfl
  | succ n ih =>
    have hset := set_map_take Fetch.turn e.cache.fetches (List.getElem?_eq_getElem hn)
    have hmodify : ((e.cache.fetches.take n).map Fetch.turn ++ e.cache.fetches.drop n).modify n
        Fetch.turn = (e.cache.fetches.take (n + 1)).map Fetch.turn ++ e.cache.fetches.drop (n + 1) := by
      rw [List.modify_eq_set_getElem?, getElem?_map_take _ _ hn, ← hset]
      rfl
    rw [List.range_succ, List.map_append, after_append, ih (Nat.le_of_succ_le hn), ← hmodify]
    rfl

/-- Sections of one task, one by one, are a run of that task. -/
theorem after_taskSteps (e : Engine) (n : Nat) {i : Nat} {t : Task} (h : e.tasks[i]? = some t) :
    e.after (List.replicate n (.taskStep i)) =
      { e with
        tasks := e.tasks.set i (t.run e.cache e.config.buckets n).1
        updates := e.updates ++ (t.run e.cache e.config.buckets n).2 } := by
  have hself : e.tasks.set i t = e.tasks := by
    refine List.ext_getElem? fun j => ?_
    rw [List.getElem?_set]
    split
    · next hij =>
      subst hij
      rw [if_pos (List.getElem?_eq_some_iff.1 h).1, h]
    · rfl
  induction n generalizing e t with
  | zero => simp [after, Task.run, hself]
  | succ n ih =>
    rw [List.replicate_succ, after, List.foldl_cons]
    by_cases hcan : t.canStep e.cache = true
    · have hlt : i < e.tasks.length := (List.getElem?_eq_some_iff.1 h).1
      have hstep : e.step (.taskStep i) =
          { e with
            tasks := e.tasks.set i (t.step e.cache e.config.buckets).1
            updates := e.updates ++ (t.step e.cache e.config.buckets).2 } := by
        simp only [step, stepTask, h]
      rw [hstep]
      have hrest := ih { e with
            tasks := e.tasks.set i (t.step e.cache e.config.buckets).1
            updates := e.updates ++ (t.step e.cache e.config.buckets).2 }
        (t := (t.step e.cache e.config.buckets).1) (List.getElem?_set_self hlt) (by simp)
      rw [after] at hrest
      rw [hrest, Task.run, if_pos hcan]
      simp
    · have hstep : e.step (.taskStep i) = e := by
        simp only [step, stepTask, h, Task.step_of_not_canStep (Bool.not_eq_true _ ▸ hcan), hself,
          List.append_nil]
      have hrun : ∀ m, t.run e.cache e.config.buckets m = (t, []) := by
        intro m
        cases m with
        | zero => rfl
        | succ m => rw [Task.run, if_neg hcan]
      have hrest := ih e h hself
      rw [after] at hrest
      rw [hstep, hrest, hrun, hrun]

/-- The runs of the first tasks, section by section, are those runs at once. -/
theorem after_allTaskSteps (e : Engine) (n : Nat) (hn : n ≤ e.tasks.length) :
    e.after ((List.range n).flatMap fun i => List.replicate sectionsPerTurn (.taskStep i)) =
      { e with
        tasks := (e.tasks.take n).map (fun t => (t.run e.cache e.config.buckets sectionsPerTurn).1) ++
          e.tasks.drop n
        updates := e.updates ++ (e.tasks.take n).flatMap fun t =>
          (t.run e.cache e.config.buckets sectionsPerTurn).2 } := by
  induction n with
  | zero => simp [after]
  | succ n ih =>
    have hat : e.tasks[n]? = some e.tasks[n] := List.getElem?_eq_getElem hn
    rw [List.range_succ, List.flatMap_append, after_append, ih (Nat.le_of_succ_le hn),
      List.flatMap_singleton, after_taskSteps (t := e.tasks[n]) _ _ (getElem?_map_take _ _ hn)]
    rw [set_map_take _ _ hat, List.take_add_one, hat, Option.toList_some, List.flatMap_append,
      List.flatMap_singleton, List.append_assoc]

/-- A turn of everything is a run of single sections. -/
theorem turn_eq_after (e : Engine) : e.turn = e.after e.turnEvents := by
  unfold turnEvents
  rw [after_append, after_fetchTurns e _ (Nat.le_refl _)]
  rw [after_allTaskSteps _ _ (Nat.le_refl _)]
  simp [turn, runTasks, Cache.turn, List.flatMap_map]

omit [Regex.Library] [Machine] in
/-- A turn consists of progress alone. -/
theorem isProgress_of_mem_turnEvents {e : Engine} {ev : EngineEvent} (h : ev ∈ e.turnEvents) :
    ev.isProgress = true := by
  rcases List.mem_append.1 h with h | h
  · obtain ⟨n, -, rfl⟩ := List.mem_map.1 h
    rfl
  · obtain ⟨i, -, h⟩ := List.mem_flatMap.1 h
    rw [List.eq_of_mem_replicate h]
    rfl

/-- Turns are made of events that are progress. -/
theorem exists_turns_eq_after (e : Engine) (fuel : Nat) :
    ∃ events, (∀ ev ∈ events, ev.isProgress = true) ∧ turns fuel e = e.after events := by
  induction fuel generalizing e with
  | zero => exact ⟨[], by simp, rfl⟩
  | succ fuel ih =>
    unfold turns
    split
    · obtain ⟨events, hprogress, heq⟩ := ih e.turn
      refine ⟨e.turnEvents ++ events, fun ev hev => ?_, ?_⟩
      · exact (List.mem_append.1 hev).elim isProgress_of_mem_turnEvents (hprogress ev)
      · rw [heq, after_append, ← turn_eq_after]
    · exact ⟨[], by simp, rfl⟩

/-- Going on until nothing can is a run of single sections. -/
theorem exists_rest_eq_after (e : Engine) :
    ∃ events, (∀ ev ∈ events, ev.isProgress = true) ∧ e.rest = e.after events :=
  exists_turns_eq_after e e.turnBound

end Engine

end LogSearch
