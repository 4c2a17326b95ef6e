import LogSearch.Proofs.Engine.Isolation
import LogSearch.Proofs.Engine.Reads
import LogSearch.Proofs.Engine.Transparency
import LogSearch.Proofs.Source.Changes
import LogSearch.Regex.Program

/-!
# A query that is refused leaves no trace

A query goes through its text, its range, its sources and their providers before it touches the
cache. To say that none of this leaves a trace, the order is spelled out as an action that keeps
whatever it has done when it gives up.

* `Engine.Action`: changes an engine step by step, and may give up on the way.
* `Action.runQuery`: a query as an action; `Action.runQuery_eq`: it does what `Engine.runQuery` does.
* `Operation`, `Engine.operated`: all that can be done to an engine, its registry and its cache.
* `Engine.Grounded`: what that keeps, so that sources which are resolved have providers.
* `Engine.Refuses`, `Engine.Starts`: how a query is refused, and what it starts.
* `Engine.refused_query_leaves_no_trace`: these two are all, in every engine.
-/

namespace LogSearch

/-! ## A query step by step -/

/-- Changes an engine step by step. Giving up keeps what was done until then. -/
abbrev Engine.Action (α : Type) := EStateM EngineFault Engine α

namespace Engine.Action

/-- Takes an answer, or gives up. -/
def orRefuse {α : Type} (x : Except EngineFault α) : Action α := MonadExcept.ofExcept x

/-- Looks up the provider of a source. -/
def provider (name : String) : Action Source := do
  orRefuse (((← get).registry.source name).mapError .registry)

/-- Attaches a task to the fetch of one source, which is taken out of the index before if the query
is forced. -/
def attach (task : String) (forced : Bool) (selection : Selection) (range : TimeRange) (limit : Nat)
    (s : String × Source) : Action Subtask := do
  let identity : CacheIdentity := ⟨selection, range, s.1⟩
  if forced then
    modify fun e => { e with cache := (e.cache.forceRemove identity).2 }
  let (fetch, _, cache) :=
    (← get).cache.referenceOrAdd identity task (identity.response limit s.2)
  modify fun e => { e with cache }
  return ⟨s.1, fetch⟩

variable [Regex.Library] [Machine]

/-- Starts a task for a query. -/
def runQuery (id : String) (q : Inquiry) : Action TaskHandle := do
  let query ← orRefuse ((Query.parse? q.text).mapError .parse)
  let range ← orRefuse (resolveRange (← get).config q.now q.options)
  let names ← orRefuse (resolveSources (← get).registry q.profile query.preFilters)
  let sources ← names.mapM provider
  let selection : Selection := ⟨query.preFilters.filter fun f => !selectsSource f, query.search⟩
  let limit := q.limit (← get).config
  let subtasks ← (names.zip sources).mapM (attach id q.options.forced selection range limit)
  modify fun e => { e with tasks := e.tasks ++ [Task.start id q.text query range subtasks] }
  return ⟨id, names, range⟩

/-- An answer that changes nothing. -/
def answered {α : Type} (e : Engine) : Except EngineFault α → EStateM.Result EngineFault Engine α
  | .ok a => .ok a e
  | .error fault => .error fault e

omit [Regex.Library] [Machine] in
/-- Taking an answer leaves the engine, and gives up with the same fault. -/
theorem run_orRefuse {α : Type} (x : Except EngineFault α) (e : Engine) :
    (orRefuse x).run e = answered e x := by
  cases x <;> rfl

omit [Regex.Library] [Machine] in
/-- Looking up providers changes nothing, however many of them are there. -/
theorem run_providers (names : List String) (e : Engine) :
    (names.mapM provider).run e =
      answered e (names.mapM fun n => (e.registry.source n).mapError .registry) := by
  induction names with
  | nil => rfl
  | cons name names ih =>
    have hfirst : (provider name).run e =
        answered e ((e.registry.source name).mapError .registry) := run_orRefuse _ e
    rw [List.mapM_cons, List.mapM_cons, EStateM.run_bind, hfirst]
    cases (e.registry.source name).mapError EngineFault.registry with
    | error fault => rfl
    | ok source =>
      simp only [answered]
      rw [EStateM.run_bind, ih]
      cases names.mapM fun n => (e.registry.source n).mapError EngineFault.registry <;> rfl

omit [Regex.Library] [Machine] in
/-- Attaching a task as a step changes the cache alone. -/
theorem run_attach (task : String) (forced : Bool) (selection : Selection) (range : TimeRange)
    (limit : Nat) (s : String × Source) (e : Engine) :
    (attach task forced selection range limit s).run e =
      .ok (Engine.attach e.cache task forced selection range limit s.1 s.2).1
        { e with cache := (Engine.attach e.cache task forced selection range limit s.1 s.2).2 } := by
  cases forced <;> rfl

omit [Regex.Library] [Machine] in
/-- Attaching a task to sources, step by step, changes the cache alone. -/
theorem run_attachAll (task : String) (forced : Bool) (selection : Selection) (range : TimeRange)
    (limit : Nat) (sources : List (String × Source)) (e : Engine) :
    (sources.mapM (attach task forced selection range limit)).run e =
      .ok (attachAll e.cache task forced selection range limit sources).1
        { e with cache := (attachAll e.cache task forced selection range limit sources).2 } := by
  induction sources generalizing e with
  | nil => rfl
  | cons s sources ih =>
    rw [List.mapM_cons, EStateM.run_bind, run_attach]
    simp only []
    rw [EStateM.run_bind, ih]
    rfl

/-- Step by step, a query gets the same answer, and leaves the engine as it is if it is refused. -/
theorem runQuery_eq (e : Engine) (id : String) (q : Inquiry) :
    (runQuery id q).run e = match e.runQuery id q.profile q.text q.options q.now with
      | .ok (handle, after) => .ok handle after
      | .error fault => .error fault e := by
  unfold runQuery Engine.runQuery
  rw [EStateM.run_bind, run_orRefuse]
  cases (Query.parse? q.text).mapError EngineFault.parse with
  | error fault => rfl
  | ok query =>
    simp only [answered, EStateM.run_bind, EStateM.run_get, run_orRefuse]
    cases resolveRange e.config q.now q.options with
    | error fault => rfl
    | ok range =>
      simp only []
      cases hnames : resolveSources e.registry q.profile query.preFilters with
      | error fault => simp [hnames, bind, Except.bind]
      | ok names =>
        simp only [run_providers]
        cases hsources : names.mapM fun n => (e.registry.source n).mapError EngineFault.registry with
        | error fault => simp [hnames, hsources, answered, bind, Except.bind]
        | ok sources =>
          simp only [answered, run_attachAll, EStateM.run_modify, EStateM.run_pure]
          simp [hnames, hsources, bind, Except.bind, pure, Except.pure, Inquiry.limit]

end Engine.Action

/-! ## All that can be done -/

/-- What can be done to an engine, to its cache and to its registry. -/
inductive Operation
  | event (ev : EngineEvent)
  | cache (ev : CacheEvent)
  | registry (ev : RegistryEvent)

namespace Engine

variable [Regex.Library] [Machine]

/-- The engine after an operation; one that is refused changes nothing. -/
def operate (e : Engine) : Operation → Engine
  | .event ev => e.step ev
  | .cache ev => { e with cache := e.cache.step ev }
  | .registry ev => { e with registry := e.registry.step ev }

/-- The engine after operations. -/
def operated (e : Engine) (operations : List Operation) : Engine := operations.foldl operate e

/-- A query under a fresh name is the operation that its steps come to. -/
theorem operate_run {e : Engine} {id : String} (hid : id ∉ e.tasks.map Task.id) (q : Inquiry) :
    e.operate (.event (.run id q)) = match (Action.runQuery id q).run e with
      | .ok _ after | .error _ after => after := by
  have hplan := runQuery_eq e id q
  rw [Action.runQuery_eq]
  simp only [operate, step, if_neg hid]
  cases hrun : e.runQuery id q.profile q.text q.options q.now with
  | error fault =>
    rw [hrun] at hplan
    cases hp : plan e.registry e.config q with
    | error other => rfl
    | ok p =>
      rw [hp] at hplan
      cases hplan
  | ok accepted =>
    rw [hrun] at hplan
    cases hp : plan e.registry e.config q with
    | error other =>
      rw [hp] at hplan
      cases hplan
    | ok p =>
      rw [hp] at hplan
      exact (Except.ok.inj hplan).symm

/-- What holds of the cache and of the registry, whatever is done. -/
structure Grounded (e : Engine) : Prop where
  cache : e.cache.Sound
  registry : e.registry.Sound

namespace Grounded

variable {e : Engine}

omit [Regex.Library] [Machine] in
/-- An engine without sources is grounded. -/
theorem start (plugins : Dict Plugin) (config : EngineConfig) :
    (Engine.start ⟨plugins, [], []⟩ config).Grounded where
  cache := Cache.Sound.empty
  registry := (Registry.Built.plugins plugins).sound

/-- Every operation keeps an engine grounded. -/
theorem operate (h : e.Grounded) (o : Operation) : (e.operate o).Grounded := by
  cases o with
  | event ev =>
    constructor
    · show (e.step ev).cache.Sound
      rw [cache_step]
      exact h.cache.after _
    · show (e.step ev).registry.Sound
      rw [(config_step e ev).1]
      exact h.registry
  | cache ev => exact ⟨h.cache.step ev, h.registry⟩
  | registry ev => exact ⟨h.cache, h.registry.step ev⟩

/-- An engine stays grounded through all operations. -/
theorem operated (h : e.Grounded) (operations : List Operation) :
    (e.operated operations).Grounded := by
  induction operations generalizing e with
  | nil => exact h
  | cons o operations ih => exact ih (h.operate o)

end Grounded

/-- No operation takes a source away. -/
theorem hasInstance_operate {e : Engine} {m : String} (h : e.registry.hasInstance m = true)
    (o : Operation) : (e.operate o).registry.hasInstance m = true := by
  cases o with
  | event ev =>
    show (e.step ev).registry.hasInstance m = true
    rw [(config_step e ev).1]
    exact h
  | cache ev => exact h
  | registry ev => exact Registry.hasInstance_step h ev

/-- A source stays through all operations. -/
theorem hasInstance_operated {e : Engine} {m : String} (h : e.registry.hasInstance m = true)
    (operations : List Operation) : (e.operated operations).registry.hasInstance m = true := by
  induction operations generalizing e with
  | nil => exact h
  | cons o operations ih => exact ih (hasInstance_operate h o)

end Engine

/-! ## How a query is refused -/

namespace Engine

variable [Regex.Library] [Machine]

/-- Why a query is refused: its text has problems, its range is empty or cannot be told, or it
selects no sources. No step behind these is ever the cause. -/
inductive Refuses (e : Engine) (q : Inquiry) : EngineFault → Prop
  | text {problems : List Query.Problem} (h : Query.parse? q.text = .error problems) :
    Refuses e q (.parse problems)
  | range {query : Query} {fault : EngineFault} (hquery : Query.parse? q.text = .ok query)
    (h : resolveRange e.config q.now q.options = .error fault) : Refuses e q fault
  | sources {query : Query} {range : TimeRange} {fault : EngineFault}
    (hquery : Query.parse? q.text = .ok query)
    (hrange : resolveRange e.config q.now q.options = .ok range)
    (h : resolveSources e.registry q.profile query.preFilters = .error fault) : Refuses e q fault

omit [Regex.Library] [Machine] in
/-- Looking up the providers of sources that are there never fails. -/
theorem exists_providers {r : Registry} {names : List String}
    (h : ∀ name ∈ names, r.hasInstance name = true) :
    ∃ sources, (names.mapM fun n => (r.source n).mapError EngineFault.registry) = .ok sources := by
  induction names with
  | nil => exact ⟨[], rfl⟩
  | cons name names ih =>
    obtain ⟨source, hsource⟩ :=
      Registry.exists_source_of_hasInstance (h name List.mem_cons_self)
    obtain ⟨sources, hsources⟩ := ih fun n hn => h n (List.mem_cons_of_mem _ hn)
    refine ⟨source :: sources, ?_⟩
    rw [List.mapM_cons, hsource, hsources]
    rfl

/-- A query that is refused is refused for a reason, and before anything was done. -/
theorem refuses_of_error {e : Engine} (hsound : e.registry.Sound) {id : String} {q : Inquiry}
    {fault : EngineFault}
    (h : e.runQuery id q.profile q.text q.options q.now = .error fault) : e.Refuses q fault := by
  unfold runQuery at h
  cases hquery : Query.parse? q.text with
  | error problems =>
    rw [hquery] at h
    cases h
    exact .text hquery
  | ok query =>
    rw [hquery] at h
    cases hrange : resolveRange e.config q.now q.options with
    | error other =>
      rw [hrange] at h
      cases h
      exact .range hquery hrange
    | ok range =>
      rw [hrange] at h
      cases hnames : resolveSources e.registry q.profile query.preFilters with
      | error other =>
        simp only [Except.mapError, bind, Except.bind, hnames] at h
        cases h
        exact .sources hquery hrange hnames
      | ok names =>
        -- a source that is resolved is there, so all of them have providers
        obtain ⟨sources, hsources⟩ :=
          exists_providers (hasInstance_of_mem_resolved hsound hnames)
        simp only [Except.mapError, bind, Except.bind, hnames] at h hsources
        rw [hsources] at h
        cases h

end Engine

/-! ## What a query starts -/

/-- A task is among those of the fetch with a number. -/
def Cache.Refers (c : Cache) (task : String) (n : Nat) : Prop :=
  ∃ f, c.fetch? n = some f ∧ task ∈ f.tasks

namespace Engine

/-- Attaching a task adds its references to its own fetches, and takes none away. -/
theorem refers_attachAll_iff {c : Cache} (hsound : c.Sound) (task : String) (forced : Bool)
    (p : Plan) (limit : Nat) (sources : List (String × Source)) (name : String) (n : Nat) :
    (attachAll c task forced p.selection p.range limit sources).2.Refers name n ↔
      c.Refers name n ∨ name = task ∧
        ∃ s ∈ (attachAll c task forced p.selection p.range limit sources).1, s.fetch = n := by
  constructor
  · rintro ⟨g, hg, hname⟩
    exact mem_tasks_attachAll hg hname
  · rintro (⟨f, hf, hname⟩ | ⟨rfl, s, hs, rfl⟩)
    · obtain ⟨g, hg, -, htasks⟩ := Cache.fetch?_after hf
        (sources.flatMap (p.attachEvents task forced limit))
      rw [attachAll_cache]
      refine ⟨g, hg, htasks name hname fun ev hev => ?_⟩
      obtain ⟨source, -, hev⟩ := List.mem_flatMap.1 hev
      rw [letsGo?_attachEvents hev]
      exact (Option.some_ne_none name).symm
    · obtain ⟨source, -, -, f, hf, -, hmem⟩ :=
        exists_of_forall₂ (forall₂_attachAll hsound name forced p limit sources) hs
      exact ⟨f, hf, hmem⟩

variable [Regex.Library] [Machine]

/-- What a query does that is taken: it starts one task, which refers to one fetch for each source
that the query resolves to, and changes nothing else. -/
structure Starts (e : Engine) (id : String) (q : Inquiry) (handle : TaskHandle) (t : Task)
    (after : Engine) : Prop where
  query : Query.parse? q.text = .ok t.query
  range : resolveRange e.config q.now q.options = .ok t.range
  sources : resolveSources e.registry q.profile t.query.preFilters = .ok handle.sources
  named : handle.id = id ∧ t.id = id ∧ handle.range = t.range
  tasks : after.tasks = e.tasks ++ [t]
  rest : after.registry = e.registry ∧ after.config = e.config ∧ after.updates = e.updates
  /-- The fetch of a source stands under the key of the identity that the source has for the task. -/
  fetches : List.Forall₂ (fun (s : Subtask) name => s.source = name ∧
    ∃ f, after.cache.fetch? s.fetch = some f ∧ f.identity.key = (t.identity name).key)
      t.subtasks handle.sources
  references : ∀ name n, after.cache.Refers name n ↔
    e.cache.Refers name n ∨ name = id ∧ ∃ s ∈ t.subtasks, s.fetch = n

/-- A query that is not refused starts a task, with the handle that is answered. -/
theorem exists_starts {e after : Engine} (hcache : e.cache.Sound) {id : String} {q : Inquiry}
    {handle : TaskHandle}
    (h : e.runQuery id q.profile q.text q.options q.now = .ok (handle, after)) :
    ∃ t, e.Starts id q handle t after := by
  obtain ⟨query, hquery, h⟩ := bind_eq_ok.1 h
  obtain ⟨range, hrange, h⟩ := bind_eq_ok.1 h
  obtain ⟨names, hnames, h⟩ := bind_eq_ok.1 h
  obtain ⟨sources, hsources, h⟩ := bind_eq_ok.1 h
  let p : Plan := ⟨query, range, names.zip sources⟩
  have hfirst : p.sources.map Prod.fst = names :=
    List.map_fst_zip (Nat.le_of_eq (forall₂_of_mapM hsources).length_eq)
  let made := attachAll e.cache id q.options.forced p.selection p.range (q.limit e.config) p.sources
  have hattached : List.Forall₂ (fun (s : Subtask) name => s.source = name ∧
      ∃ f, made.2.fetch? s.fetch = some f ∧ f.identity.key = (p.identity name).key)
      made.1 (p.sources.map Prod.fst) := by
    rw [List.forall₂_map_right_iff]
    refine (forall₂_attachAll hcache id _ p _ p.sources).imp fun s source hs => ?_
    obtain ⟨hname, f, hf, hkey, -⟩ := hs
    exact ⟨hname, f, hf, hkey⟩
  rw [hfirst] at hattached
  have htext : Query.parse? q.text = .ok query := by
    cases hparse : Query.parse? q.text with
    | error problems =>
      rw [hparse] at hquery
      cases hquery
    | ok found =>
      rw [hparse] at hquery
      exact congrArg Except.ok (Except.ok.inj hquery)
  cases h
  exact ⟨Task.start id q.text query range made.1, htext, hrange, hnames, ⟨rfl, rfl, rfl⟩, rfl,
    ⟨rfl, rfl, rfl⟩, hattached, refers_attachAll_iff hcache id _ p _ p.sources⟩

/-- In every engine that comes about, by any operations on it, its cache and its registry: a query that
is refused, step by step, leaves the engine with all its fetches, references, tasks and sources as
it was. It is refused for its text, its range, or the sources that it selects, and never later. A
query that is taken starts one task with its references, and nothing else changes. Under a fresh name
these are the operations on which the engine comes about. And a member of a profile has a provider,
whatever is done in between. -/
theorem refused_query_leaves_no_trace (plugins : Dict Plugin) (config : EngineConfig)
    (operations : List Operation) (id : String) (q : Inquiry) :
    let e := (start ⟨plugins, [], []⟩ config).operated operations
    (match (Action.runQuery id q).run e with
      | .error fault after => after = e ∧ e.Refuses q fault
      | .ok handle after => ∃ t, e.Starts id q handle t after) ∧
    (id ∉ e.tasks.map Task.id →
      e.operate (.event (.run id q)) = match (Action.runQuery id q).run e with
        | .ok _ after | .error _ after => after) ∧
    ∀ profile members, e.registry.profileInstances profile = .ok members → ∀ m ∈ members,
      ∀ more, ∃ source, (e.operated more).registry.source m = .ok source := by
  intro e
  have hgrounded : e.Grounded := (Grounded.start plugins config).operated operations
  refine ⟨?_, fun hid => operate_run hid q, fun profile members hprofile m hm more => ?_⟩
  · rw [Action.runQuery_eq]
    cases hrun : e.runQuery id q.profile q.text q.options q.now with
    | error fault => exact ⟨rfl, refuses_of_error hgrounded.registry hrun⟩
    | ok accepted => exact exists_starts hgrounded.cache hrun
  · have hthere := hgrounded.registry.hasInstance_of_mem hprofile m hm
    exact Registry.exists_source_of_hasInstance (hasInstance_operated hthere more)

end Engine

attribute [local instance] Regex.standard Machine.stopping

namespace Engine

/-- A profile that is set, and one that is not. -/
theorem unset_profile_refused :
    let operations : List Operation := [.registry (.addInstance "app" ⟨"memory", "", sampleSource 0⟩),
      .registry (.setProfile "night" ["app"])]
    let e := (start ⟨[], [], []⟩ sampleConfig).operated operations
    let ask (profile : String) : Inquiry := ⟨profile, "", ⟨some 0, some 1, none, true⟩, 0⟩
    (∃ fault, (Action.runQuery "t" (ask "day")).run e = .error fault e) ∧
      ∃ handle after t, (Action.runQuery "t" (ask "night")).run e = .ok handle after ∧
        e.Starts "t" (ask "night") handle t after := by
  intro operations e ask
  have hrefused := (refused_query_leaves_no_trace [] sampleConfig operations "t" (ask "day")).1
  have htaken := (refused_query_leaves_no_trace [] sampleConfig operations "t" (ask "night")).1
  constructor
  · cases hrun : (Action.runQuery "t" (ask "day")).run e with
    | error fault after =>
      rw [hrun] at hrefused
      exact ⟨fault, by rw [hrefused.1]⟩
    | ok handle after =>
      rw [hrun] at hrefused
      obtain ⟨t, ht⟩ := hrefused
      have hsources := ht.sources
      rw [← Except.ok.inj (parse_empty.symm.trans ht.query)] at hsources
      cases hsources
  · cases hrun : (Action.runQuery "t" (ask "night")).run e with
    | error fault after =>
      rw [hrun] at htaken
      cases htaken.2 with
      | text h => cases parse_empty.symm.trans h
      | range hquery h => cases h
      | sources hquery hrange h =>
        rw [← Except.ok.inj (parse_empty.symm.trans hquery)] at h
        cases h
    | ok handle after =>
      rw [hrun] at htaken
      obtain ⟨t, ht⟩ := htaken
      exact ⟨handle, after, t, rfl, ht⟩

end Engine

end LogSearch
