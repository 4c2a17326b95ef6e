import LogSearch.Proofs.Engine.Tracking
import LogSearch.Proofs.Source.Batches
import LogSearch.Regex.Program
import Mathlib.Data.List.Induction

/-!
# Sharing fetches, compared with fetching alone

A task that shares the fetch of another query sees what that query asked for. What a fetch is shared
by holds the selection, the range and the source, and not the limit.

* `Engine.alone`: the only query of an engine, let go on until nothing can.
* `Engine.view_eq_alone`: a task that completes shows what it would show alone, if its fetches were
  started with its own limit.
* `Engine.sharing_transparent_iff`: for two different limits there are runs in which it shows
  something else.
-/

namespace LogSearch

/-- The rows of the sources of a plan, when all are asked for the same number of rows. -/
def Plan.rowsAt (p : Plan) (limit : Nat) : List Record :=
  p.rows (List.replicate p.sources.length limit)

namespace Engine

/-! ## Runs in which nothing is asked -/

variable [Regex.Library] [Machine]

/-- Going on asks nothing and starts no fetch. -/
theorem cacheEvents_of_isProgress (e : Engine) {ev : EngineEvent} (h : ev.isProgress = true) :
    e.cache.startedBy (e.cacheEvents ev) = [] ∧ e.question? ev = none ∧
      (∀ registry config, eventIdentities registry config ev = []) ∧ ev.isInternal = true := by
  cases ev with
  | fetchTurn fetch => exact ⟨rfl, rfl, fun _ _ => rfl, rfl⟩
  | taskStep i => exact ⟨rfl, rfl, fun _ _ => rfl, rfl⟩
  | run | cancel | release | report | settle => cases h

/-- Where the engine just goes on, there are no new fetches and no questions. -/
theorem limits_of_isProgress (e : Engine) {events : List EngineEvent}
    (h : ∀ ev ∈ events, ev.isProgress = true) :
    e.limits events = [] ∧ e.questions events = [] := by
  induction events generalizing e with
  | nil => exact ⟨rfl, rfl⟩
  | cons ev events ih =>
    obtain ⟨hstarted, hquestion, -, -⟩ := e.cacheEvents_of_isProgress (h ev List.mem_cons_self)
    obtain ⟨hlimits, hquestions⟩ := ih (e.step ev) fun ev' hev' => h ev' (List.mem_cons_of_mem _ hev')
    rw [limits, questions, hstarted, hquestion, hlimits, hquestions]
    exact ⟨rfl, rfl⟩

/-- The limits and questions of a run are those of its first part and those of its second. -/
theorem limits_append (e : Engine) (events more : List EngineEvent) :
    e.limits (events ++ more) = e.limits events ++ (e.after events).limits more ∧
      e.questions (events ++ more) = e.questions events ++ (e.after events).questions more := by
  induction events generalizing e with
  | nil => exact ⟨rfl, rfl⟩
  | cons ev events ih =>
    obtain ⟨hlimits, hquestions⟩ := ih (e.step ev)
    rw [List.cons_append, limits, questions, hlimits, hquestions, limits, questions,
      List.append_assoc, List.append_assoc]
    exact ⟨rfl, rfl⟩

/-- Going on gives no orders. -/
theorem setup_after {e : Engine} (hsound : e.Sound) {events : List EngineEvent}
    (h : ∀ ev ∈ events, ev.isProgress = true) :
    (e.after events).tasks.map Task.setup = e.tasks.map Task.setup := by
  induction events generalizing e with
  | nil => rfl
  | cons ev events ih =>
    have hprogress := h ev List.mem_cons_self
    have hnone : e.started? ev = none := by
      cases ev with
      | fetchTurn | taskStep => rfl
      | run | cancel | release | report | settle => cases hprogress
    have hstep : (e.step ev).tasks.map Task.setup = e.tasks.map Task.setup := by
      refine List.ext_getElem? fun j => ?_
      rw [List.getElem?_map, List.getElem?_map]
      cases hj : e.tasks[j]? with
      | some t =>
        obtain ⟨u, hu, hchange⟩ := task_step hsound.names hj ev
        rw [hu, Option.map_some, Option.map_some]
        cases hchange with
        | same => rfl
        | cancel | release => cases hprogress
        | step => rw [Task.setup_step]
      | none =>
        have hlen : (e.step ev).tasks[j]? = none := by
          rw [List.getElem?_eq_none_iff, length_tasks_of_not_started hnone]
          exact List.getElem?_eq_none_iff.1 hj
        rw [hlen]
    rw [← hstep]
    exact ih (hsound.step ev) fun ev' hev' => h ev' (List.mem_cons_of_mem _ hev')

/-! ## Where a run comes to -/

variable {registry : Registry} {config : EngineConfig} {known : CacheIdentity → Prop}
  {limits : List Nat} {questions : List Inquiry} {e : Engine}

/-- Once nothing can go on, a task that was not told to stop has completed, with the results over
the rows of its sources, or has failed on them, or was broken off. -/
theorem concluded_of_not_canTurn (h : e.Follows registry config known limits questions)
    (hsound : e.Sound) (halert : e.Alert) (hrest : e.canTurn = false) {j : Nat} {t : Task}
    {q : Inquiry} (ht : e.tasks[j]? = some t) (hq : questions[j]? = some q)
    (hcancelled : t.cancelled = false) :
    ∃ p, Tracks registry config limits e.cache q t p ∧
      (t.status = .completed ∨ t.status = .failed ∨ t.phase = .brokenOff) := by
  obtain ⟨p, htracks⟩ := h.task j t q ht hq
  refine ⟨p, htracks, ?_⟩
  have hmem := List.mem_of_getElem? ht
  have hsettled : ∀ s ∈ t.subtasks, ∀ f, e.cache.fetch? s.fetch = some f →
      f.status.isSettled = true := by
    intro s _ f hf
    have hlt : s.fetch < limits.length := by
      rw [h.cache.length]
      exact (List.getElem?_eq_some_iff.1 hf).1
    obtain ⟨source, -, hfollows⟩ := h.cache.fetch s.fetch f _ hf (List.getElem?_eq_getElem hlt)
    unfold canTurn at hrest
    rw [Bool.or_eq_false_iff] at hrest
    have hstuck := List.any_eq_false.1 hrest.1 f (e.cache.mem_fetches_iff.2 ⟨_, hf⟩)
    simpa [Fetch.canTurn, hfollows.outcome] using hstuck
  rcases ended_of_not_canTurn halert hsound hrest hmem hsettled with hended | hbroken
  swap
  · exact .inr (.inr hbroken)
  cases hstatus : t.status with
  | running => exact absurd hstatus (htracks.works.ready_at hended)
  | completed => exact .inl rfl
  | failed => exact .inr (.inl rfl)
  | canceled =>
    rw [htracks.works.canceled hstatus] at hcancelled
    cases hcancelled

/-- A task whose fetches were all started with one limit works on the rows for that limit. -/
theorem Tracks.worksOn_rowsAt {c : Cache} {q : Inquiry} {t : Task} {p : Plan} {limit : Nat}
    (h : Tracks registry config limits c q t p)
    (hlimit : ∀ s ∈ t.subtasks, limits[s.fetch]? = some limit) :
    t.WorksOn config.buckets (p.rowsAt limit) := by
  have hsame : (t.subtasks.map fun s => limits.getD s.fetch 0) =
      List.replicate p.sources.length limit := by
    refine List.eq_replicate_iff.2 ⟨?_, fun n hn => ?_⟩
    · rw [List.length_map, h.fetches.length_eq]
    · obtain ⟨s, hs, rfl⟩ := List.mem_map.1 hn
      rw [List.getD_eq_getElem?_getD, hlimit s hs]
      rfl
  unfold Plan.rowsAt
  rw [← hsame]
  exact h.works

/-! ## The query alone -/

/-- A query as the only one of an engine, and what the engine comes to. -/
def alone (registry : Registry) (config : EngineConfig) (id : String) (q : Inquiry) : Engine :=
  ((start registry config).step (.run id q)).rest

/-- Alone a task has completed or failed, as its pipeline does on the rows of its sources, or it was
broken off. -/
theorem alone_concludes (hsucceeds : registry.Succeeds) (id : String) {q : Inquiry} {p : Plan}
    (hplan : plan registry config q = .ok p)
    (hkeys : ∀ i j, i ∈ eventIdentities registry config (.run id q) →
      j ∈ eventIdentities registry config (.run id q) → i.key = j.key → i = j) :
    ∃ u, (alone registry config id q).tasks = [u] ∧ u.query = p.query ∧ u.range = p.range ∧
      u.WorksOn config.buckets (p.rowsAt (q.limit config)) ∧
      (u.status = .completed ∨ u.status = .failed ∨ u.phase = .brokenOff) := by
  have hsound := Sound.start registry config
  have halert : (start registry config).Alert := fun t ht => absurd ht List.not_mem_nil
  have hstep : (start registry config).step (.run id q) = (start registry config).accept id q p := by
    simp only [step, start, List.map_nil, List.not_mem_nil, if_false, hplan]
  have hasked : EngineEvent.isInternal (.run id q) = true := rfl
  have hfirst := (follows_start registry config
    (· ∈ eventIdentities registry config (.run id q))).step hsound hsucceeds hasked
    (fun i hi => hi) hkeys
  obtain ⟨events, hprogress, hrest⟩ :=
    ((start registry config).step (.run id q)).exists_rest_eq_after
  have hinternal : ∀ ev ∈ events, ev.isInternal = true :=
    fun ev hev => ((start registry config).cacheEvents_of_isProgress (hprogress ev hev)).2.2.2
  have hknown : ∀ i ∈ events.flatMap (eventIdentities registry config),
      i ∈ eventIdentities registry config (.run id q) := by
    intro i hi
    obtain ⟨ev, hev, hi⟩ := List.mem_flatMap.1 hi
    rw [((start registry config).cacheEvents_of_isProgress (hprogress ev hev)).2.2.1] at hi
    exact absurd hi List.not_mem_nil
  have hafter := hfirst.after (hsound.step _) hsucceeds hinternal hknown hkeys
  obtain ⟨hnolimits, hnoquestions⟩ := ((start registry config).step (.run id q)).limits_of_isProgress
    hprogress
  rw [hnolimits, hnoquestions] at hafter
  have hsetup := setup_after (hsound.step (.run id q)) hprogress
  have htasks : ∃ u, (((start registry config).step (.run id q)).after events).tasks = [u] ∧
      u.cancelled = false := by
    rw [hstep] at hsetup ⊢
    obtain ⟨u, hu, hstart⟩ := List.map_eq_singleton_iff.1 hsetup
    exact ⟨u, hu, (Task.fields_of_setup (t := Task.start id q.text p.query p.range _) hstart).2.1⟩
  obtain ⟨u, hu, hcancelled⟩ := htasks
  have hquestion : (start registry config).question? (.run id q) = some q := by
    simp only [question?, started?, start, List.map_nil, List.not_mem_nil, if_false, hplan,
      Option.map_some]
  have hcan : (((start registry config).step (.run id q)).after events).canTurn = false := by
    rw [← hrest]
    exact canTurn_rest _
  obtain ⟨p', htracks, hstatus⟩ := concluded_of_not_canTurn hafter
    ((hsound.step _).after events) ((halert.step hsound _).after (hsound.step _) events) hcan
    (j := 0) (t := u) (q := q) (by rw [hu]; rfl) (by rw [hquestion]; rfl) hcancelled
  obtain rfl : p' = p := Except.ok.inj (htracks.plan.symm.trans hplan)
  refine ⟨u, ?_, htracks.query, htracks.range, htracks.worksOn_rowsAt fun s hs => ?_, hstatus⟩
  · rw [alone, hrest]
    exact hu
  · obtain ⟨source, -, f, hf, -⟩ := exists_of_forall₂ htracks.fetches hs
    have hlt := (List.getElem?_eq_some_iff.1 hf).1
    rw [← hafter.cache.length] at hlt
    rw [List.nil_append, List.append_nil] at hlt ⊢
    rw [List.getElem?_replicate, if_pos (by simpa using hlt)]
    rfl

/-! ## The same limit -/

/-- A question was asked by an event of the run. -/
theorem run_mem_of_mem_questions {e : Engine} {events : List EngineEvent} {q : Inquiry}
    (h : q ∈ e.questions events) : ∃ id, .run id q ∈ events := by
  induction events generalizing e with
  | nil => exact absurd h List.not_mem_nil
  | cons ev events ih =>
    rcases List.mem_append.1 h with h | h
    · cases ev with
      | run id other =>
        obtain ⟨u, -, rfl⟩ := Option.map_eq_some_iff.1 (Option.mem_toList.1 h)
        exact ⟨id, List.mem_cons_self⟩
      | cancel | release | report | settle | fetchTurn | taskStep => exact absurd h List.not_mem_nil
    · obtain ⟨id, hid⟩ := ih h
      exact ⟨id, List.mem_cons_of_mem _ hid⟩

/-- A run in which nothing is reported from outside, over sources that succeed, and in which
different identities have different keys. -/
structure Ordinary (registry : Registry) (config : EngineConfig) (events : List EngineEvent) :
    Prop where
  internal : ∀ ev ∈ events, ev.isInternal = true
  succeeds : registry.Succeeds
  keys : ∀ i j, i ∈ events.flatMap (eventIdentities registry config) →
    j ∈ events.flatMap (eventIdentities registry config) → i.key = j.key → i = j

/-- In a run without reports from outside, fetches and tasks are on their way. -/
theorem Ordinary.follows {events : List EngineEvent} (h : Ordinary registry config events) :
    ((start registry config).after events).Follows registry config
      (· ∈ events.flatMap (eventIdentities registry config))
      ((start registry config).limits events) ((start registry config).questions events) :=
  (follows_start registry config _).after (Sound.start registry config) h.succeeds h.internal
    (fun _ hi => hi) h.keys

/-- A task that completes shows what it would show alone, if its fetches were started with its own
limit, by whatever queries. -/
theorem view_eq_alone {events : List EngineEvent} (h : Ordinary registry config events) {j : Nat}
    {t : Task} {q : Inquiry} (ht : ((start registry config).after events).tasks[j]? = some t)
    (hq : ((start registry config).questions events)[j]? = some q)
    (hlimits : ∀ s ∈ t.subtasks,
      ((start registry config).limits events)[s.fetch]? = some (q.limit config))
    (hstatus : t.status = .completed) :
    ∃ u, (alone registry config t.id q).tasks = [u] ∧ u.status = .completed ∧ u.view = t.view := by
  obtain ⟨p, htracks⟩ := h.follows.task j t q ht hq
  obtain ⟨-, hshows⟩ := (htracks.worksOn_rowsAt hlimits).completed hstatus
  obtain ⟨results, hrun, hview⟩ := hshows
  obtain ⟨id, hasked⟩ := run_mem_of_mem_questions (List.mem_of_getElem? hq)
  have hknown : ∀ i ∈ eventIdentities registry config (.run t.id q),
      i ∈ events.flatMap (eventIdentities registry config) :=
    fun i hi => List.mem_flatMap.2 ⟨_, hasked, hi⟩
  obtain ⟨u, hu, hquery, hrange, hworks, hended⟩ := alone_concludes h.succeeds t.id htracks.plan
    fun i j hi hj => h.keys i j (hknown i hi) (hknown j hj)
  have hsame : u.range = t.range ∧ u.query = t.query :=
    ⟨hrange.trans htracks.range.symm, hquery.trans htracks.query.symm⟩
  refine ⟨u, hu, ?_⟩
  rcases hended with hcompleted | hfailed | hbroken
  · obtain ⟨-, results', hrun', hview'⟩ := hworks.completed hcompleted
    rw [hsame.1, hsame.2, hrun] at hrun'
    cases hrun'
    rw [hsame.1] at hview'
    exact ⟨hcompleted, hview'.unique hview⟩
  · obtain ⟨-, fault, hrun'⟩ := hworks.failed hfailed
    rw [hsame.1, hsame.2, hrun] at hrun'
    cases hrun'
  · -- what breaks off the task alone does not depend on the rows
    have hbreaks : u.BreaksOff config.buckets := hworks.ready_at hbroken
    unfold Task.BreaksOff at hbreaks
    rw [hsame.1, hsame.2] at hbreaks
    exact absurd hbreaks (Task.Shows.not_breaksOff ⟨results, hrun, hview⟩)

end Engine

/-! ## Different limits -/

/-- No record of a batch is lost. -/
theorem length_collected (batches : List (List Record)) :
    (collected batches).length = (batches.map List.length).sum := by
  induction batches using List.reverseRecOn with
  | nil => rfl
  | append_singleton batches batch ih =>
    rw [collected_append, List.map_append, List.sum_append, ← ih]
    split
    · next hempty => simp [List.isEmpty_iff.1 hempty]
    · simp [mergeByTime, sortByTime, List.length_merge]

/-- Records of one instant. -/
def sameInstant (n : Nat) : List Record := List.replicate n ((Record.ofMessage "").withTime 0)

/-- A memory with records of one instant. -/
def sampleSource (n : Nat) : Source := (MemorySource.mk (sameInstant n) n []).source

/-- A registry with one source. -/
def sampleRegistry (n : Nat) : Registry :=
  ⟨[], [("sample", ⟨"memory", "", sampleSource n⟩)], []⟩

/-- A configuration of an engine. -/
def sampleConfig : EngineConfig := ⟨0, 1, ""⟩

/-- The query for everything at that instant. -/
def sampleInquiry (limit : Nat) : Inquiry := ⟨defaultProfile, "", ⟨some 0, some 1, some limit, false⟩, 0⟩

/-- The plan for that query. -/
def samplePlan (n : Nat) : Plan := ⟨⟨[], none, []⟩, ⟨0, 1⟩, [("sample", sampleSource n)]⟩

section

variable [Regex.Library] [Machine]

/-- The query for one instant is accepted. -/
theorem plan_sample (n limit : Nat) :
    Engine.plan (sampleRegistry n) sampleConfig (sampleInquiry limit) = .ok (samplePlan n) := by
  simp [Engine.plan, sampleInquiry, Engine.parse_empty, Except.mapError, bind, Except.bind, pure,
    Except.pure, Engine.resolveRange, Engine.resolveSources, sampleRegistry,
    Registry.profileInstances, Dict.get?, Dict.keys, samplePlan, Registry.source]

omit [Regex.Library] [Machine] in
/-- A memory answers to the end. -/
theorem succeeds_sample (n : Nat) : (sampleRegistry n).Succeeds := by
  intro name source h q
  unfold Registry.source at h
  split at h
  · next i hi =>
    cases h
    simp only [sampleRegistry, Dict.get?] at hi
    split at hi
    · cases hi
      rfl
    · cases hi
  · cases h

omit [Regex.Library] [Machine] in
/-- A record of that instant is what the query asks for. -/
theorem asksFor_sample (q : Request) (h : q.selection = ⟨[], none⟩) (hrange : q.range = ⟨0, 1⟩) :
    q.asksFor ((Record.ofMessage "").withTime 0) = true := by
  have htime : ((Record.ofMessage "").withTime 0).time? = some 0 := rfl
  unfold Request.asksFor
  rw [htime, h, hrange]
  rfl

omit [Regex.Library] [Machine] in
/-- The memory reports as many records as are asked for, of those it has. -/
theorem length_rowsAt_sample (n limit : Nat) :
    ((samplePlan n).rowsAt limit).length = min limit n := by
  have hall : ∀ q : Request, q.selection = ⟨[], none⟩ → q.range = ⟨0, 1⟩ →
      (sameInstant n).filter q.asksFor = sameInstant n := by
    intro q hselection hrange
    refine List.filter_eq_self.2 fun r hr => ?_
    rw [List.eq_of_mem_replicate hr]
    exact asksFor_sample q hselection hrange
  have hnewest : (Request.newest ⟨⟨[], none⟩, ⟨0, 1⟩, limit⟩ (sameInstant n)).length = min limit n := by
    rw [Request.newest, hall _ rfl rfl, List.length_take, sortByTime, List.length_mergeSort,
      sameInstant, List.length_replicate]
  have hrows : (samplePlan n).rowsAt limit = collected
      ((Request.batches ⟨⟨[], none⟩, ⟨0, 1⟩, limit⟩ n none (sameInstant n)).map
        (Engine.stamp "sample")) := rfl
  have hstamp : (List.length ∘ Engine.stamp "sample") = List.length := by
    funext rows
    simp [Engine.stamp]
  rw [hrows, length_collected, List.map_map, hstamp, ← List.length_flatten,
    Request.flatten_batches_none, hnewest]

namespace Engine

/-- What the query for that instant is about. -/
def sampleIdentity : CacheIdentity := ⟨⟨[], none⟩, ⟨0, 1⟩, "sample"⟩

/-- A run in which a query shares the fetch of one that differs from it in nothing but the limit. -/
def sharingEvents (starter own : Nat) : List EngineEvent :=
  [.run "first" (sampleInquiry starter), .run "second" (sampleInquiry own)]

/-- The query refers to one fetch, or starts it. -/
theorem cacheEvents_sample {e : Engine} {n : Nat} (hregistry : e.registry = sampleRegistry n)
    (hconfig : e.config = sampleConfig) {id : String} (hid : id ∉ e.tasks.map Task.id) (limit : Nat) :
    e.cacheEvents (.run id (sampleInquiry limit)) =
      [.referenceOrAdd sampleIdentity id (sampleIdentity.response limit (sampleSource n))] := by
  simp only [cacheEvents, if_neg hid, hregistry, hconfig, plan_sample]
  rfl

/-- The query starts a task with one fetch. -/
theorem step_sample {e : Engine} {n : Nat} (hregistry : e.registry = sampleRegistry n)
    (hconfig : e.config = sampleConfig) {id : String} (hid : id ∉ e.tasks.map Task.id) (limit : Nat) :
    ∃ fetch, fetch = (e.cache.referenceOrAdd sampleIdentity id
        (sampleIdentity.response limit (sampleSource n))).1 ∧
      (e.step (.run id (sampleInquiry limit))).tasks = e.tasks ++
        [Task.start id "" ⟨[], none, []⟩ ⟨0, 1⟩ [⟨"sample", fetch⟩]] ∧
      e.started? (.run id (sampleInquiry limit)) =
        some (Task.start id "" ⟨[], none, []⟩ ⟨0, 1⟩ [⟨"sample", fetch⟩]) := by
  have hlimit : (sampleInquiry limit).limit e.config = limit := rfl
  refine ⟨_, rfl, ?_, ?_⟩
  · simp only [step, if_neg hid, hregistry, hconfig, plan_sample]
    simp only [accept, hlimit]
    rfl
  · simp only [started?, if_neg hid, hregistry, hconfig, plan_sample]
    rfl

/-- In that run the second task has the fetch that was started with the limit of the first. -/
theorem sharing_sample (n starter own : Nat) :
    (start (sampleRegistry n) sampleConfig).limits (sharingEvents starter own) = [starter] ∧
      (start (sampleRegistry n) sampleConfig).questions (sharingEvents starter own) =
        [sampleInquiry starter, sampleInquiry own] ∧
      ((start (sampleRegistry n) sampleConfig).after (sharingEvents starter own)).tasks[1]? =
        some (Task.start "second" "" ⟨[], none, []⟩ ⟨0, 1⟩ [⟨"sample", 0⟩]) := by
  generalize hstart : start (sampleRegistry n) sampleConfig = e
  have hregistry : e.registry = sampleRegistry n := by rw [← hstart]; rfl
  have hconfig : e.config = sampleConfig := by rw [← hstart]; rfl
  have hnone : e.tasks = [] := by rw [← hstart]; rfl
  have hempty : e.cache = .empty := by rw [← hstart]; rfl
  have hnew : "first" ∉ e.tasks.map Task.id := by rw [hnone]; exact List.not_mem_nil
  obtain ⟨first, -, htasks, hstarted⟩ := step_sample hregistry hconfig hnew starter
  have hevents := cacheEvents_sample hregistry hconfig hnew starter
  obtain ⟨hregistry', hconfig'⟩ := config_step e (.run "first" (sampleInquiry starter))
  have hcache := cache_step e (.run "first" (sampleInquiry starter))
  rw [hevents, hempty] at hcache
  have hinsert : (Cache.empty.after [.referenceOrAdd sampleIdentity "first"
      (sampleIdentity.response starter (sampleSource n))]) = (Cache.empty.insert sampleIdentity "first"
        (sampleIdentity.response starter (sampleSource n))).2 := rfl
  rw [hinsert] at hcache
  have husable := Cache.usable?_insert .empty sampleIdentity "first"
    (sampleIdentity.response starter (sampleSource n))
  rw [← hcache] at husable
  have hnew' : "second" ∉ (e.step (.run "first" (sampleInquiry starter))).tasks.map Task.id := by
    rw [htasks, hnone]
    simp [Task.start]
  obtain ⟨second, hsecond, htasks', hstarted'⟩ := step_sample (hregistry'.trans hregistry)
    (hconfig'.trans hconfig) hnew' own
  have hevents' := cacheEvents_sample (hregistry'.trans hregistry) (hconfig'.trans hconfig) hnew' own
  have hzero : second = 0 := by
    rw [hsecond, Cache.referenceOrAdd, husable]
    rfl
  refine ⟨?_, ?_, ?_⟩
  · have hone : Cache.empty.startedBy [.referenceOrAdd sampleIdentity "first"
        (sampleIdentity.response starter (sampleSource n))] = [Fetch.start sampleIdentity "first"
          (sampleIdentity.response starter (sampleSource n))] := rfl
    have hzero' : (e.step (.run "first" (sampleInquiry starter))).cache.startedBy
        [.referenceOrAdd sampleIdentity "second" (sampleIdentity.response own (sampleSource n))] = [] := by
      simp [Cache.startedBy, Cache.started?, husable]
    simp only [sharingEvents, limits, hevents, hevents', hempty, hone, hzero']
    rfl
  · simp only [sharingEvents, questions, question?, hstarted, hstarted']
    rfl
  · rw [sharingEvents, after, List.foldl_cons, List.foldl_cons, List.foldl_nil, htasks', htasks, hnone,
      hzero]
    rfl

/-- A run of these queries that just goes on is an ordinary one. -/
theorem ordinary_sharing (n starter own : Nat) {events : List EngineEvent}
    (h : ∀ ev ∈ events, ev.isProgress = true) :
    Ordinary (sampleRegistry n) sampleConfig (sharingEvents starter own ++ events) := by
  have hidentities : ∀ i ∈ (sharingEvents starter own ++ events).flatMap
      (eventIdentities (sampleRegistry n) sampleConfig), i = sampleIdentity := by
    intro i hi
    obtain ⟨ev, hev, hi⟩ := List.mem_flatMap.1 hi
    rcases List.mem_append.1 hev with hev | hev
    · have hrun : ∃ id limit, ev = .run id (sampleInquiry limit) := by
        rcases List.mem_cons.1 hev with rfl | hev
        · exact ⟨_, _, rfl⟩
        · exact ⟨_, _, List.mem_singleton.1 hev⟩
      obtain ⟨id, limit, rfl⟩ := hrun
      simp only [eventIdentities, plan_sample] at hi
      exact List.mem_singleton.1 hi
    · rw [((start (sampleRegistry n) sampleConfig).cacheEvents_of_isProgress (h ev hev)).2.2.1] at hi
      exact absurd hi List.not_mem_nil
  refine ⟨fun ev hev => ?_, succeeds_sample n, fun i j hi hj _ => ?_⟩
  · rcases List.mem_append.1 hev with hev | hev
    · rcases List.mem_cons.1 hev with rfl | hev
      · rfl
      · rw [List.mem_singleton.1 hev]
        rfl
    · exact ((start (sampleRegistry n) sampleConfig).cacheEvents_of_isProgress (h ev hev)).2.2.2
  · rw [hidentities i hi, hidentities j hj]

/-- A task for the query completes and shows all of its rows: the query has no stages, and its range
one bucket. -/
theorem completed_sample {t : Task} {n : Nat} {rows : List Record}
    (h : t.WorksOn sampleConfig.buckets rows) (hquery : t.query = (samplePlan n).query)
    (hrange : t.range = (samplePlan n).range)
    (hended : t.status = .completed ∨ t.status = .failed ∨ t.phase = .brokenOff) :
    t.status = .completed ∧ t.view.results.events = rows := by
  have hpipeline : ∀ rows, runPipeline t.range t.query.pipeline rows = .ok (Results.ofEvents rows) := by
    intro rows
    rw [hquery]
    rfl
  rcases hended with hcompleted | hfailed | hbroken
  · obtain ⟨-, results, hrun, hshows⟩ := h.completed hcompleted
    rw [hpipeline] at hrun
    cases hrun
    exact ⟨hcompleted, congrArg Results.events hshows.results⟩
  · obtain ⟨-, fault, hfault⟩ := h.failed hfailed
    rw [hpipeline] at hfault
    cases hfault
  · have hgrid : Histogram.grid? t.range sampleConfig.buckets = some (1, 1) := by
      rw [hrange]
      rfl
    rcases (h.ready_at hbroken : t.BreaksOff _) with ⟨others, fault, hfault, -⟩ | hnone
    · rw [hpipeline] at hfault
      cases hfault
    · cases hgrid.symm.trans hnone

/-- Alone the query shows as many records as it asks for, of those there are. -/
theorem alone_shows_sample (n own : Nat) (id : String) :
    ∃ u, (alone (sampleRegistry n) sampleConfig id (sampleInquiry own)).tasks = [u] ∧
      u.status = .completed ∧ u.view.results.events.length = min own n := by
  have hkeys : ∀ i j, i ∈ eventIdentities (sampleRegistry n) sampleConfig
      (.run id (sampleInquiry own)) → j ∈ eventIdentities (sampleRegistry n) sampleConfig
      (.run id (sampleInquiry own)) → i.key = j.key → i = j := by
    intro i j hi hj _
    simp only [eventIdentities, plan_sample] at hi hj
    rw [List.mem_singleton.1 hi, List.mem_singleton.1 hj]
  obtain ⟨u, hu, hquery, hrange, hworks, hended⟩ :=
    alone_concludes (succeeds_sample n) id (plan_sample n own) hkeys
  obtain ⟨hcompleted, hevents⟩ := completed_sample hworks hquery hrange hended
  exact ⟨u, hu, hcompleted, hevents ▸ length_rowsAt_sample n own⟩

/-- With the other query before it, it shows as many records as that one asks for. -/
theorem sharing_shows_sample (n starter own : Nat) :
    ∃ events, (∀ ev ∈ events, ev.isProgress = true) ∧
      ((start (sampleRegistry n) sampleConfig).after (sharingEvents starter own)).rest =
        (start (sampleRegistry n) sampleConfig).after (sharingEvents starter own ++ events) ∧
      (start (sampleRegistry n) sampleConfig).limits (sharingEvents starter own ++ events) = [starter] ∧
      (start (sampleRegistry n) sampleConfig).questions (sharingEvents starter own ++ events) =
        [sampleInquiry starter, sampleInquiry own] ∧
      ∃ t, ((start (sampleRegistry n) sampleConfig).after
          (sharingEvents starter own ++ events)).tasks[1]? = some t ∧
        t.id = "second" ∧ t.subtasks = [⟨"sample", 0⟩] ∧ t.status = .completed ∧
        t.view.results.events.length = min starter n := by
  obtain ⟨hlimits, hquestions, htask⟩ := sharing_sample n starter own
  have hsound : ((start (sampleRegistry n) sampleConfig).after (sharingEvents starter own)).Sound :=
    (Sound.start _ _).after _
  have halert : ((start (sampleRegistry n) sampleConfig).after (sharingEvents starter own)).Alert :=
    Alert.after (fun t ht => absurd ht List.not_mem_nil) (Sound.start _ _) _
  generalize he : (start (sampleRegistry n) sampleConfig).after (sharingEvents starter own) = e at *
  obtain ⟨events, hprogress, hrest⟩ := e.exists_rest_eq_after
  have hafter : (start (sampleRegistry n) sampleConfig).after (sharingEvents starter own ++ events) =
      e.rest := by rw [after_append, he, hrest]
  have hlimits' : (start (sampleRegistry n) sampleConfig).limits (sharingEvents starter own ++ events) =
      [starter] := by
    rw [(limits_append _ _ _).1, hlimits, he, (e.limits_of_isProgress hprogress).1]
    rfl
  have hquestions' : (start (sampleRegistry n) sampleConfig).questions
      (sharingEvents starter own ++ events) = [sampleInquiry starter, sampleInquiry own] := by
    rw [(limits_append _ _ _).2, hquestions, he, (e.limits_of_isProgress hprogress).2]
    rfl
  have hfollows := (ordinary_sharing n starter own hprogress).follows
  rw [hafter, hlimits', hquestions'] at hfollows
  -- the orders to the second task are those it was started with
  have hsetup := setup_after hsound hprogress
  rw [← hrest] at hsetup
  obtain ⟨t, ht, hstart⟩ : ∃ t, e.rest.tasks[1]? = some t ∧ t.setup =
      (Task.start "second" "" ⟨[], none, []⟩ ⟨0, 1⟩ [⟨"sample", 0⟩]).setup := by
    have hat := congrArg (fun tasks => tasks[1]?) hsetup
    simp only [List.getElem?_map] at hat
    rw [htask, Option.map_some] at hat
    obtain ⟨t, ht, hsame⟩ := Option.map_eq_some_iff.1 hat
    exact ⟨t, ht, hsame⟩
  obtain ⟨⟨hid, -, -, hsubtasks⟩, hcancelled, -⟩ := Task.fields_of_setup hstart
  have hshared : ∀ s ∈ t.subtasks, [starter][s.fetch]? = some starter := by
    rw [hsubtasks]
    intro s hs
    rw [List.mem_singleton.1 hs]
    rfl
  obtain ⟨p, htracks, hstatus⟩ := concluded_of_not_canTurn hfollows
    (hrest ▸ hsound.after events) (hrest ▸ halert.after hsound events) (canTurn_rest e) ht
    (q := sampleInquiry own) rfl hcancelled
  obtain rfl : samplePlan n = p := Except.ok.inj ((plan_sample n own).symm.trans htracks.plan)
  have hworks := htracks.worksOn_rowsAt hshared
  obtain ⟨hcompleted, hevents⟩ := completed_sample hworks htracks.query htracks.range hstatus
  exact ⟨events, hprogress, hafter.symm, hlimits', hquestions', t, by rw [hafter, ht], hid, hsubtasks,
    hcompleted, hevents ▸ length_rowsAt_sample n starter⟩

/-- Whatever two queries ask for in numbers of rows: if the second shares the fetch of the first, it
may end with the rows of the first. -/
theorem view_ne_alone {own starter : Nat} (h : own ≠ starter) :
    ∃ registry config events, Ordinary registry config events ∧
      ∃ (j : Nat) (t : Task) (q : Inquiry),
        ((start registry config).after events).tasks[j]? = some t ∧
        ((start registry config).questions events)[j]? = some q ∧ q.limit config = own ∧
        (∀ s ∈ t.subtasks, ((start registry config).limits events)[s.fetch]? = some starter) ∧
        t.status = .completed ∧
        ∀ u, (alone registry config t.id q).tasks = [u] → u.view ≠ t.view := by
  obtain ⟨events, hprogress, -, hlimits, hquestions, t, ht, -, hsubtasks, hstatus, hlength⟩ :=
    sharing_shows_sample (max own starter) starter own
  refine ⟨_, sampleConfig, _, ordinary_sharing (max own starter) starter own hprogress, 1, t,
    sampleInquiry own, ht, by rw [hquestions]; rfl, rfl, fun s hs => ?_, hstatus,
    fun u hu hview => ?_⟩
  · rw [hsubtasks, List.mem_singleton] at hs
    rw [hlimits, hs]
    rfl
  · obtain ⟨v, hv, -, halone⟩ := alone_shows_sample (max own starter) own t.id
    obtain rfl : u = v := by
      rw [hu] at hv
      exact List.singleton_inj.1 hv
    rw [hview, hlength] at halone
    omega

/-- Sharing fetches shows in no task exactly if the queries that share them ask for the same number
of rows. -/
theorem sharing_transparent_iff (own starter : Nat) :
    (∀ registry config events, Ordinary registry config events →
      ∀ (j : Nat) (t : Task) (q : Inquiry),
        ((start registry config).after events).tasks[j]? = some t →
        ((start registry config).questions events)[j]? = some q → q.limit config = own →
        (∀ s ∈ t.subtasks, ((start registry config).limits events)[s.fetch]? = some starter) →
        t.status = .completed →
        ∃ u, (alone registry config t.id q).tasks = [u] ∧ u.status = .completed ∧
          u.view = t.view) ↔
      own = starter := by
  constructor
  · intro hall
    by_contra hne
    obtain ⟨registry, config, events, hordinary, j, t, q, ht, hq, hlimit, hlimits, hstatus, hdiffer⟩ :=
      view_ne_alone hne
    obtain ⟨u, hu, -, hview⟩ :=
      hall registry config events hordinary j t q ht hq hlimit hlimits hstatus
    exact hdiffer u hu hview
  · rintro rfl registry config events hordinary j t q ht hq hlimit hlimits hstatus
    exact view_eq_alone hordinary ht hq (fun s hs => by rw [hlimit]; exact hlimits s hs) hstatus

end Engine

end

attribute [local instance] Regex.standard Machine.stopping

namespace Engine

/-- Of two records the second query asks for both, and shows one. -/
theorem second_query_shows_one :
    (∃ t, ((start (sampleRegistry 2) sampleConfig).after (sharingEvents 1 2)).rest.tasks[1]? = some t ∧
      t.status = .completed ∧ t.view.results.events.length = 1) ∧
    ∃ u, (alone (sampleRegistry 2) sampleConfig "second" (sampleInquiry 2)).tasks = [u] ∧
      u.status = .completed ∧ u.view.results.events.length = 2 := by
  obtain ⟨events, -, hrest, -, -, t, ht, -, -, hstatus, hlength⟩ := sharing_shows_sample 2 1 2
  exact ⟨⟨t, by rw [hrest]; exact ht, hstatus, hlength⟩, alone_shows_sample 2 2 "second"⟩

end Engine

end LogSearch
