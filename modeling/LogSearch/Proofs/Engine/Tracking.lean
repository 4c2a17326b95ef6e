import LogSearch.Proofs.Engine.Waking
import LogSearch.Proofs.Pipeline.BreakingOff
import LogSearch.Proofs.View.Histogram
import Mathlib.Data.List.GetD

/-!
# What fetches and tasks have worked out

Where nothing is reported from outside and all sources succeed, what a fetch has and what a task
shows can be said from the sources alone.

* `Fetch.Follows`: how far a fetch is with the answer of its source. One that has ended, and was not
  told to stop, has all of it.
* `Cache.Follows`: all fetches are on their way through the answers to the limits that they were
  started with.
* `Task.WorksOn`: how far a task is with the rows of its sources.
* `Engine.Follows`, `Engine.Follows.after`: all of this holds after any run.
-/

namespace LogSearch

/-! ## Fetches -/

/-- The rows of batches that are taken in one after the other. -/
def collected (batches : List (List Record)) : List Record :=
  batches.foldl (fun rows batch => if batch.isEmpty then rows else mergeByTime rows (sortByTime batch)) []

/-- A batch more is merged into the rows before it, unless it is empty. -/
theorem collected_append (batches : List (List Record)) (batch : List Record) :
    collected (batches ++ [batch]) =
      if batch.isEmpty then collected batches
      else mergeByTime (collected batches) (sortByTime batch) := by
  unfold collected
  rw [List.foldl_append]
  rfl

namespace Fetch

/-- How far a fetch is with the answer of a source that succeeds. -/
structure Follows (response : Response) (f : Fetch) : Prop where
  outcome : f.response.outcome = some (.ok ())
  status : f.status = .running ∨ f.status = .done ∨ f.status = .canceled
  /-- Unless the fetch was told to stop, it has what the source has reported so far. -/
  rows : f.cancelled = false → ∃ taken, response.batches = taken ++ f.response.batches ∧
    f.rows = collected taken
  /-- Unless the fetch was told to stop, it ends with the source. -/
  ended : f.cancelled = false → f.status ≠ .running → f.status = .done ∧ f.response.batches = []

/-- A fetch starts at the beginning of the answer. -/
theorem follows_start (identity : CacheIdentity) (task : String) {response : Response}
    (h : response.outcome = some (.ok ())) : Follows response (.start identity task response) where
  outcome := h
  status := .inl rfl
  rows _ := ⟨[], rfl, rfl⟩
  ended _ hended := absurd rfl hended

/-- A task more leaves a fetch on its way. -/
theorem follows_addTask {response : Response} {f : Fetch} (h : f.Follows response) (task : String) :
    (f.addTask task).Follows response := by
  unfold addTask
  split
  · exact h
  · exact ⟨h.outcome, h.status, h.rows, h.ended⟩

/-- A task less leaves a fetch on its way, unless it is told to stop. -/
theorem follows_letGo {response : Response} {f : Fetch} (h : f.Follows response) (task : String) :
    (Cache.letGo task f).Follows response := by
  unfold Cache.letGo
  split
  · exact ⟨h.outcome, h.status, fun hruns => Bool.noConfusion hruns, fun hruns => Bool.noConfusion hruns⟩
  · exact ⟨h.outcome, h.status, h.rows, h.ended⟩

/-- A turn takes a fetch on by a batch, or to the end of the answer. -/
theorem follows_turn {response : Response} {f : Fetch} (h : f.Follows response) :
    f.turn.Follows response := by
  unfold turn
  split
  · exact h
  next hrunning =>
  have hstatus : f.status = .running := by
    rcases h.status with hs | hs | hs
    · exact hs
    · simp [hs, FetchStatus.isSettled] at hrunning
    · simp [hs, FetchStatus.isSettled] at hrunning
  split
  · next hcancelled =>
    unfold settle
    rw [if_neg hrunning, if_pos hcancelled]
    refine ⟨h.outcome, .inr (.inr rfl), fun hruns => ?_, fun hruns => ?_⟩
    · exact absurd hcancelled (Bool.eq_false_iff.1 hruns)
    · exact absurd hcancelled (Bool.eq_false_iff.1 hruns)
  next hcancelled =>
  have hruns : f.cancelled = false := (Bool.not_eq_true _).mp hcancelled
  obtain ⟨taken, hbatches, hrows⟩ := h.rows hruns
  split
  · next batch rest hnext =>
    have htaken : response.batches = (taken ++ [batch]) ++ rest := by
      rw [hbatches, hnext, List.append_assoc, List.singleton_append]
    unfold push
    split
    · next hskip =>
      have hempty : batch.isEmpty = true := by simpa [hruns] using hskip
      refine ⟨h.outcome, h.status, fun _ => ⟨taken ++ [batch], htaken, ?_⟩, fun _ hended => ?_⟩
      · rw [collected_append, if_pos hempty]
        exact hrows
      · exact absurd hstatus hended
    · next hskip =>
      have hsome : ¬ batch.isEmpty = true := by simpa [hruns] using hskip
      refine ⟨h.outcome, h.status, fun _ => ⟨taken ++ [batch], htaken, ?_⟩, fun _ hended => ?_⟩
      · rw [collected_append, if_neg hsome, ← hrows]
      · exact absurd hstatus hended
  · next hnone =>
    rw [h.outcome]
    unfold settle
    simp only [hrunning, hruns, Bool.false_eq_true, if_false]
    exact ⟨h.outcome, .inr (.inl rfl), fun _ => ⟨taken, hbatches, hrows⟩, fun _ _ => ⟨rfl, hnone⟩⟩

/-- A fetch that has ended, and was not told to stop, has all that its source reports. -/
theorem Follows.complete {response : Response} {f : Fetch} (h : f.Follows response)
    (hruns : f.cancelled = false) (hsettled : f.status.isSettled = true) :
    f.rows = collected response.batches := by
  obtain ⟨taken, hbatches, hrows⟩ := h.rows hruns
  have hended : f.status ≠ .running := fun heq => by simp [heq, FetchStatus.isSettled] at hsettled
  rw [hbatches, (h.ended hruns hended).2, List.append_nil]
  exact hrows

/-- A fetch of a source that succeeds does not fail. -/
theorem Follows.not_failed {response : Response} {f : Fetch} (h : f.Follows response)
    (error : String) : f.status ≠ .failed error := by
  intro hfailed
  rcases h.status with hs | hs | hs <;> rw [hs] at hfailed <;> cases hfailed

end Fetch

namespace Registry

/-- Whether all sources report to the end, whatever they are asked for. -/
def Succeeds (r : Registry) : Prop :=
  ∀ name source, r.source name = .ok source → ∀ q, (source.respond q).outcome = some (.ok ())

end Registry

/-- The events of a cache that a run of the engine with this registry gives rise to, in which new
fetches ask for a number of rows and for known identities. -/
def CacheEvent.Asks (registry : Registry) (known : CacheIdentity → Prop) (limit : Nat) :
    CacheEvent → Prop
  | .referenceOrAdd identity _ response => known identity ∧
    ∃ source, registry.source identity.source = .ok source ∧ response = identity.response limit source
  | .forceRemove _ | .release .. | .turn _ => True
  | .add .. | .reference .. | .removeByKey .. | .push .. | .settle .. => False

namespace Cache

/-- All fetches are on their way through the answers to the limits that they were started with. -/
structure Follows (registry : Registry) (known : CacheIdentity → Prop) (limits : List Nat)
    (c : Cache) : Prop where
  length : limits.length = c.fetches.length
  known : ∀ n f, c.fetch? n = some f → known f.identity
  fetch : ∀ n f limit, c.fetch? n = some f → limits[n]? = some limit →
    ∃ source, registry.source f.identity.source = .ok source ∧
      f.Follows (f.identity.response limit source)

variable {registry : Registry} {known : CacheIdentity → Prop} {limits : List Nat} {c : Cache}

/-- Every event leaves the fetches on their way, and a new one starts with the limit that is asked
for. -/
theorem Follows.step (h : c.Follows registry known limits) (hsucceeds : registry.Succeeds)
    {limit : Nat} {e : CacheEvent} (he : e.Asks registry known limit) :
    (c.step e).Follows registry known
      (limits ++ List.replicate (c.started? e).toList.length limit) := by
  have hold : ∀ n f g, c.fetch? n = some f → Fetch.Change n f e g → g.identity = f.identity ∧
      ∀ response, f.Follows response → g.Follows response := by
    intro n f g _ hchange
    refine ⟨identity_change hchange, fun response hf => ?_⟩
    cases hchange with
    | same => exact hf
    | refer _ task => exact Fetch.follows_addTask hf task
    | letGo _ task _ => exact Fetch.follows_letGo hf task
    | push => exact he.elim
    | settle => exact he.elim
    | turn => exact Fetch.follows_turn hf
  have hnew : ∀ f, c.started? e = some f → known f.identity ∧
      ∃ source, registry.source f.identity.source = .ok source ∧
        f.Follows (f.identity.response limit source) := by
    intro f hstarted
    obtain ⟨identity, task, response, rfl, ⟨rfl, -⟩ | ⟨rfl, -⟩⟩ := c.started?_eq_some hstarted
    · exact he.elim
    · obtain ⟨hknown, source, hsource, rfl⟩ := he
      exact ⟨hknown, source, hsource, Fetch.follows_start identity task (hsucceeds _ _ hsource _)⟩
  refine ⟨?_, fun n g hg => ?_, fun n g l hg hl => ?_⟩
  · rw [List.length_append, List.length_replicate, h.length, length_fetches_step]
  · rcases c.fetch?_step_cases hg with ⟨f, hf, hchange⟩ | ⟨-, hstarted⟩
    · rw [(hold n f g hf hchange).1]
      exact h.known n f hf
    · exact (hnew g hstarted).1
  · rcases c.fetch?_step_cases hg with ⟨f, hf, hchange⟩ | ⟨hn, hstarted⟩
    · have hlt : n < limits.length := by
        rw [h.length]
        exact (List.getElem?_eq_some_iff.1 hf).1
      rw [List.getElem?_append_left hlt] at hl
      obtain ⟨hidentity, hfollows⟩ := hold n f g hf hchange
      obtain ⟨source, hsource, hf'⟩ := h.fetch n f l hf hl
      rw [hidentity]
      exact ⟨source, hsource, hfollows _ hf'⟩
    · rw [hstarted, Option.toList_some, List.length_singleton, List.replicate_one, hn, ← h.length,
        List.getElem?_concat_length] at hl
      cases hl
      exact (hnew g hstarted).2

/-- All events leave the fetches on their way, and new ones start with the limit that is asked for. -/
theorem Follows.after (h : c.Follows registry known limits) (hsucceeds : registry.Succeeds)
    {limit : Nat} {events : List CacheEvent} (hevents : ∀ e ∈ events, e.Asks registry known limit) :
    (c.after events).Follows registry known
      (limits ++ List.replicate (c.startedBy events).length limit) := by
  induction events generalizing c limits with
  | nil => simpa [Cache.after, startedBy] using h
  | cons e events ih =>
    have hstep := h.step hsucceeds (hevents e List.mem_cons_self)
    have hrest := ih hstep fun e' he' => hevents e' (List.mem_cons_of_mem _ he')
    rwa [startedBy, List.length_append, List.replicate_add, ← List.append_assoc]

end Cache

/-! ## Tasks -/

namespace Plan

/-- The rows of the sources of a plan, when each is asked for a number of rows of its own. -/
def rows (p : Plan) (limits : List Nat) : List Record :=
  mergeAllByTime (List.zipWith
    (fun s limit => collected ((p.identity s.1).response limit s.2).batches) p.sources limits)

end Plan

namespace Task

variable [Regex.Library] [Machine]

/-- The task shows the results over some rows. -/
def Shows (buckets : Nat) (rows : List Record) (t : Task) : Prop :=
  ∃ results, runPipeline t.range t.query.pipeline rows = .ok results ∧
    t.view.Shows t.range buckets results

/-- Some stage of the task fails on some rows. -/
def Fails (rows : List Record) (t : Task) : Prop :=
  ∃ fault, runPipeline t.range t.query.pipeline rows = .error fault

/-- Arithmetic breaks the task off, in a stage over some rows or in the histogram. -/
def BreaksOff (buckets : Nat) (t : Task) : Prop :=
  (∃ rows fault, runPipeline t.range t.query.pipeline rows = .error fault ∧ fault.stops = true) ∨
    Histogram.grid? t.range buckets = none

/-- A task that shows results over some rows is not broken off over any. -/
theorem Shows.not_breaksOff {buckets : Nat} {rows : List Record} {t : Task}
    (h : t.Shows buckets rows) : ¬t.BreaksOff buckets := by
  obtain ⟨results, hrun, hshows⟩ := h
  rintro (⟨others, fault, hfault, hstops⟩ | hgrid)
  · rw [stops_eq_false_of_runPipeline hrun hfault] at hstops
    cases hstops
  · have hhistogram := hshows.histogram
    rw [Histogram.ofEvents?_eq_none_iff.2 hgrid] at hhistogram
    cases hhistogram

section

variable {buckets : Nat} {rows : List Record} {t u : Task} {told : List TaskUpdate}

/-- A run that succeeds shows its results. -/
theorem Ran.shows (h : t.Ran buckets rows .succeeded u told) : u.Shows buckets rows := by
  cases h with
  | succeeded _ hrun hview => exact ⟨_, hrun, hview⟩

/-- A run fails because a stage does, if the task is not to stop. -/
theorem Ran.fails (h : t.Ran buckets rows .failed u told) : u.cancelled = true ∨ u.Fails rows := by
  cases h with
  | skipped hcancelled => exact .inl hcancelled
  | failed _ hrun => exact .inr ⟨_, hrun⟩

/-- A run is broken off by arithmetic. -/
theorem Ran.breaksOff (h : t.Ran buckets rows .brokenOff u told) : u.BreaksOff buckets := by
  cases h with
  | uncounted _ _ hhistogram => exact .inr (Histogram.ofEvents?_eq_none_iff.1 hhistogram)
  | stopped _ hrun hstops => exact .inl ⟨_, _, hrun, hstops⟩

end

/-- What there is to know about a task before its next section, for the rows of its sources. -/
def Ready (buckets : Nat) (rows : List Record) (t : Task) : Phase → Prop
  | .computing input _ true => input = rows
  | .concluding true => t.Shows buckets rows
  | .concluding false => t.cancelled = true ∨ t.Fails rows
  | .ended => t.status ≠ .running
  | .brokenOff => t.BreaksOff buckets
  | .starting | .waiting _ | .computing _ _ false => True

/-- How far a task is with the rows of its sources. -/
structure WorksOn (buckets : Nat) (rows : List Record) (t : Task) : Prop where
  ready : t.Ready buckets rows t.phase
  completed : t.status = .completed → t.phase = .ended ∧ t.Shows buckets rows
  failed : t.status = .failed → t.phase = .ended ∧ t.Fails rows
  canceled : t.status = .canceled → t.cancelled = true

variable {buckets : Nat} {rows : List Record} {t : Task}

/-- A task that starts has all its rows ahead of it. -/
theorem worksOn_start (id text : String) (query : Query) (range : TimeRange)
    (subtasks : List Subtask) : WorksOn buckets rows (.start id text query range subtasks) where
  ready := trivial
  completed h := TaskStatus.noConfusion h
  failed h := TaskStatus.noConfusion h
  canceled h := TaskStatus.noConfusion h

/-- What there is to know about a task is told by its phase. -/
theorem WorksOn.ready_at (h : t.WorksOn buckets rows) {phase : Phase} (hphase : t.phase = phase) :
    t.Ready buckets rows phase := hphase ▸ h.ready

/-- An order to stop does not change what there is to know. -/
theorem Ready.stopped {phase : Phase} (h : t.Ready buckets rows phase) {status : TaskStatus}
    (hstatus : t.status ≠ .running → status ≠ .running) :
    Ready buckets rows { t with status, cancelled := true, released := true } phase := by
  cases phase with
  | concluding succeeded =>
    cases succeeded with
    | true => exact h
    | false => exact .inl rfl
  | computing input seen last => cases last <;> exact h
  | ended => exact hstatus h
  | starting | waiting | brokenOff => exact h

/-- A task that is told to stop has as much in hand as before. -/
theorem WorksOn.stopped (h : t.WorksOn buckets rows) : t.stopped.WorksOn buckets rows := by
  unfold Task.stopped finish
  split
  · exact {
      ready := h.ready.stopped fun _ => TaskStatus.noConfusion
      completed := fun hstatus => TaskStatus.noConfusion hstatus
      failed := fun hstatus => TaskStatus.noConfusion hstatus
      canceled := fun _ => rfl }
  · exact {
      ready := h.ready.stopped fun hended => hended
      completed := h.completed
      failed := h.failed
      canceled := fun _ => rfl }

/-- A task that has not ended is at another section. -/
theorem WorksOn.rephase (h : t.WorksOn buckets rows) (hopen : t.phase ≠ .ended) {phase : Phase}
    (hready : t.Ready buckets rows phase) : WorksOn buckets rows { t with phase } where
  ready := hready
  completed hstatus := absurd (h.completed hstatus).1 hopen
  failed hstatus := absurd (h.failed hstatus).1 hopen
  canceled := h.canceled

/-- Going on, a task works on the same rows, which it has in hand once all fetches have ended. -/
theorem WorksOn.proceed {c : Cache} (h : t.WorksOn buckets rows) (hopen : t.phase ≠ .ended)
    (hruns : t.status = .running → t.cancelled = false)
    (hrows : t.cancelled = false → t.isSettled c = true → t.mergedRows c = rows) (seen : List Nat) :
    (t.proceed c seen).WorksOn buckets rows := by
  unfold Task.proceed
  split
  · exact h.rephase hopen trivial
  next hsettled =>
  rw [Bool.not_eq_true', Bool.not_eq_false] at hsettled
  split
  · next hcancelled =>
    have hready : t.Ready buckets rows .ended := by
      intro hrunning
      rw [hruns hrunning] at hcancelled
      cases hcancelled
    exact h.rephase hopen hready
  · next hcancelled =>
    exact h.rephase hopen (hrows ((Bool.not_eq_true _).mp hcancelled) hsettled)

/-- A run of the pipeline leaves all but the view and the error in place. -/
theorem WorksOn.ran (h : t.WorksOn buckets rows) {input : List Record} {seen : List Nat} {last : Bool}
    (hphase : t.phase = .computing input seen last) {runEnd : RunEnd} {u : Task}
    {told : List TaskUpdate} (hran : t.Ran buckets input runEnd u told) : u.WorksOn buckets rows := by
  have hopen : t.phase ≠ .ended := fun heq => by rw [hphase] at heq; cases heq
  have hkept : ∀ view error, WorksOn buckets rows { t with view, error } := by
    intro view error
    have hready : Ready buckets rows { t with view, error } (.computing input seen last) := by
      have hready := h.ready_at hphase
      cases last <;> exact hready
    exact {
      ready := hphase ▸ hready
      completed := fun hstatus => absurd (h.completed hstatus).1 hopen
      failed := fun hstatus => absurd (h.failed hstatus).1 hopen
      canceled := h.canceled }
  cases hran <;> exact hkept _ _

omit [Regex.Library] [Machine] in
/-- Without failed fetches the last run alone decides about the status. -/
theorem conclude_eq {c : Cache} (t : Task) (succeeded : Bool)
    (h : ∀ f ∈ t.fetches c, ∀ error, f.status ≠ .failed error) :
    ∃ error, (t.conclude c succeeded).1 = (finish { t with error, phase := .ended }
      (if succeeded then .completed else .failed)).2 := by
  simp only [Task.conclude]
  generalize hfailures : List.filterMap _ ((t.fetches c).map Fetch.status) = failures
  obtain rfl : failures = [] := by
    rw [← hfailures, List.filterMap_eq_nil_iff]
    intro status hstatus
    obtain ⟨f, hf, rfl⟩ := List.mem_map.1 hstatus
    cases heq : f.status with
    | failed error => exact absurd heq (h f hf error)
    | running | done | canceled => rfl
  have hlive : ∀ n : Nat, (decide (0 < n) && decide (([] : List String).length = n)) = false := by
    intro n
    cases n <;> simp
  refine ⟨t.error, ?_⟩
  simp only [hlive, Bool.false_or]
  cases succeeded <;> rfl

/-- The conclusion of a task follows from its last run, if none of its fetches has failed. -/
theorem WorksOn.conclude {c : Cache} (h : t.WorksOn buckets rows) {succeeded : Bool}
    (hphase : t.phase = .concluding succeeded) (hruns : t.status = .running → t.cancelled = false)
    (hfetches : ∀ f ∈ t.fetches c, ∀ error, f.status ≠ .failed error) :
    (t.conclude c succeeded).1.WorksOn buckets rows := by
  have hopen : t.phase ≠ .ended := fun heq => by rw [hphase] at heq; cases heq
  have hready := h.ready_at hphase
  obtain ⟨error, hconclude⟩ := t.conclude_eq succeeded hfetches
  rw [hconclude]
  unfold finish
  split
  · next hrunning =>
    change t.status = .running at hrunning
    cases succeeded with
    | true => exact {
        ready := TaskStatus.noConfusion
        completed := fun _ => ⟨rfl, hready⟩
        failed := fun hstatus => TaskStatus.noConfusion hstatus
        canceled := fun hstatus => TaskStatus.noConfusion hstatus }
    | false =>
      have hfails : t.Fails rows := by
        rcases hready with hcancelled | hfails
        · rw [hruns hrunning] at hcancelled
          cases hcancelled
        · exact hfails
      exact {
        ready := TaskStatus.noConfusion
        completed := fun hstatus => TaskStatus.noConfusion hstatus
        failed := fun _ => ⟨rfl, hfails⟩
        canceled := fun hstatus => TaskStatus.noConfusion hstatus }
  · next hrunning =>
    exact {
      ready := hrunning
      completed := fun hstatus => absurd (h.completed hstatus).1 hopen
      failed := fun hstatus => absurd (h.failed hstatus).1 hopen
      canceled := h.canceled }

/-- Every section leaves a task working on the same rows. -/
theorem WorksOn.step {c : Cache} (h : t.WorksOn buckets rows)
    (hruns : t.status = .running → t.cancelled = false)
    (hrows : t.cancelled = false → t.isSettled c = true → t.mergedRows c = rows)
    (hfetches : ∀ f ∈ t.fetches c, ∀ error, f.status ≠ .failed error) :
    (t.step c buckets).1.WorksOn buckets rows := by
  obtain ⟨u, told, hstep, hsection⟩ := t.section_of_step c buckets
  rw [hstep]
  cases hsection with
  | start hphase | settled hphase =>
    exact h.proceed (by simp [hphase]) hruns hrows _
  | stop hphase hcancelled =>
    have hready : t.Ready buckets rows .ended := by
      intro hrunning
      rw [hruns hrunning] at hcancelled
      cases hcancelled
    exact h.rephase (by simp [hphase]) hready
  | wait | rest => exact h
  | arrival hphase => exact h.rephase (by simp [hphase]) trivial
  | compute hphase hran =>
    have hsetup := hran.setup_eq
    have hsubtasks := subtasks_eq_of_setup hsetup
    refine (h.ran hphase hran).proceed (by simp [hran.phase_eq, hphase]) ?_ ?_ _
    · rw [hran.status_eq, cancelled_eq_of_setup hsetup]
      exact hruns
    · rw [cancelled_eq_of_setup hsetup, isSettled_congr c hsubtasks, mergedRows_congr c hsubtasks]
      exact hrows
  | @computeLast input seen runEnd u told hphase hran hend =>
    obtain rfl : input = rows := h.ready_at hphase
    refine (h.ran hphase hran).rephase (by simp [hran.phase_eq, hphase]) ?_
    cases runEnd with
    | succeeded => exact hran.shows
    | failed => exact hran.fails
    | brokenOff => exact absurd rfl hend
  | breakOff hphase hran =>
    exact (h.ran hphase hran).rephase (by simp [hran.phase_eq, hphase]) hran.breaksOff
  | conclude hphase => exact h.conclude hphase hruns hfetches

end Task

/-! ## All of it -/

namespace Engine

/-- The limit that new fetches are started with; only queries start any. -/
def eventLimit (e : Engine) : EngineEvent → Nat
  | .run _ q => q.limit e.config
  | _ => 0

variable [Regex.Library] [Machine]

/-- The limits that the fetches of a run are started with, in the order of their numbers. -/
def limits (e : Engine) : List EngineEvent → List Nat
  | [] => []
  | ev :: events =>
    List.replicate (e.cache.startedBy (e.cacheEvents ev)).length (e.eventLimit ev) ++
      limits (e.step ev) events

/-- The identities that a query is about. -/
def eventIdentities (registry : Registry) (config : EngineConfig) : EngineEvent → List CacheIdentity
  | .run _ q =>
    match plan registry config q with
    | .ok p => p.sources.map fun s => p.identity s.1
    | .error _ => []
  | _ => []

/-- What a task was asked, and how far it is with it. -/
structure Tracks (registry : Registry) (config : EngineConfig) (limits : List Nat) (c : Cache)
    (q : Inquiry) (t : Task) (p : Plan) : Prop where
  plan : plan registry config q = .ok p
  query : t.query = p.query
  range : t.range = p.range
  fetches : List.Forall₂ (fun (s : Subtask) (source : String × Source) =>
    ∃ f, c.fetch? s.fetch = some f ∧ f.identity = p.identity source.1) t.subtasks p.sources
  works : t.WorksOn config.buckets (p.rows (t.subtasks.map fun s => limits.getD s.fetch 0))

/-- Where all fetches and all tasks are after a run. -/
structure Follows (registry : Registry) (config : EngineConfig) (known : CacheIdentity → Prop)
    (limits : List Nat) (questions : List Inquiry) (e : Engine) : Prop where
  sameRegistry : e.registry = registry
  sameConfig : e.config = config
  cache : e.cache.Follows registry known limits
  length : questions.length = e.tasks.length
  task : ∀ (j : Nat) t q, e.tasks[j]? = some t → questions[j]? = some q →
    ∃ p, Tracks registry config limits e.cache q t p

variable {registry : Registry} {config : EngineConfig} {known : CacheIdentity → Prop}
  {limits : List Nat} {questions : List Inquiry} {e : Engine}

/-- Events of the engine itself ask for the limit and the identities of their query. -/
theorem asks_cacheEvents (hregistry : e.registry = registry) (hconfig : e.config = config)
    {ev : EngineEvent} (hinternal : ev.isInternal = true)
    (hknown : ∀ i ∈ eventIdentities registry config ev, known i) :
    ∀ c ∈ e.cacheEvents ev, c.Asks registry known (e.eventLimit ev) := by
  intro c hc
  cases makes_of_mem hc with
  | @referenceOrAdd id q p s hplan hs =>
    rw [hregistry, hconfig] at hplan
    rw [eventLimit, hconfig]
    refine ⟨hknown _ ?_, s.2, source_of_mem_plan hplan hs, rfl⟩
    simp only [eventIdentities, hplan]
    exact List.mem_map.2 ⟨s, hs, rfl⟩
  | forceRemove | cancel | release | turn => exact trivial
  | report | settle => cases hinternal

omit [Regex.Library] [Machine] in
/-- The rows of the fetches of a task are those of its sources, source by source. -/
theorem mergeFetches_eq {c : Cache} {limit : Subtask → Nat}
    (rows : String × Source → Nat → List Record) {subtasks : List Subtask} {sources : List (String × Source)}
    (h : List.Forall₂ (fun (s : Subtask) source =>
      ∃ f, c.fetch? s.fetch = some f ∧ f.rows = rows source (limit s)) subtasks sources) :
    (subtasks.filterMap fun s => c.fetch? s.fetch).map Fetch.rows =
      List.zipWith rows sources (subtasks.map limit) := by
  induction h with
  | nil => rfl
  | cons hs _ ih =>
    obtain ⟨f, hf, hrows⟩ := hs
    simp only [List.filterMap_cons, hf, List.map_cons, List.zipWith_cons_cons, ih, hrows]

/-- Once the fetches of a task have ended, and were not told to stop, it has the rows of its
sources. -/
theorem Tracks.mergedRows {c : Cache} {q : Inquiry} {t : Task} {p : Plan}
    (h : Tracks registry config limits c q t p) (hcache : c.Follows registry known limits)
    (hruns : ∀ s ∈ t.subtasks, ∀ f, c.fetch? s.fetch = some f → f.cancelled = false)
    (hsettled : t.isSettled c = true) :
    t.mergedRows c = p.rows (t.subtasks.map fun s => limits.getD s.fetch 0) := by
  have hrows : List.Forall₂ (fun (s : Subtask) (source : String × Source) =>
      ∃ f, c.fetch? s.fetch = some f ∧ f.rows = collected
        ((p.identity source.1).response (limits.getD s.fetch 0) source.2).batches)
      t.subtasks p.sources := by
    refine List.forall₂_iff_zip.2 ⟨h.fetches.length_eq, fun {s source} hzip => ?_⟩
    obtain ⟨hs, hsource⟩ := List.of_mem_zip hzip
    obtain ⟨f, hf, hidentity⟩ := List.forall₂_zip h.fetches hzip
    have hlt : s.fetch < limits.length := by
      rw [hcache.length]
      exact (List.getElem?_eq_some_iff.1 hf).1
    have hlimit : limits[s.fetch]? = some (limits.getD s.fetch 0) := by
      rw [List.getD_eq_getElem _ _ hlt]
      exact List.getElem?_eq_getElem hlt
    obtain ⟨found, hfound, hfollows⟩ := hcache.fetch s.fetch f _ hf hlimit
    have hsame : found = source.2 := by
      have hregistered := source_of_mem_plan h.plan hsource
      rw [hidentity] at hfound
      exact Except.ok.inj (hfound.symm.trans hregistered)
    have hended : f.status.isSettled = true :=
      List.all_eq_true.1 hsettled f (List.mem_filterMap.2 ⟨s, hs, hf⟩)
    refine ⟨f, hf, ?_⟩
    rw [← hidentity, ← hsame]
    exact hfollows.complete (hruns s hs f hf) hended
  have hmerge := mergeFetches_eq (fun source limit =>
    collected ((p.identity source.1).response limit source.2).batches) hrows
  unfold Task.mergedRows Plan.rows Task.fetches
  rw [hmerge]

/-- What a task was asked stays while other things happen. -/
theorem Tracks.later {c d : Cache} {q : Inquiry} {t u : Task} {p : Plan} {more : List Nat}
    (h : Tracks registry config limits c q t p) (hcache : c.Follows registry known limits)
    (hlater : ∀ n f, c.fetch? n = some f → ∃ g, d.fetch? n = some g ∧ g.identity = f.identity)
    (hquery : u.query = t.query) (hrange : u.range = t.range) (hsubtasks : u.subtasks = t.subtasks)
    (hworks : ∀ rows, t.WorksOn config.buckets rows → rows = p.rows
      (t.subtasks.map fun s => limits.getD s.fetch 0) → u.WorksOn config.buckets rows) :
    Tracks registry config (limits ++ more) d q u p := by
  have hlimits : (u.subtasks.map fun s => (limits ++ more).getD s.fetch 0) =
      t.subtasks.map fun s => limits.getD s.fetch 0 := by
    rw [hsubtasks]
    refine List.map_congr_left fun s hs => ?_
    obtain ⟨source, -, f, hf, -⟩ := exists_of_forall₂ h.fetches hs
    have hlt : s.fetch < limits.length := by
      rw [hcache.length]
      exact (List.getElem?_eq_some_iff.1 hf).1
    rw [List.getD_append _ _ _ _ hlt]
  refine ⟨h.plan, hquery.trans h.query, hrange.trans h.range, ?_, ?_⟩
  · rw [hsubtasks]
    refine h.fetches.imp fun s source hs => ?_
    obtain ⟨f, hf, hidentity⟩ := hs
    obtain ⟨g, hg, hsame⟩ := hlater s.fetch f hf
    exact ⟨g, hg, hsame.trans hidentity⟩
  · rw [hlimits]
    exact hworks _ h.works rfl

/-- A task starts with everything before it. -/
theorem tracks_of_started (h : e.Follows registry config known limits questions) (hsound : e.Sound)
    {ev : EngineEvent} {u : Task} (hstarted : e.started? ev = some u)
    {after : List Nat} (hcache : (e.step ev).cache.Follows registry known after)
    (hknown : ∀ i ∈ eventIdentities registry config ev, known i)
    (hkeys : ∀ i j, known i → known j → i.key = j.key → i = j) :
    ∃ id q p, ev = .run id q ∧ Tracks registry config after (e.step ev).cache q u p := by
  obtain ⟨id, q, p, rfl, -, hp, hstep, rfl⟩ := started?_eq_some hstarted
  rw [h.sameRegistry, h.sameConfig] at hp
  refine ⟨id, q, p, rfl, hp, rfl, rfl, ?_, Task.worksOn_start _ _ _ _ _⟩
  have hattached := forall₂_attachAll hsound.cache id q.options.forced p (q.limit e.config) p.sources
  refine List.forall₂_iff_zip.2 ⟨hattached.length_eq, fun {s source} hzip => ?_⟩
  obtain ⟨-, f, hf, hkey, -⟩ := List.forall₂_zip hattached hzip
  have hfetch : (e.step (.run id q)).cache.fetch? s.fetch = some f := by
    rw [hstep]
    exact hf
  refine ⟨f, hfetch, hkeys _ _ (hcache.known s.fetch f hfetch) (hknown _ ?_) hkey⟩
  simp only [eventIdentities, hp]
  exact List.mem_map.2 ⟨source, (List.of_mem_zip hzip).2, rfl⟩

/-- Every event leaves fetches and tasks on their way. -/
theorem Follows.step (h : e.Follows registry config known limits questions) (hsound : e.Sound)
    (hsucceeds : registry.Succeeds) {ev : EngineEvent} (hinternal : ev.isInternal = true)
    (hknown : ∀ i ∈ eventIdentities registry config ev, known i)
    (hkeys : ∀ i j, known i → known j → i.key = j.key → i = j) :
    (e.step ev).Follows registry config known
      (limits ++ List.replicate (e.cache.startedBy (e.cacheEvents ev)).length (e.eventLimit ev))
      (questions ++ (e.question? ev).toList) := by
  obtain ⟨hregistry, hconfig⟩ := config_step e ev
  have hcache := h.cache.after hsucceeds
    (asks_cacheEvents h.sameRegistry h.sameConfig hinternal hknown)
  rw [← cache_step] at hcache
  have hlater : ∀ n f, e.cache.fetch? n = some f →
      ∃ g, (e.step ev).cache.fetch? n = some g ∧ g.identity = f.identity := by
    intro n f hf
    obtain ⟨g, hg, hidentity, -⟩ := Cache.fetch?_after hf (e.cacheEvents ev)
    rw [cache_step]
    exact ⟨g, hg, hidentity⟩
  refine ⟨hregistry.trans h.sameRegistry, hconfig.trans h.sameConfig, hcache, ?_,
    fun j u q hu hq => ?_⟩
  · rw [List.length_append, h.length, length_tasks_step]
  · rcases task_question_cases hsound.names h.length hu hq with
      ⟨t, ht, hq, hchange⟩ | ⟨id, rfl, hstarted⟩
    · obtain ⟨p, htracks⟩ := h.task j t q ht hq
      have hmem := List.mem_of_getElem? ht
      obtain ⟨-, hquery, hrange, hsubtasks⟩ := hchange.kept
      refine ⟨p, htracks.later h.cache hlater hquery hrange hsubtasks fun rows hworks hrows => ?_⟩
      cases hchange with
      | same => exact hworks
      | cancel => exact hworks.stopped
      | release =>
        have hstopped := hworks.stopped
        exact { hstopped with }
      | step =>
        rw [h.sameConfig]
        refine hworks.step (hsound.running t hmem) (fun hcancelled hsettled => ?_) fun f hf error => ?_
        · rw [hrows]
          exact htracks.mergedRows h.cache
            (fun s hs f hf => hsound.runs hmem hcancelled hs hf) hsettled
        · obtain ⟨s, hs, hf⟩ := List.mem_filterMap.1 hf
          have hn : s.fetch < limits.length := by
            rw [h.cache.length]
            exact (List.getElem?_eq_some_iff.1 hf).1
          obtain ⟨source, -, hfollows⟩ := h.cache.fetch s.fetch f _ hf (List.getElem?_eq_getElem hn)
          exact hfollows.not_failed error
    · obtain ⟨other, asked, p, heq, htracks⟩ :=
        tracks_of_started h hsound hstarted hcache hknown hkeys
      cases heq
      exact ⟨p, htracks⟩

/-- Before any event there is nothing on its way. -/
theorem follows_start (registry : Registry) (config : EngineConfig) (known : CacheIdentity → Prop) :
    (start registry config).Follows registry config known [] [] where
  sameRegistry := rfl
  sameConfig := rfl
  cache := ⟨rfl, fun n f h => by simp [start, Cache.empty, Cache.fetch?] at h,
    fun n f _ h => by simp [start, Cache.empty, Cache.fetch?] at h⟩
  length := rfl
  task j t q h := by simp [start] at h

/-- All events leave fetches and tasks on their way. -/
theorem Follows.after (h : e.Follows registry config known limits questions) (hsound : e.Sound)
    (hsucceeds : registry.Succeeds) {events : List EngineEvent}
    (hinternal : ∀ ev ∈ events, ev.isInternal = true)
    (hknown : ∀ i ∈ events.flatMap (eventIdentities registry config), known i)
    (hkeys : ∀ i j, known i → known j → i.key = j.key → i = j) :
    (e.after events).Follows registry config known (limits ++ e.limits events)
      (questions ++ e.questions events) := by
  induction events generalizing e limits questions with
  | nil => simpa [Engine.after, Engine.limits, Engine.questions] using h
  | cons ev events ih =>
    rw [List.flatMap_cons] at hknown
    have hstep := h.step hsound hsucceeds (hinternal ev List.mem_cons_self)
      (fun i hi => hknown i (List.mem_append_left _ hi)) hkeys
    have hrest := ih hstep (hsound.step ev) (fun ev' hev' => hinternal ev' (List.mem_cons_of_mem _ hev'))
      fun i hi => hknown i (List.mem_append_right _ hi)
    rw [List.append_assoc, List.append_assoc] at hrest
    exact hrest

end Engine

end LogSearch
