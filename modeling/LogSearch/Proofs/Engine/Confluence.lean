import LogSearch.Proofs.Engine.Emission
import LogSearch.Proofs.Engine.Transparency
import LogSearch.Proofs.Record.Queue
import LogSearch.Regex.Program

/-!
# What a task ends with

Sources emit their rows in batches of any size, in any order between each other and between the
sections of a task, which runs its pipeline again and again on what there is. None of that shows at
the end: the last run is over all rows that the sources have emitted, and the status is decided by
that run and by the sources that failed.

* `Task.Gathered`: the sources of a task have all ended, and none was told to stop before.
* `Task.Concluded`: the end that its rows and its fetches give a task.
* `Task.Converges`: how far a task is on its way to that end.
* `Engine.converges_after`: every event keeps a task on its way, hence every run.
* `Engine.driver_confluent`: the end of a task, in terms of what its sources have emitted.
-/

namespace LogSearch

namespace Task

/-! ## The end of a task -/

/-- All fetches of the task have ended, and none of them because it was told to stop. -/
def Gathered (c : Cache) (t : Task) : Prop :=
  ∀ s ∈ t.subtasks, ∃ f, c.fetch? s.fetch = some f ∧ f.status.isSettled = true ∧ f.status ≠ .canceled

/-- All fetches of the task have failed. -/
def AllFailed (c : Cache) (t : Task) : Prop :=
  ∀ s ∈ t.subtasks, ∃ f error, c.fetch? s.fetch = some f ∧ f.status = .failed error

variable [Regex.Library] [Machine]

/-- The end that some rows and its fetches give a task. -/
structure Concluded (c : Cache) (buckets : Nat) (rows : List Record) (t : Task) : Prop where
  gathered : t.Gathered c
  /-- The task has the results that the pipeline makes of the rows, -/
  results : ∀ results, runPipeline t.range t.query.pipeline rows = .ok results →
    t.view.results = results
  /-- and shows the index and the histogram of their events. -/
  derived : ∀ results, runPipeline t.range t.query.pipeline rows = .ok results →
    t.view.index = TimeIndex.ofEvents results.events ∧
      Histogram.ofEvents? results.events t.range buckets = some t.view.histogram
  /-- The task has failed exactly if the pipeline fails on the rows, or all sources have failed. -/
  failed : t.status = .failed ↔ t.Fails rows ∨ t.AllFailed c

/-- What there is to know about a task before its next section, on its way to its end. -/
def Nears (c : Cache) (buckets : Nat) (t : Task) : Phase → Prop
  | .computing input _ true => t.status = .running → t.Gathered c ∧ input = t.mergedRows c
  | .concluding succeeded => t.status = .running → t.Gathered c ∧
      (succeeded = true → t.Shows buckets (t.mergedRows c)) ∧
      (succeeded = false → t.Fails (t.mergedRows c))
  | .ended => t.status ≠ .running
  | .brokenOff => t.BreaksOff buckets
  | .starting | .waiting _ | .computing _ _ false => True

/-- How far a task is on its way to its end. -/
structure Converges (c : Cache) (buckets : Nat) (t : Task) : Prop where
  nears : t.Nears c buckets t.phase
  concluded : t.status = .completed ∨ t.status = .failed → t.phase = .ended ∧
    t.Concluded c buckets (t.mergedRows c)

variable {c : Cache} {buckets : Nat} {t : Task}

/-- A task that starts is on its way to its end. -/
theorem converges_start (id text : String) (query : Query) (range : TimeRange)
    (subtasks : List Subtask) : Converges c buckets (.start id text query range subtasks) where
  nears := trivial
  concluded h := h.elim TaskStatus.noConfusion TaskStatus.noConfusion

/-- What a task is near to is told by its phase. -/
theorem Converges.nears_at (h : t.Converges c buckets) {phase : Phase} (hphase : t.phase = phase) :
    t.Nears c buckets phase := hphase ▸ h.nears

/-- A task that has not ended is at another section. -/
theorem Converges.rephase (h : t.Converges c buckets) (hopen : t.phase ≠ .ended) {phase : Phase}
    (hnears : t.Nears c buckets phase) : Converges c buckets { t with phase } where
  nears := hnears
  concluded hstatus := absurd (h.concluded hstatus).1 hopen

/-- A task that was told to stop does not run any more, and has nothing left to do. -/
theorem nears_ended (hruns : t.status = .running → t.cancelled = false) (hstop : t.cancelled = true) :
    t.Nears c buckets .ended := by
  intro hrunning
  rw [hruns hrunning] at hstop
  cases hstop

/-- Going on after a section, a task stays on its way to its end. -/
theorem Converges.proceed (h : t.Converges c buckets) (hopen : t.phase ≠ .ended)
    (hruns : t.status = .running → t.cancelled = false)
    (hgathered : t.status = .running → t.isSettled c = true → t.Gathered c) (seen : List Nat) :
    (t.proceed c seen).Converges c buckets := by
  unfold Task.proceed
  split
  · exact h.rephase hopen trivial
  next hsettled =>
  rw [Bool.not_eq_true', Bool.not_eq_false] at hsettled
  split
  · next hstop => exact h.rephase hopen (nears_ended hruns hstop)
  · have hnears : t.Nears c buckets (.computing (t.mergedRows c) seen true) :=
      fun hrunning => ⟨hgathered hrunning hsettled, rfl⟩
    exact h.rephase hopen hnears

omit [Regex.Library] [Machine] in
/-- What a task has gathered is told by its fetches. -/
theorem Gathered.congr {u : Task} (h : t.Gathered c) (hsubtasks : u.subtasks = t.subtasks) :
    u.Gathered c := by
  unfold Gathered
  rw [hsubtasks]
  exact h

/-! ## The conclusion -/

omit [Regex.Library] [Machine] in
/-- The fetches of a task are those that its parts refer to. -/
theorem mem_fetches {f : Fetch} : f ∈ t.fetches c ↔ ∃ s ∈ t.subtasks, c.fetch? s.fetch = some f :=
  List.mem_filterMap

omit [Regex.Library] [Machine] in
/-- The task fails if its last run did, or if all its fetches have. -/
theorem conclude_status (hgathered : t.Gathered c) (hsome : t.subtasks ≠ [])
    (hrunning : t.status = .running) (succeeded : Bool) :
    ((t.conclude c succeeded).1.status = .failed ↔ succeeded = false ∨ t.AllFailed c) ∧
      (t.conclude c succeeded).1.status ≠ .canceled := by
  have hlive : (((t.fetches c).map Fetch.status).filter fun s => s ≠ .canceled) =
      (t.fetches c).map Fetch.status := by
    refine List.filter_eq_self.2 fun status hstatus => decide_eq_true ?_
    obtain ⟨f, hf, rfl⟩ := List.mem_map.1 hstatus
    obtain ⟨s, hs, hfetch⟩ := mem_fetches.1 hf
    obtain ⟨g, hg, -, hended⟩ := hgathered s hs
    obtain rfl : g = f := Option.some.inj (hg.symm.trans hfetch)
    exact hended
  have hpositive : 0 < ((t.fetches c).map Fetch.status).length := by
    obtain ⟨s, hs⟩ := List.exists_mem_of_ne_nil _ hsome
    obtain ⟨f, hf, -⟩ := hgathered s hs
    rw [List.length_map]
    exact List.length_pos_of_mem (mem_fetches.2 ⟨s, hs, hf⟩)
  simp only [conclude, finish, hrunning, if_true, hlive]
  generalize hfailures : List.filterMap _ ((t.fetches c).map Fetch.status) = failures
  have hall : failures.length = ((t.fetches c).map Fetch.status).length ↔ t.AllFailed c := by
    rw [← hfailures, List.filterMap_length_eq_length, List.forall_mem_map]
    constructor
    · intro h s hs
      obtain ⟨f, hf, -⟩ := hgathered s hs
      have hfailed := h f (mem_fetches.2 ⟨s, hs, hf⟩)
      cases hstatus : f.status with
      | failed error => exact ⟨f, error, hf, hstatus⟩
      | running | done | canceled => simp [hstatus] at hfailed
    · intro h f hf
      obtain ⟨s, hs, hfetch⟩ := mem_fetches.1 hf
      obtain ⟨g, error, hg, hstatus⟩ := h s hs
      obtain rfl : g = f := Option.some.inj (hg.symm.trans hfetch)
      rw [hstatus]
      rfl
  rw [← hall]
  by_cases heq : failures.length = ((t.fetches c).map Fetch.status).length
  · simp [-List.length_map, heq, hpositive]
  · cases succeeded <;> simp [-List.length_map, heq]

/-- A task that has ended, and concluded what it had to, is where it was to get. -/
theorem Converges.of_ended (hphase : t.phase = .ended) (hstatus : t.status ≠ .running)
    (hconcluded : t.status = .completed ∨ t.status = .failed →
      t.Concluded c buckets (t.mergedRows c)) :
    t.Converges c buckets where
  nears := hphase ▸ hstatus
  concluded h := ⟨hphase, hconcluded h⟩

/-- A task that comes to its conclusion has gathered all rows of its fetches, and ends with them. -/
theorem Converges.conclude (h : t.Converges c buckets) (hsome : t.subtasks ≠ []) {succeeded : Bool}
    (hphase : t.phase = .concluding succeeded) : (t.conclude c succeeded).1.Converges c buckets := by
  have hopen : t.phase ≠ .ended := by simp [hphase]
  have hsetup := setup_conclude c t succeeded
  obtain ⟨⟨-, hquery, hrange, hsubtasks⟩, -⟩ := fields_of_setup hsetup
  have hview := view_conclude c t succeeded
  have hended := phase_conclude c t succeeded
  by_cases hrunning : t.status = .running
  · obtain ⟨hgathered, hshows, hfails⟩ := h.nears_at hphase hrunning
    obtain ⟨hstatus, hcanceled⟩ := conclude_status hgathered hsome hrunning succeeded
    have hshown : ∀ results, runPipeline t.range t.query.pipeline (t.mergedRows c) = .ok results →
        t.view.Shows t.range buckets results := by
      intro results hrun
      cases succeeded with
      | true =>
        obtain ⟨shown, hshown, hview⟩ := hshows rfl
        rw [hrun] at hshown
        cases hshown
        exact hview
      | false =>
        obtain ⟨fault, hfault⟩ := hfails rfl
        rw [hrun] at hfault
        cases hfault
    rw [← mergedRows_congr c hsubtasks, ← hrange, ← hquery, ← hview] at hshown
    refine .of_ended hended ?_ fun _ => ⟨hgathered.congr hsubtasks,
      fun results hrun => (hshown results hrun).results,
      fun results hrun => ⟨(hshown results hrun).index, (hshown results hrun).histogram⟩, ?_⟩
    · simp only [Task.conclude, finish, hrunning, if_true]
      split <;> exact TaskStatus.noConfusion
    · have hfailing : succeeded = false ↔ t.Fails (t.mergedRows c) := by
        refine ⟨hfails, ?_⟩
        rintro ⟨fault, hfault⟩
        rw [← Bool.not_eq_true]
        intro hsucceeded
        obtain ⟨results, hrun, -⟩ := hshows hsucceeded
        rw [hfault] at hrun
        cases hrun
      unfold Fails AllFailed
      rw [hstatus, mergedRows_congr c hsubtasks, hrange, hquery, hsubtasks, hfailing]
      rfl
  · have hsame : (t.conclude c succeeded).1.status = t.status := by
      simp only [Task.conclude, finish, hrunning, if_false]
    refine .of_ended hended (hsame ▸ hrunning) fun hstatus => ?_
    rw [hsame] at hstatus
    exact absurd (h.concluded hstatus).1 hopen

/-! ## Steps -/

/-- A run of the pipeline keeps a task on its way. -/
theorem Converges.ran (h : t.Converges c buckets) {input : List Record} {seen : List Nat} {last : Bool}
    (hphase : t.phase = .computing input seen last) {runEnd : RunEnd} {u : Task}
    {told : List TaskUpdate} (hran : t.Ran buckets input runEnd u told) : u.Converges c buckets := by
  have hsubtasks := subtasks_eq_of_setup hran.setup_eq
  have hnears := h.nears_at hphase
  refine ⟨?_, fun hended => ?_⟩
  · rw [hran.phase_eq, hphase]
    cases last with
    | false => trivial
    | true =>
      intro hrunning
      obtain ⟨hall, hrows⟩ := hnears (hran.status_eq ▸ hrunning)
      exact ⟨hall.congr hsubtasks, by rw [hrows, mergedRows_congr c hsubtasks]⟩
  · rw [hran.status_eq] at hended
    exact absurd (h.concluded hended).1 (by simp [hphase])

/-- The last run of the pipeline leaves a task before its conclusion, with the rows of all its fetches:
it shows what the run gives, or the run fails. -/
theorem Converges.ranLast (h : t.Converges c buckets)
    (hruns : t.status = .running → t.cancelled = false) {input : List Record} {seen : List Nat}
    (hphase : t.phase = .computing input seen true) {runEnd : RunEnd} {u : Task}
    {told : List TaskUpdate} (hran : t.Ran buckets input runEnd u told) (hend : runEnd ≠ .brokenOff) :
    Converges c buckets { u with phase := .concluding (runEnd = .succeeded) } := by
  have hsetup := hran.setup_eq
  have hsubtasks := subtasks_eq_of_setup hsetup
  have hnears : u.Nears c buckets (.concluding (runEnd = .succeeded)) := by
    intro hrunning
    rw [hran.status_eq] at hrunning
    obtain ⟨hall, rfl⟩ := h.nears_at hphase hrunning
    rw [mergedRows_congr c hsubtasks]
    refine ⟨hall.congr hsubtasks, fun hsucceeded => ?_, fun hfailed => ?_⟩
    · obtain rfl : runEnd = .succeeded := of_decide_eq_true hsucceeded
      exact hran.shows
    · cases runEnd with
      | succeeded => cases hfailed
      | brokenOff => exact absurd rfl hend
      | failed =>
        refine hran.fails.resolve_left fun hcancelled => ?_
        rw [cancelled_eq_of_setup hsetup, hruns hrunning] at hcancelled
        cases hcancelled
  exact (h.ran hphase hran).rephase (by simp [hran.phase_eq, hphase]) hnears

/-- A section keeps a task on its way. -/
theorem Converges.step (h : t.Converges c buckets) (hsome : t.subtasks ≠ [])
    (hruns : t.status = .running → t.cancelled = false)
    (hgathered : t.status = .running → t.isSettled c = true → t.Gathered c) :
    (t.step c buckets).1.Converges c buckets := by
  obtain ⟨u, told, hstep, hsection⟩ := t.section_of_step c buckets
  rw [hstep]
  cases hsection with
  | start hphase | settled hphase => exact h.proceed (by simp [hphase]) hruns hgathered _
  | stop hphase hstop => exact h.rephase (by simp [hphase]) (nears_ended hruns hstop)
  | wait | rest => exact h
  | arrival hphase => exact h.rephase (by simp [hphase]) trivial
  | compute hphase hran =>
    have hsetup := hran.setup_eq
    refine (h.ran hphase hran).proceed (by simp [hran.phase_eq, hphase]) ?_ ?_ _
    · rw [hran.status_eq, cancelled_eq_of_setup hsetup]
      exact hruns
    · rw [hran.status_eq, isSettled_congr c (subtasks_eq_of_setup hsetup)]
      exact fun hrunning hsettled =>
        (hgathered hrunning hsettled).congr (subtasks_eq_of_setup hsetup)
  | computeLast hphase hran hend => exact h.ranLast hruns hphase hran hend
  | breakOff hphase hran =>
    exact (h.ran hphase hran).rephase (by simp [hran.phase_eq, hphase]) hran.breaksOff
  | conclude hphase => exact h.conclude hsome hphase

/-- Sections leave the orders to a task as they are. -/
theorem setup_run (c : Cache) (buckets n : Nat) (t : Task) :
    (t.run c buckets n).1.setup = t.setup := by
  induction n generalizing t with
  | zero => rfl
  | succ n ih =>
    unfold run
    split
    · exact (ih _).trans (setup_step c buckets t)
    · rfl

/-- Only an order ends a task as canceled. -/
theorem status_run_ne_canceled (c : Cache) (buckets n : Nat) {t : Task} (h : t.status ≠ .canceled) :
    (t.run c buckets n).1.status ≠ .canceled := by
  induction n generalizing t with
  | zero => exact h
  | succ n ih =>
    unfold run
    split
    · refine ih ?_
      rcases status_step c buckets t with hsame | ⟨hrunning, succeeded, hphase⟩
      · rwa [hsame]
      · simp only [Task.step, hphase, Task.conclude, finish, hrunning, if_true]
        split <;> exact TaskStatus.noConfusion
    · exact h

/-- An order to stop does not change what there is to know. -/
theorem Nears.stopped {phase : Phase} (h : t.Nears c buckets phase) {status : TaskStatus}
    (hstatus : status ≠ .running) (listed : Bool) :
    Nears c buckets { t with status, cancelled := true, released := true, listed } phase := by
  cases phase with
  | concluding succeeded => exact fun hrunning => absurd hrunning hstatus
  | computing input seen last =>
    cases last with
    | true => exact fun hrunning => absurd hrunning hstatus
    | false => trivial
  | ended => exact hstatus
  | starting | waiting | brokenOff => exact h

/-- An order to stop leaves nothing to be done of a running task, and does not touch another. -/
theorem Converges.stopped (h : t.Converges c buckets) (listed : Bool) :
    Converges c buckets { t.stopped with listed } := by
  by_cases hrunning : t.status = .running
  · have hsame : t.stopped = { t with status := .canceled, cancelled := true, released := true } := by
      simp [Task.stopped, finish, hrunning]
    rw [hsame]
    exact ⟨h.nears.stopped TaskStatus.noConfusion listed,
      fun hstatus => hstatus.elim TaskStatus.noConfusion TaskStatus.noConfusion⟩
  · have hsame : t.stopped = { t with cancelled := true, released := true } := by
      simp [Task.stopped, finish, hrunning]
    rw [hsame]
    refine ⟨h.nears.stopped hrunning listed, fun hstatus => ?_⟩
    obtain ⟨hended, hconcluded⟩ := h.concluded hstatus
    exact ⟨hended, hconcluded.gathered, hconcluded.results, hconcluded.derived, hconcluded.failed⟩

/-! ## Fetches that have ended -/

/-- The fetches of a task that have ended stay as they are. -/
def Rests (c d : Cache) (t : Task) : Prop :=
  ∀ s ∈ t.subtasks, ∀ f, c.fetch? s.fetch = some f → f.status.isSettled = true →
    ∃ g, d.fetch? s.fetch = some g ∧ g.status = f.status ∧ g.rows = f.rows

omit [Regex.Library] [Machine] in
/-- Once all fetches of a task have ended, it does not matter what else happens. -/
theorem Gathered.later {d : Cache} (h : t.Gathered c) (hrests : t.Rests c d) :
    t.Gathered d ∧ t.mergedRows d = t.mergedRows c ∧ (t.AllFailed d ↔ t.AllFailed c) := by
  have hboth : ∀ s ∈ t.subtasks, ∃ f g, c.fetch? s.fetch = some f ∧ d.fetch? s.fetch = some g ∧
      f.status.isSettled = true ∧ f.status ≠ .canceled ∧ g.status = f.status ∧ g.rows = f.rows := by
    intro s hs
    obtain ⟨f, hf, hsettled, hstatus⟩ := h s hs
    obtain ⟨g, hg, hsame, hrows⟩ := hrests s hs f hf hsettled
    exact ⟨f, g, hf, hg, hsettled, hstatus, hsame, hrows⟩
  refine ⟨fun s hs => ?_, ?_, ?_⟩
  · obtain ⟨f, g, -, hg, hsettled, hstatus, hsame, -⟩ := hboth s hs
    exact ⟨g, hg, hsame ▸ hsettled, hsame ▸ hstatus⟩
  · have hrows : ∀ e : Cache, (t.fetches e).map Fetch.rows =
        t.subtasks.filterMap fun s => (e.fetch? s.fetch).map Fetch.rows := by
      intro e
      rw [fetches, List.map_filterMap]
    unfold mergedRows
    rw [hrows d, hrows c]
    refine congrArg mergeAllByTime (List.filterMap_congr fun s hs => ?_)
    obtain ⟨f, g, hf, hg, -, -, -, hsame⟩ := hboth s hs
    rw [hf, hg, Option.map_some, Option.map_some, hsame]
  · refine forall₂_congr fun s hs => ?_
    obtain ⟨f, g, hf, hg, -, -, hsame, -⟩ := hboth s hs
    simp only [hf, hg, Option.some.injEq, exists_and_left, exists_eq_left', hsame]

/-- While the fetches of a task that have ended stay as they are, it stays as near to its end. -/
theorem Nears.later {d : Cache} {phase : Phase} (h : t.Nears c buckets phase)
    (hrests : t.Rests c d) : t.Nears d buckets phase := by
  cases phase with
  | computing input seen last =>
    cases last with
    | false => trivial
    | true =>
      intro hrunning
      obtain ⟨hgathered, hrows⟩ := h hrunning
      obtain ⟨hgathered', hrows', -⟩ := hgathered.later hrests
      exact ⟨hgathered', hrows.trans hrows'.symm⟩
  | concluding succeeded =>
    intro hrunning
    obtain ⟨hgathered, hends⟩ := h hrunning
    obtain ⟨hgathered', hrows', -⟩ := hgathered.later hrests
    rw [hrows']
    exact ⟨hgathered', hends⟩
  | starting | waiting | ended | brokenOff => exact h

/-- While the fetches of a task that have ended stay as they are, it stays on its way to its end. -/
theorem Converges.later {d : Cache} (h : t.Converges c buckets) (hrests : t.Rests c d) :
    t.Converges d buckets := by
  refine ⟨h.nears.later hrests, fun hstatus => ?_⟩
  obtain ⟨hended, hconcluded⟩ := h.concluded hstatus
  obtain ⟨hgathered', hrows', hall⟩ := hconcluded.gathered.later hrests
  refine ⟨hended, hgathered', ?_, ?_, ?_⟩
  · rw [hrows']
    exact hconcluded.results
  · rw [hrows']
    exact hconcluded.derived
  · rw [hrows', hall]
    exact hconcluded.failed

end Task

/-! ## Any run -/

namespace Engine

variable {e : Engine}

/-- A query without sources is refused. -/
theorem ne_nil_of_resolveSources {r : Registry} {profile : String} {filters : List PreFilter}
    {names : List String} (h : resolveSources r profile filters = .ok names) : names ≠ [] := by
  have hchosen : ∀ (chosen : List String),
      (if chosen.isEmpty = true then Except.error EngineFault.noInstances else .ok chosen) =
        Except.ok names → names ≠ [] := by
    intro chosen h
    split at h
    · cases h
    · next hsome =>
      cases h
      exact fun hempty => hsome (List.isEmpty_iff.2 hempty)
  simp only [resolveSources] at h
  split at h
  · obtain ⟨candidates, -, h⟩ := bind_eq_ok.1 h
    exact hchosen _ h
  · obtain ⟨candidates, -, h⟩ := bind_eq_ok.1 h
    exact hchosen _ h

/-- Every task has something to look at. -/
def Looks (e : Engine) : Prop := ∀ t ∈ e.tasks, t.subtasks ≠ []

variable [Regex.Library] [Machine]

/-- Every event leaves every task something to look at. -/
theorem Looks.step (h : e.Looks) (hsound : e.Sound) (ev : EngineEvent) : (e.step ev).Looks := by
  intro u hu
  obtain ⟨j, hj⟩ := List.mem_iff_getElem?.1 hu
  rcases task_step_cases hsound.names hj with ⟨t, ht, hchange⟩ | ⟨-, hstarted⟩
  · rw [hchange.subtasks_eq]
    exact h t (List.mem_of_getElem? ht)
  · obtain ⟨id, q, p, -, -, hplan, -, rfl⟩ := started?_eq_some hstarted
    obtain ⟨-, -, names, sources, hnames, hsources, hzip⟩ := plan_eq_ok hplan
    have hattached := forall₂_attachAll hsound.cache id q.options.forced p (q.limit e.config) p.sources
    intro hempty
    have hlength := hattached.length_eq
    change (attachAll _ _ _ _ _ _ _).1 = [] at hempty
    rw [hempty, hzip, List.length_zip, ← hsources.length_eq, Nat.min_self] at hlength
    exact ne_nil_of_resolveSources hnames (List.eq_nil_of_length_eq_zero hlength.symm)

/-- The fetches of a task that have ended stay as they are, if their sources emit nothing more. -/
theorem rests_step {t : Task} {ev : EngineEvent}
    (hquiet : ∀ s ∈ t.subtasks, ∀ f, e.cache.fetch? s.fetch = some f → f.status.isSettled = true →
      f.emits s.fetch ev = []) : t.Rests e.cache (e.step ev).cache := by
  intro s hs f hf hsettled
  obtain ⟨g, hg, htakes⟩ := takes_step hf ev
  obtain ⟨hstatus, hrows⟩ := htakes.settled hsettled
  exact ⟨g, hg, hstatus, hrows (hquiet s hs f hf hsettled)⟩

omit [Regex.Library] [Machine] in
/-- The fetches of a running task that have ended have done so by themselves. -/
theorem Sound.gathered (hsound : e.Sound) (hhonest : e.cache.Honest) {t : Task} (ht : t ∈ e.tasks)
    (hrunning : t.status = .running) (hsettled : t.isSettled e.cache = true) :
    t.Gathered e.cache := by
  intro s hs
  have hheld : t.released = false := (hsound.released t ht).trans (hsound.running t ht hrunning)
  obtain ⟨f, hf, -, -, hstatus⟩ := hsound.holds_running hhonest ht hheld hs
  exact ⟨f, hf, List.all_eq_true.1 hsettled f (Task.mem_fetches.2 ⟨s, hs, hf⟩), hstatus⟩

/-- An event keeps a task on its way, if no fetch of it that has ended gives more rows. -/
theorem converges_step (hsound : e.Sound) (hhonest : e.cache.Honest) (hlooks : e.Looks) {j : Nat}
    {subtasks : List Subtask}
    (h : ∀ t, e.tasks[j]? = some t → t.subtasks = subtasks → t.Converges e.cache e.config.buckets)
    {ev : EngineEvent}
    (hquiet : ∀ s ∈ subtasks, ∀ f, e.cache.fetch? s.fetch = some f → f.status.isSettled = true →
      f.emits s.fetch ev = []) {u : Task} (hu : (e.step ev).tasks[j]? = some u)
    (hsubtasks : u.subtasks = subtasks) :
    u.Converges (e.step ev).cache (e.step ev).config.buckets := by
  rw [(config_step e ev).2]
  rcases task_step_cases hsound.names hu with ⟨t, ht, hchange⟩ | ⟨-, hstarted⟩
  · have hmem := List.mem_of_getElem? ht
    have hsame : t.subtasks = subtasks := hchange.subtasks_eq.symm.trans hsubtasks
    have hrests : u.Rests e.cache (e.step ev).cache := rests_step (by rwa [hsubtasks])
    have hbefore := h t ht hsame
    refine Task.Converges.later ?_ hrests
    cases hchange with
    | same => exact hbefore
    | cancel => exact hbefore.stopped t.stopped.listed
    | release => exact hbefore.stopped false
    | step =>
      exact hbefore.step (hlooks t hmem) (hsound.running t hmem)
        fun hrunning hsettled => hsound.gathered hhonest hmem hrunning hsettled
  · obtain ⟨id, q, p, -, -, -, -, rfl⟩ := started?_eq_some hstarted
    exact Task.converges_start _ _ _ _ _

/-- Events keep a task on its way, if all rows of its fetches come in time. -/
theorem converges_after (hsound : e.Sound) (hhonest : e.cache.Honest) (hlooks : e.Looks) {j : Nat}
    {subtasks : List Subtask}
    (h : ∀ t, e.tasks[j]? = some t → t.subtasks = subtasks → t.Converges e.cache e.config.buckets)
    {events : List EngineEvent} (htimely : ∀ s ∈ subtasks, e.Timely s.fetch events) {u : Task}
    (hu : (e.after events).tasks[j]? = some u) (hsubtasks : u.subtasks = subtasks) :
    u.Converges (e.after events).cache (e.after events).config.buckets := by
  induction events generalizing e with
  | nil => exact h u hu hsubtasks
  | cons ev events ih =>
    have hhonest' : (e.step ev).cache.Honest := by
      rw [cache_step]
      exact hhonest.after _
    exact ih (hsound.step ev) hhonest' (hlooks.step hsound ev)
      (fun t ht hsame => converges_step hsound hhonest hlooks h (fun s hs => (htimely s hs).1) ht hsame)
      (fun s hs => (htimely s hs).2) hu

/-- The rows of a task whose fetches have all ended by themselves are those that its sources have
emitted, source after source, sorted. -/
theorem mergedRows_eq {registry : Registry} {config : EngineConfig} {events : List EngineEvent}
    {t : Task} (hgathered : t.Gathered ((start registry config).after events).cache)
    (htimely : ∀ s ∈ t.subtasks, (start registry config).Timely s.fetch events) :
    t.mergedRows ((start registry config).after events).cache =
      sortByTime (t.subtasks.flatMap fun s => (start registry config).emitted s.fetch events) := by
  have hrows : (t.fetches ((start registry config).after events).cache).map Fetch.rows =
      (t.subtasks.map fun s => (start registry config).emitted s.fetch events).map sortByTime := by
    unfold Task.fetches
    rw [List.map_filterMap, List.map_map, ← List.filterMap_eq_map]
    refine List.filterMap_congr fun s hs => ?_
    obtain ⟨f, hf, hsettled, hstatus⟩ := hgathered s hs
    have hintact : f.Intact := ⟨hstatus, fun hrunning => by
      rw [hrunning] at hsettled
      cases hsettled⟩
    have hempty : ∀ g, (start registry config).cache.fetch? s.fetch = some g → g.Intact →
        g.rows = sortByTime [] := fun g hg => by simp [start, Cache.empty, Cache.fetch?] at hg
    rw [hf, Option.map_some, rows_after hempty (fun _ => rfl) (htimely s hs) hf hintact]
    rfl
  rw [Task.mergedRows, hrows, mergeAllByTime_sortByTime, List.flatMap_def]

/-- Six sections of a task whose fetches have all ended end the task, unless it is broken off. -/
theorem ended_of_sections (hsound : e.Sound) (halert : e.Alert) {j : Nat} {t : Task}
    (ht : e.tasks[j]? = some t)
    (hsettled : ∀ s ∈ t.subtasks, ∀ f, e.cache.fetch? s.fetch = some f → f.status.isSettled = true) :
    ∃ u, (e.after (List.replicate sectionsPerTurn (.taskStep j))).tasks[j]? = some u ∧
      u.subtasks = t.subtasks ∧ (u.phase = .ended ∨ u.phase = .brokenOff) ∧
      (t.status ≠ .canceled → u.status ≠ .canceled) := by
  have hafter := e.after_taskSteps sectionsPerTurn ht
  have hu : (e.after (List.replicate sectionsPerTurn (.taskStep j))).tasks[j]? =
      some (t.run e.cache e.config.buckets sectionsPerTurn).1 := by
    rw [hafter]
    exact List.getElem?_set_self (List.getElem?_eq_some_iff.1 ht).1
  have hcache : (e.after (List.replicate sectionsPerTurn (.taskStep j))).cache = e.cache := by
    rw [hafter]
  have hsubtasks := Task.subtasks_eq_of_setup (t.setup_run e.cache e.config.buckets sectionsPerTurn)
  refine ⟨_, hu, hsubtasks, ended_of_not_canStep (halert.after hsound _) (hsound.after _)
    (List.mem_of_getElem? hu) ?_ ?_, Task.status_run_ne_canceled _ _ _⟩
  · rw [hcache]
    exact t.canStep_run e.cache e.config.buckets
  · rw [hcache, hsubtasks]
    exact hsettled

/-- The end of a task that is not cancelled, after any run in which its sources emit nothing after
their end. Once its driver has finished, all its fetches have ended by themselves; it has the results
that the pipeline makes of all rows that its sources have emitted, source after source, sorted by time;
and it has failed if the pipeline fails on them or all its sources have, and else completed. Once all its
fetches have ended, the sections of one turn finish it, unless arithmetic breaks it off. -/
theorem driver_confluent (registry : Registry) (config : EngineConfig) (events : List EngineEvent)
    {j : Nat} {t : Task} (ht : ((start registry config).after events).tasks[j]? = some t)
    (hcanceled : t.status ≠ .canceled)
    (htimely : ∀ s ∈ t.subtasks, (start registry config).Timely s.fetch events) :
    let e := (start registry config).after events
    let rows := sortByTime
      (t.subtasks.flatMap fun s => (start registry config).emitted s.fetch events)
    (t.phase = .ended ↔ t.status = .completed ∨ t.status = .failed) ∧
    (t.phase = .ended → t.Concluded e.cache config.buckets rows) ∧
    ((∀ s ∈ t.subtasks, ∀ f, e.cache.fetch? s.fetch = some f → f.status.isSettled = true) →
      ∃ u, (e.after (List.replicate sectionsPerTurn (.taskStep j))).tasks[j]? = some u ∧
        u.status ≠ .canceled ∧
        (u.phase = .ended ∨ u.phase = .brokenOff ∧ u.BreaksOff config.buckets)) := by
  intro e rows
  have hstart := Sound.start registry config
  have hsound : e.Sound := hstart.after events
  have halert : e.Alert := Alert.after (fun _ ht => absurd ht List.not_mem_nil) hstart events
  have hhonest : (start registry config).cache.Honest := fun n f hf => by
    simp [start, Cache.empty, Cache.fetch?] at hf
  have hlooks : (start registry config).Looks := fun _ ht => absurd ht List.not_mem_nil
  have hconverges : ∀ {more : List EngineEvent} {u : Task},
      (∀ s ∈ t.subtasks, e.Timely s.fetch more) → (e.after more).tasks[j]? = some u →
      u.subtasks = t.subtasks → u.Converges (e.after more).cache config.buckets := by
    intro more u hmore hu hsubtasks
    rw [← after_append] at hu ⊢
    have hall := converges_after hstart hhonest hlooks (fun u hu => by simp [start] at hu)
      (fun s hs => (htimely s hs).append (hmore s hs)) hu hsubtasks
    rwa [config_after] at hall
  have hnow : t.Converges e.cache config.buckets := @hconverges [] t (fun _ _ => trivial) ht rfl
  have hends : t.phase = .ended ↔ t.status = .completed ∨ t.status = .failed := by
    refine ⟨fun hended => ?_, fun hstatus => (hnow.concluded hstatus).1⟩
    cases hstatus : t.status with
    | running => exact absurd hstatus (hnow.nears_at hended)
    | completed => exact .inl rfl
    | failed => exact .inr rfl
    | canceled => exact absurd hstatus hcanceled
  refine ⟨hends, fun hended => ?_, fun hsettled => ?_⟩
  · obtain ⟨-, hconcluded⟩ := hnow.concluded (hends.1 hended)
    rwa [mergedRows_eq hconcluded.gathered htimely] at hconcluded
  · obtain ⟨u, hu, hsubtasks, hended, hstatus⟩ := ended_of_sections hsound halert ht hsettled
    have hsix : ∀ s ∈ t.subtasks,
        e.Timely s.fetch (List.replicate sectionsPerTurn (.taskStep j)) := fun _ _ =>
      timely_of_isInternal fun ev hev => by rw [List.eq_of_mem_replicate hev]; rfl
    exact ⟨u, hu, hstatus hcanceled,
      hended.imp_right fun hbroken => ⟨hbroken, (hconverges hsix hu hsubtasks).nears_at hbroken⟩⟩

end Engine

attribute [local instance] Regex.standard Machine.stopping

namespace Engine

/-- So it is where a query finds a fetch that another query has started, and both come to rest. -/
theorem sharing_confluent :
    ∃ events t, ((start (sampleRegistry 2) sampleConfig).after events).tasks[1]? = some t ∧
      t.status = .completed ∧
      (∀ s ∈ t.subtasks, (start (sampleRegistry 2) sampleConfig).Timely s.fetch events) ∧
      t.Concluded ((start (sampleRegistry 2) sampleConfig).after events).cache sampleConfig.buckets
        (sortByTime
          (t.subtasks.flatMap fun s => (start (sampleRegistry 2) sampleConfig).emitted s.fetch events)) := by
  obtain ⟨events, hprogress, -, -, -, t, ht, -, -, hstatus, -⟩ := sharing_shows_sample 2 1 2
  have htimely : ∀ s ∈ t.subtasks, (start (sampleRegistry 2) sampleConfig).Timely s.fetch
      (sharingEvents 1 2 ++ events) := fun s _ =>
    timely_of_isInternal (ordinary_sharing 2 1 2 hprogress).internal
  have hcanceled : t.status ≠ .canceled := hstatus ▸ TaskStatus.noConfusion
  obtain ⟨hends, hconcluded, -⟩ := driver_confluent _ _ _ ht hcanceled htimely
  exact ⟨_, t, ht, hstatus, htimely, hconcluded (hends.2 (.inl hstatus))⟩

end Engine

end LogSearch
