import LogSearch.Engine.Reading
import LogSearch.Proofs.Engine.LifeCycle
import LogSearch.Proofs.View.Histogram
import LogSearch.Proofs.View.TimeIndex
import LogSearch.Regex.Program

/-!
# What a task shows

A task runs its pipeline again and again, over rows that come in and between orders to stop. What it
shows at any time, the index and the histogram included, is what its last run that succeeded gave. Only
where the histogram cannot be counted, which stops the task, does it show the index and nothing else.

* `Task.nextRun`, `Engine.runOf?`, `Engine.runsOf`: the runs of the pipeline of a task, in order.
* `Task.Refreshes`: what an event makes of what a task shows; `Engine.refreshes`: every event makes
  that of it.
* `Engine.Reflects`: what a task shows reflects its runs so far; `Engine.Reflects.step`,
  `Engine.Reflects.after`: every event keeps this, hence every run.
* `Engine.views_reflect_runs`: the view of every task, the event nearest to an instant, and the
  effect of every event.
* `Engine.uncounted_run_shows_no_results`: a run that succeeds with an event that is not shown.
-/

namespace LogSearch

/-! ## Runs of the pipeline -/

namespace Task

variable [Regex.Library] [Machine]

/-- The outcome of the pipeline, if the next section of the task runs it. -/
def nextRun (t : Task) : Option (Except StageFault Results) :=
  match t.phase with
  | .computing rows _ _ =>
    if t.cancelled then none else some (runPipeline t.range t.query.pipeline rows)
  | _ => none

/-- What an event makes of what a task shows, with what is said about the task. A run of the pipeline
that succeeds replaces the view and clears the error. One that fails leaves the view as it is and
notes the error. One that is broken off leaves the error too, and of the view it may have replaced the
index. Where the pipeline is not run, the view stays, and the error too unless the task decides about
its status. -/
inductive Refreshes (buckets : Nat) (t : Task) :
    Option (Except StageFault Results) → Task → List TaskUpdate → Prop
  | succeeded (results : Results) (u : Task) (hview : u.view.Shows t.range buckets results)
    (herror : u.error = none) :
    Refreshes buckets t (some (.ok results)) u [.batchDone t.id u.view.summary]
  | uncounted (results : Results) (u : Task)
    (hhistogram : Histogram.ofEvents? results.events t.range buckets = none)
    (hview : u.view = { t.view with index := TimeIndex.ofEvents results.events })
    (herror : u.error = t.error) (hphase : u.phase = .brokenOff) :
    Refreshes buckets t (some (.ok results)) u []
  | failed (fault : StageFault) (u : Task) (hstops : fault.stops = false) (hview : u.view = t.view)
    (herror : u.error = some fault.message) :
    Refreshes buckets t (some (.error fault)) u [.stageFailed t.id fault.message]
  | stopped (fault : StageFault) (u : Task) (hstops : fault.stops = true) (hview : u.view = t.view)
    (herror : u.error = t.error) (hphase : u.phase = .brokenOff) :
    Refreshes buckets t (some (.error fault)) u []
  | idle (u : Task) (told : List TaskUpdate) (hview : u.view = t.view)
    (herror : (∀ succeeded, t.phase ≠ .concluding succeeded) → u.error = t.error)
    (htold : ∀ up ∈ told, up.isStatusChange = true) : Refreshes buckets t none u told

omit [Regex.Library] in
/-- An event that is no run of the pipeline changes nothing, if it leaves the view and the error. -/
theorem Refreshes.unchanged {buckets : Nat} {t u : Task} (hview : u.view = t.view)
    (herror : u.error = t.error) : Refreshes buckets t none u [] :=
  .idle u [] hview (fun _ => herror) fun _ hup => absurd hup List.not_mem_nil

/-- What a task shows: the view and the error. -/
def shown (t : Task) : TaskView × Option String := (t.view, t.error)

omit [Regex.Library] [Machine] in
/-- Going on, a task shows what it showed. -/
theorem shown_proceed (c : Cache) (t : Task) (seen : List Nat) :
    (t.proceed c seen).shown = t.shown := by
  unfold proceed
  split
  · rfl
  · split <;> rfl

omit [Regex.Library] [Machine] in
/-- Told to stop, a task shows what it showed. -/
theorem shown_stopped (t : Task) : t.stopped.shown = t.shown := by
  unfold stopped finish
  split <;> rfl

/-- A run of the pipeline of which arithmetic breaks off no step. -/
theorem Ran.refreshes {buckets : Nat} {t u v : Task} {rows : List Record} {runEnd : RunEnd}
    {told : List TaskUpdate} (h : t.Ran buckets rows runEnd u told) (hend : runEnd ≠ .brokenOff)
    (hshown : v.shown = u.shown) :
    t.Refreshes buckets
      (if t.cancelled then none else some (runPipeline t.range t.query.pipeline rows)) v told := by
  obtain ⟨hview, herror⟩ := Prod.mk.inj hshown
  cases h with
  | skipped hcancelled =>
    rw [if_pos hcancelled]
    exact .unchanged hview herror
  | succeeded hcancelled hrun hshows =>
    rw [if_neg (by simp [hcancelled]), hrun]
    dsimp only at hview herror
    subst hview
    exact .succeeded _ v hshows herror
  | failed hcancelled hrun hstops =>
    rw [if_neg (by simp [hcancelled]), hrun]
    exact .failed _ v hstops hview herror
  | uncounted | stopped => exact absurd rfl hend

/-- A run of the pipeline that is broken off. -/
theorem Ran.refreshes_brokenOff {buckets : Nat} {t u : Task} {rows : List Record}
    {told : List TaskUpdate} (h : t.Ran buckets rows .brokenOff u told) :
    t.Refreshes buckets
      (if t.cancelled then none else some (runPipeline t.range t.query.pipeline rows))
      { u with phase := .brokenOff } told := by
  cases h with
  | uncounted hcancelled hrun hhistogram =>
    rw [if_neg (by simp [hcancelled]), hrun]
    exact .uncounted _ _ hhistogram rfl rfl rfl
  | stopped hcancelled hrun hstops =>
    rw [if_neg (by simp [hcancelled]), hrun]
    exact .stopped _ _ hstops rfl rfl rfl

/-- What a section makes of what a task shows. -/
theorem refreshes_step (c : Cache) (buckets : Nat) (t : Task) :
    t.Refreshes buckets t.nextRun (t.step c buckets).1 (t.step c buckets).2 := by
  have hproceed : ∀ seen, t.Refreshes buckets none (t.proceed c seen) [] := by
    intro seen
    obtain ⟨hview, herror⟩ := Prod.mk.inj (shown_proceed c t seen)
    exact .unchanged hview herror
  obtain ⟨u, told, hstep, hsection⟩ := t.section_of_step c buckets
  rw [hstep]
  cases hsection with
  | start hphase | settled hphase =>
    simp only [nextRun, hphase]
    exact hproceed _
  | stop hphase | wait hphase | arrival hphase =>
    simp only [nextRun, hphase]
    exact .unchanged rfl rfl
  | rest hphase =>
    rcases hphase with hphase | hphase <;>
    · simp only [nextRun, hphase]
      exact .unchanged rfl rfl
  | compute hphase hran hend =>
    simp only [nextRun, hphase]
    exact hran.refreshes hend (shown_proceed c _ _)
  | computeLast hphase hran hend =>
    simp only [nextRun, hphase]
    exact hran.refreshes hend rfl
  | breakOff hphase hran =>
    simp only [nextRun, hphase]
    exact hran.refreshes_brokenOff
  | @conclude succeeded hphase =>
    simp only [nextRun, hphase]
    refine .idle _ _ (view_conclude c t succeeded)
      (fun hother => absurd hphase (hother succeeded)) fun up hup => ?_
    obtain ⟨-, ⟨-, -, error, htold⟩ | ⟨-, -, htold⟩⟩ := conclude_cases c t succeeded
    · rw [htold] at hup
      rw [List.mem_singleton.1 hup]
      rfl
    · rw [htold] at hup
      exact absurd hup List.not_mem_nil

end Task

namespace Engine

variable [Regex.Library] [Machine]

/-- The run of the pipeline of the task at a position that an event is, if it is one. -/
def runOf? (e : Engine) (j : Nat) : EngineEvent → Option (Except StageFault Results)
  | .taskStep i => if i = j then e.tasks[j]?.bind Task.nextRun else none
  | _ => none

/-- The runs of the pipeline of the task at a position, in the order of the events. -/
def runsOf (e : Engine) (j : Nat) : List EngineEvent → List (Except StageFault Results)
  | [] => []
  | ev :: events => (e.runOf? j ev).toList ++ (e.step ev).runsOf j events

/-- The last run that succeeded. -/
def lastSuccess (runs : List (Except StageFault Results)) : Option Results :=
  (runs.filterMap Except.toOption).getLast?

/-! ## What an event makes of what a task shows -/

omit [Regex.Library] [Machine] in
/-- An order to stop publishes nothing but a status. -/
theorem isStatusChange_of_mem_publishedEnd {e : Engine} {id : String} :
    ∀ up ∈ e.publishedEnd id, up.isStatusChange = true := by
  intro up hup
  unfold publishedEnd at hup
  split at hup
  · split at hup
    · rw [List.mem_singleton.1 hup]
      rfl
    · exact absurd hup List.not_mem_nil
  · exact absurd hup List.not_mem_nil

/-- Of a task that does not do its next section, nothing but the end of the task is published. -/
theorem isStatusChange_of_mem_about {e : Engine} (hnames : (e.tasks.map Task.id).Nodup) {j : Nat}
    {t : Task} (h : e.tasks[j]? = some t) {ev : EngineEvent} (hother : ev ≠ .taskStep j) :
    ∀ up ∈ about t.id (e.published ev), up.isStatusChange = true := by
  intro up hup
  obtain ⟨hup, habout⟩ := List.mem_filter.1 hup
  cases ev with
  | run | report | settle | fetchTurn => exact absurd hup List.not_mem_nil
  | cancel id => exact isStatusChange_of_mem_publishedEnd up hup
  | release id => exact isStatusChange_of_mem_publishedEnd up hup
  | taskStep i =>
    simp only [published] at hup
    split at hup
    · next other hi =>
      -- what another task publishes is about that task
      have hid : other.id = t.id :=
        ((other.tells_step e.cache e.config.buckets).task_eq up hup).symm.trans
          (of_decide_eq_true habout)
      exact absurd (congrArg EngineEvent.taskStep (position_of_id hnames hi h hid)) hother
    · exact absurd hup List.not_mem_nil

/-- What an event makes of what the task at a position shows. -/
theorem refreshes {e : Engine} (hnames : (e.tasks.map Task.id).Nodup) {j : Nat} {t : Task}
    (h : e.tasks[j]? = some t) (ev : EngineEvent) :
    ∃ u, (e.step ev).tasks[j]? = some u ∧ Task.Change e j t ev u ∧
      t.Refreshes e.config.buckets (e.runOf? j ev) u (about t.id (e.published ev)) := by
  obtain ⟨u, hu, hchange⟩ := task_step hnames h ev
  refine ⟨u, hu, hchange, ?_⟩
  by_cases hown : ev = .taskStep j
  · subst hown
    have hpublished : about t.id (e.published (.taskStep j)) =
        (t.step e.cache e.config.buckets).2 := by
      simp only [published, h]
      exact about_eq_self (t.tells_step e.cache e.config.buckets).task_eq
    have hstep : u = (t.step e.cache e.config.buckets).1 := by
      have htasks : (e.step (.taskStep j)).tasks =
          e.tasks.set j (t.step e.cache e.config.buckets).1 := by
        simp only [step, stepTask, h]
      rw [htasks, List.getElem?_set_self (List.getElem?_eq_some_iff.1 h).1] at hu
      exact (Option.some.inj hu).symm
    have hrun : e.runOf? j (.taskStep j) = t.nextRun := by
      simp only [runOf?, if_true, h, Option.bind_some]
    rw [hpublished, hrun, hstep]
    exact t.refreshes_step e.cache e.config.buckets
  · have hnone : e.runOf? j ev = none := by
      cases ev with
      | taskStep i => exact if_neg fun heq => hown (congrArg _ heq)
      | run | cancel | release | report | settle | fetchTurn => rfl
    have hshown : u.shown = t.shown := by
      cases hchange with
      | same => rfl
      | cancel => exact t.shown_stopped
      | release => exact t.shown_stopped
      | step => exact absurd rfl hown
    obtain ⟨hview, herror⟩ := Prod.mk.inj hshown
    rw [hnone]
    exact .idle u _ hview (fun _ => herror) (isStatusChange_of_mem_about hnames h hown)

/-! ## Runs of events -/

/-- A task shows the last run of its pipeline that succeeded, with the index and the histogram of those
events, and nothing if there is none yet. Where these events have no histogram, the task was broken off,
and the index is all that it shows of them. -/
def ShowsLast (buckets : Nat) (t : Task) (runs : List (Except StageFault Results)) : Prop :=
  match lastSuccess runs with
  | none => t.view = .empty
  | some last => t.view.index = TimeIndex.ofEvents last.events ∧
    match Histogram.ofEvents? last.events t.range buckets with
    | some histogram => t.view.results = last ∧ t.view.histogram = histogram
    | none => t.view.results = .ofEvents [] ∧ t.view.histogram = .empty ∧ t.phase = .brokenOff

/-- Tasks show what their runs so far have given; a task that is not there has none. -/
structure Reflects (e : Engine) (runs : Nat → List (Except StageFault Results)) : Prop where
  tasks : ∀ j t, e.tasks[j]? = some t → ShowsLast e.config.buckets t (runs j)
  absent : ∀ j, e.tasks[j]? = none → runs j = []

section

variable {buckets : Nat} {t u : Task} {runs : List (Except StageFault Results)} {results : Results}

omit [Regex.Library] in
/-- A view that stays shows the same, if no run was added that succeeded. -/
theorem ShowsLast.of_view_eq (h : ShowsLast buckets t runs) (hrange : u.range = t.range)
    (hview : u.view = t.view) (hphase : t.phase = .brokenOff → u.phase = .brokenOff)
    {more : List (Except StageFault Results)} (hmore : lastSuccess (runs ++ more) = lastSuccess runs) :
    ShowsLast buckets u (runs ++ more) := by
  unfold ShowsLast at *
  rw [hmore, hrange, hview]
  split at h
  · exact h
  · refine ⟨h.1, ?_⟩
    obtain ⟨-, h⟩ := h
    split at h
    · exact h
    · exact ⟨h.1, h.2.1, hphase h.2.2⟩

omit [Regex.Library] [Machine] in
/-- A run that succeeds is the last one that did. -/
theorem lastSuccess_concat_ok (runs : List (Except StageFault Results)) (results : Results) :
    lastSuccess (runs ++ [.ok results]) = some results := by
  simp [lastSuccess, Except.toOption]

omit [Regex.Library] [Machine] in
/-- A run that fails leaves the last one that succeeded. -/
theorem lastSuccess_concat_error (runs : List (Except StageFault Results)) (fault : StageFault) :
    lastSuccess (runs ++ [.error fault]) = lastSuccess runs := by
  simp [lastSuccess, Except.toOption]

omit [Regex.Library] in
/-- Results that are published are shown. -/
theorem showsLast_concat_ok (h : u.view.Shows u.range buckets results) :
    ShowsLast buckets u (runs ++ [.ok results]) := by
  unfold ShowsLast
  rw [lastSuccess_concat_ok]
  dsimp only
  rw [h.histogram]
  exact ⟨h.index, h.results, rfl⟩

omit [Regex.Library] in
/-- Where results have no histogram, no results before them had one, and there is nothing to show
beside their index. -/
theorem ShowsLast.uncounted (h : ShowsLast buckets t runs) (hrange : u.range = t.range)
    (hhistogram : Histogram.ofEvents? results.events t.range buckets = none)
    (hview : u.view = { t.view with index := TimeIndex.ofEvents results.events })
    (hphase : u.phase = .brokenOff) : ShowsLast buckets u (runs ++ [.ok results]) := by
  have hempty : t.view.results = .ofEvents [] ∧ t.view.histogram = .empty := by
    unfold ShowsLast at h
    split at h
    · rw [h]
      exact ⟨rfl, rfl⟩
    · next last _ =>
      have hnone : Histogram.ofEvents? last.events t.range buckets = none :=
        Histogram.ofEvents?_eq_none_iff.2 (Histogram.ofEvents?_eq_none_iff.1 hhistogram)
      rw [hnone] at h
      exact ⟨h.2.1, h.2.2.1⟩
  unfold ShowsLast
  rw [lastSuccess_concat_ok]
  dsimp only
  rw [hrange, hhistogram, hview]
  exact ⟨rfl, hempty.1, hempty.2, hphase⟩

omit [Regex.Library] in
/-- What a task shows has the index of its events, or no events. -/
theorem ShowsLast.index_eq (h : ShowsLast buckets t runs) :
    t.view.index = TimeIndex.ofEvents t.view.results.events ∨ t.view.results.events = [] := by
  unfold ShowsLast at h
  split at h
  · rw [h]
    exact .inr rfl
  · obtain ⟨hindex, h⟩ := h
    split at h
    · exact .inl (h.1 ▸ hindex)
    · exact .inr (h.1 ▸ rfl)

end

namespace Reflects

variable {e : Engine} {runs : Nat → List (Except StageFault Results)}

omit [Regex.Library] in
/-- At the start no pipeline has run. -/
theorem start (registry : Registry) (config : EngineConfig) :
    (Engine.start registry config).Reflects fun _ => [] where
  tasks _ _ h := nomatch h
  absent _ _ := rfl

/-- Every event keeps tasks showing what their runs have given. -/
theorem step (h : e.Reflects runs) (hsound : e.Sound) (ev : EngineEvent) :
    (e.step ev).Reflects fun j => runs j ++ (e.runOf? j ev).toList := by
  have habsent : ∀ j, e.tasks[j]? = none → runs j ++ (e.runOf? j ev).toList = [] := by
    intro j hj
    have hnone : e.runOf? j ev = none := by
      cases ev with
      | taskStep i => simp only [runOf?, hj, Option.bind_none, ite_self]
      | run | cancel | release | report | settle | fetchTurn => rfl
    rw [h.absent j hj, hnone]
    rfl
  refine ⟨fun j u hu => ?_, fun j hj => ?_⟩
  · rw [(config_step e ev).2]
    rcases task_step_cases hsound.names hu with ⟨t, ht, -⟩ | ⟨hj, hstarted⟩
    · obtain ⟨v, hv, hchange, hrefreshes⟩ := refreshes hsound.names ht ev
      obtain rfl : u = v := Option.some.inj (hu.symm.trans hv)
      have hshows := h.tasks j t ht
      have hrange := hchange.kept.2.2.1
      have hphase := hchange.phase_eq_brokenOff
      generalize e.runOf? j ev = run at hrefreshes ⊢
      generalize about t.id (e.published ev) = told at hrefreshes
      cases hrefreshes with
      | succeeded results _ hnew => exact showsLast_concat_ok (hrange ▸ hnew)
      | uncounted results _ hhistogram hview _ hbroken =>
        exact hshows.uncounted hrange hhistogram hview hbroken
      | failed fault _ _ hview =>
        exact hshows.of_view_eq hrange hview hphase (lastSuccess_concat_error _ fault)
      | stopped fault _ _ hview =>
        exact hshows.of_view_eq hrange hview hphase (lastSuccess_concat_error _ fault)
      | idle _ _ hview =>
        exact hshows.of_view_eq hrange hview hphase (congrArg lastSuccess (List.append_nil _))
    · have hnew : e.tasks[j]? = none := List.getElem?_eq_none_iff.2 (Nat.le_of_eq hj.symm)
      rw [habsent j hnew]
      obtain ⟨id, q, p, -, -, -, -, rfl⟩ := started?_eq_some hstarted
      rfl
  · cases ht : e.tasks[j]? with
    | none => exact habsent j ht
    | some t =>
      obtain ⟨u, hu, -⟩ := task_step hsound.names ht ev
      rw [hj] at hu
      cases hu

/-- Tasks show what their runs have given, after any events. -/
theorem after (h : e.Reflects runs) (hsound : e.Sound) (events : List EngineEvent) :
    (e.after events).Reflects fun j => runs j ++ e.runsOf j events := by
  induction events generalizing e runs with
  | nil => simpa [Engine.after, runsOf] using h
  | cons ev events ih =>
    have hrest := ih (h.step hsound ev) (hsound.step ev)
    simp only [List.append_assoc] at hrest
    exact hrest

end Reflects

/-! ## What can be seen -/

omit [Regex.Library] [Machine] in
/-- The event nearest to an instant is looked up in the index, and then among the events. -/
theorem closestEvent_eq {e : Engine} {id : String} {t : Task} (h : e.task? id = .ok t) (time : Int) :
    e.closestEvent id time = .ok ((t.view.index.closest time).bind fun answer =>
      t.view.results.events[answer.2]?.map fun event => ⟨answer.2, answer.1, event⟩) := by
  unfold closestEvent
  rw [h]
  cases hanswer : t.view.index.closest time with
  | none => simp [bind, Except.bind, pure, Except.pure, hanswer]
  | some answer =>
    cases hevent : t.view.results.events[answer.2]? <;>
      simp [bind, Except.bind, pure, Except.pure, hanswer, hevent]

/-- After any run: a task shows what the last run of its pipeline that succeeded gave, with the
index and the histogram of those events, and nothing before, unless the histogram cannot be counted,
which breaks the task off when it shows just the index. So the event nearest to an instant is one of
the events of the task, at the instant that is told, and there is an answer if any event has a time.
What happens to an engine has its effect on what a task shows by the run of the pipeline that it is: a
run that fails leaves all but the error, one that succeeds clears the error, and nothing else changes
the view. -/
theorem views_reflect_runs (registry : Registry) (config : EngineConfig)
    (events : List EngineEvent) :
    let e := (start registry config).after events
    (∀ (j : Nat) (t : Task), e.tasks[j]? = some t →
      match lastSuccess ((start registry config).runsOf j events) with
      | none => t.view = .empty
      | some last => t.view.index = TimeIndex.ofEvents last.events ∧
        match Histogram.ofEvents? last.events t.range config.buckets with
        | some histogram => t.view.results = last ∧ t.view.histogram = histogram
        | none => t.view.results = .ofEvents [] ∧ t.view.histogram = .empty ∧ t.phase = .brokenOff) ∧
    (∀ id t time, e.task? id = .ok t →
      ((∀ event ∈ t.view.results.events, event.time? = none) → e.closestEvent id time = .ok none) ∧
      ((∃ event ∈ t.view.results.events, event.time? ≠ none) →
        ∃ answer, e.closestEvent id time = .ok (some answer) ∧
          t.view.results.events[answer.position]? = some answer.event ∧
          answer.event.time? = some answer.timestamp)) ∧
    (∀ (ev : EngineEvent) (j : Nat) (t : Task), e.tasks[j]? = some t →
      ∃ u told, (e.step ev).tasks[j]? = some u ∧ (e.step ev).updates = e.updates ++ told ∧
        t.Refreshes config.buckets (e.runOf? j ev) u (about t.id told)) := by
  intro e
  have hsound : e.Sound := (Sound.start registry config).after events
  have hreflects := (Reflects.start registry config).after (Sound.start registry config) events
  have hshows : ∀ (j : Nat) (t : Task), e.tasks[j]? = some t →
      ShowsLast config.buckets t ((start registry config).runsOf j events) := by
    intro j t ht
    have hlast := hreflects.tasks j t ht
    rw [config_after] at hlast
    exact hlast
  refine ⟨hshows, fun id t time hfind => ?_, fun ev j t ht => ?_⟩
  · obtain ⟨j, hj⟩ := List.mem_iff_getElem?.1 (task?_eq_ok hfind).1
    rw [closestEvent_eq hfind]
    rcases (hshows j t hj).index_eq with hindex | hempty
    · rw [hindex]
      constructor
      · intro huntimed
        rw [TimeIndex.closest_eq_none_iff.2 huntimed]
        rfl
      · rintro ⟨event, hevent, htimed⟩
        cases hanswer : (TimeIndex.ofEvents t.view.results.events).closest time with
        | none => exact absurd (TimeIndex.closest_eq_none_iff.1 hanswer event hevent) htimed
        | some answer =>
          obtain ⟨found, hfound, htime⟩ := TimeIndex.closest_ofEvents hanswer
          exact ⟨⟨answer.2, answer.1, found⟩, by rw [Option.bind_some, hfound]; rfl, hfound, htime⟩
    · rw [hempty]
      refine ⟨fun _ => ?_, fun ⟨_, hevent, _⟩ => absurd hevent List.not_mem_nil⟩
      cases t.view.index.closest time <;> rfl
  · obtain ⟨u, hu, -, hrefreshes⟩ := refreshes hsound.names ht ev
    have hconfig : e.config = config := config_after _ events
    rw [hconfig] at hrefreshes
    exact ⟨u, e.published ev, hu, updates_step e ev, hrefreshes⟩

end Engine

/-! ## A range that cannot be counted -/

attribute [local instance] Regex.standard Machine.stopping

namespace Engine

/-- The only record of a source. -/
def onlyRecord : Record := (Record.ofMessage "up").withTime 1000

/-- A source with one record. -/
def onlySource : Source := (MemorySource.mk [onlyRecord] 1 []).source

/-- A registry with one source. -/
def onlyRegistry : Registry := ⟨[], [("app", ⟨"memory", "", onlySource⟩)], []⟩

/-- A histogram of a hundred buckets. -/
def hundredBuckets : EngineConfig := ⟨10, 100, ""⟩

/-- All instants from the epoch on. -/
def sinceEpoch : TimeRange := ⟨0, Number.int64Max⟩

/-- The query for everything since the epoch. -/
def everythingSince : Inquiry :=
  ⟨defaultProfile, "", ⟨some sinceEpoch.start, some sinceEpoch.stop, none, false⟩, 0⟩

/-- The query is asked, its fetch ends. -/
def fetchingEvents : List EngineEvent := [.run "task" everythingSince, .fetchTurn 0, .fetchTurn 0]

/-- Its task looks at the fetch, and runs the pipeline. -/
def runningEvents : List EngineEvent := [.taskStep 0, .taskStep 0]

/-- The fetch of the query when it starts, with what the source is to report. -/
def onlyFetch (response : Response) : Fetch :=
  Fetch.start ⟨⟨[], none⟩, sinceEpoch, "app"⟩ "task" response

/-- The fetch of the query when it has ended. -/
def endedFetch : Fetch :=
  { onlyFetch (.report []) with
    rows := stamp "app" [onlyRecord]
    status := .done
    version := 2 }

/-- The task of the query when it starts. -/
def onlyTask : Task := Task.start "task" "" ⟨[], none, []⟩ sinceEpoch [⟨"app", 0⟩]

/-- The source reports its record in one batch. -/
theorem respond_onlySource :
    onlySource.respond ⟨⟨[], none⟩, sinceEpoch, 10⟩ = .report [[onlyRecord]] := by
  have hasked : (Request.mk ⟨[], none⟩ sinceEpoch 10).asksFor onlyRecord = true := by decide +kernel
  simp [onlySource, MemorySource.source, MemorySource.report, Request.batches, Request.newest,
    hasked, sortByTime, emit]

/-- The query is not refused. -/
theorem plan_everythingSince : plan onlyRegistry hundredBuckets everythingSince =
    .ok ⟨⟨[], none, []⟩, sinceEpoch, [("app", onlySource)]⟩ := by
  simp [plan, everythingSince, sinceEpoch, parse_empty, Except.mapError, bind, Except.bind, pure,
    Except.pure, resolveRange, resolveSources, onlyRegistry, Registry.profileInstances, Dict.get?,
    Dict.keys, Registry.source, Number.int64Max]

/-- After the fetch the record is there, and the task has not looked at it yet. -/
theorem after_fetchingEvents : (start onlyRegistry hundredBuckets).after fetchingEvents =
    ⟨onlyRegistry, hundredBuckets, ⟨[endedFetch], [(endedFetch.key, 0)]⟩, [onlyTask], []⟩ := by
  let fetch := onlyFetch (.report [stamp "app" [onlyRecord]])
  have haccept : (start onlyRegistry hundredBuckets).step (.run "task" everythingSince) =
      ⟨onlyRegistry, hundredBuckets, ⟨[fetch], [(fetch.key, 0)]⟩, [onlyTask], []⟩ := by
    have hlimit : everythingSince.limit hundredBuckets = 10 := rfl
    simp only [step, start, plan_everythingSince, accept, attachAll, attach, hlimit, Plan.selection,
      List.filter_nil, respond_onlySource, List.map_nil, List.not_mem_nil, if_false]
    rfl
  have hturns : fetch.turn.turn = endedFetch := by
    simp [fetch, endedFetch, onlyFetch, Fetch.turn, Fetch.push, Fetch.start, Fetch.settle,
      Response.report, stamp, mergeByTime, sortByTime, FetchStatus.isSettled, FetchStatus.ofOutcome]
  show (((start onlyRegistry hundredBuckets).step (.run "task" everythingSince)).step
    (.fetchTurn 0)).step (.fetchTurn 0) = _
  rw [haccept, ← hturns]
  rfl

/-- The pipeline succeeds with an event, and the task goes on running with the index of that event
and no event: the range is too long to count its buckets. -/
theorem uncounted_run_shows_no_results :
    let e := start onlyRegistry hundredBuckets
    let events := fetchingEvents ++ runningEvents
    ∃ t last, (e.after events).tasks = [t] ∧ lastSuccess (e.runsOf 0 events) = some last ∧
      last.events.length = 1 ∧ t.status = .running ∧ t.view.results.events = [] ∧
      t.view.index ≠ TimeIndex.ofEvents t.view.results.events ∧ t.view.histogram = .empty := by
  intro e events
  have hruns : e.runsOf 0 events = (e.after fetchingEvents).runsOf 0 runningEvents := rfl
  rw [hruns, after_append, after_fetchingEvents]
  exact ⟨_, _, rfl, rfl, rfl, by decide +kernel, List.isEmpty_iff.1 (by decide +kernel),
    by decide +kernel, by decide +kernel⟩

end Engine

end LogSearch
