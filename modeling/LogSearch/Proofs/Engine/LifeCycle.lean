import LogSearch.Proofs.Engine.Holding

/-!
# The life of a task on the stream of updates

The sections of a task, an order to stop and an order to forget all may end it, and each decides on
what it finds. Whatever comes in between, the task leaves the running state once, the stream says so
once, and says nothing about the task afterwards.

* `Task.Tells`: what an event makes of a task, with what it publishes about it.
* `Engine.published`: what an event adds to the stream; `Engine.tells`: what that is for one task.
* `Task.Told`: what the stream has said about a task, and why it says no more after the end.
* `Engine.Told.step`, `Engine.Told.after`: every event keeps this, hence every run.
* `Engine.status_changes_once`: the life of every task, in every run.
-/

namespace LogSearch

/-- Whether an update is about the status of a task. -/
def TaskUpdate.isStatusChange : TaskUpdate → Bool
  | .statusChanged .. => true
  | .batchDone .. | .stageFailed .. => false

/-! ## What a section publishes -/

namespace Task

variable [Regex.Library] [Machine]

/-- A run of the pipeline publishes about its own task, never its status, and nothing once it is
told to stop. -/
theorem Ran.publishes {buckets : Nat} {t u : Task} {rows : List Record} {runEnd : RunEnd}
    {told : List TaskUpdate} (h : t.Ran buckets rows runEnd u told) :
    ∀ up ∈ told, up.task = t.id ∧ up.isStatusChange = false ∧ t.cancelled = false := by
  intro up hup
  cases h with
  | skipped | uncounted | stopped => exact absurd hup List.not_mem_nil
  | succeeded hcancelled | failed hcancelled =>
    rw [List.mem_singleton.1 hup]
    exact ⟨rfl, rfl, hcancelled⟩

omit [Regex.Library] [Machine] in
/-- The conclusion ends a running task and says so; of a task that has ended it says nothing. -/
theorem conclude_cases (c : Cache) (t : Task) (succeeded : Bool) :
    (t.conclude c succeeded).1.phase = .ended ∧
      ((t.status = .running ∧ (t.conclude c succeeded).1.status ≠ .running ∧
        ∃ error, (t.conclude c succeeded).2 =
          [.statusChanged t.id (t.conclude c succeeded).1.status error]) ∨
      (t.status ≠ .running ∧ (t.conclude c succeeded).1.status = t.status ∧
        (t.conclude c succeeded).2 = [])) := by
  by_cases hrunning : t.status = .running
  · simp only [conclude, finish, hrunning, if_true]
    refine ⟨trivial, .inl ⟨trivial, ?_, _, rfl⟩⟩
    split <;> exact TaskStatus.noConfusion
  · simp only [conclude, finish, hrunning, if_false]
    exact ⟨trivial, .inr ⟨hrunning, trivial, rfl⟩⟩

/-- A task that was told to stop, or has ended, has nothing more to say. -/
def Silent (t : Task) : Prop := t.cancelled = true ∨ t.phase = .ended

/-- What an event can make of a task: it goes on without a word about its status, and without any if
it is silent; or it ends, says just that and is silent from then on. -/
inductive Tells (t : Task) : Task → List TaskUpdate → Prop
  | goesOn (u : Task) (told : List TaskUpdate) (hstatus : u.status = t.status)
    (hsilent : t.Silent → u.Silent)
    (htold : ∀ up ∈ told, up.task = t.id ∧ up.isStatusChange = false ∧ ¬t.Silent) : Tells t u told
  | ends (u : Task) (error : Option String) (hrunning : t.status = .running)
    (hended : u.status ≠ .running) (hsilent : u.Silent) :
    Tells t u [.statusChanged t.id u.status error]

omit [Regex.Library] [Machine] in
/-- A task that keeps its status and its silence has nothing to tell. -/
theorem Tells.nothing {t u : Task} (hstatus : u.status = t.status) (hsilent : t.Silent → u.Silent) :
    Tells t u [] :=
  .goesOn u [] hstatus hsilent fun _ hup => absurd hup List.not_mem_nil

omit [Regex.Library] [Machine] in
/-- What a task tells is about itself. -/
theorem Tells.task_eq {t u : Task} {told : List TaskUpdate} (h : t.Tells u told) :
    ∀ up ∈ told, up.task = t.id := by
  cases h with
  | goesOn told _ _ htold => exact fun up hup => (htold up hup).1
  | ends error => exact fun up hup => by rw [List.mem_singleton.1 hup]; rfl

omit [Regex.Library] [Machine] in
/-- A section that does not end a task, and says nothing. -/
theorem Tells.setup_eq {t u : Task} (hsetup : u.setup = t.setup) (hstatus : u.status = t.status)
    (hopen : t.phase ≠ .ended) : Tells t u [] :=
  .nothing hstatus fun hsilent =>
    .inl ((cancelled_eq_of_setup hsetup).trans (hsilent.resolve_right hopen))

/-- What a section makes of a task, with what it publishes. -/
theorem tells_step (c : Cache) (buckets : Nat) (t : Task) :
    Tells t (t.step c buckets).1 (t.step c buckets).2 := by
  have hkept : ∀ u : Task, u.setup = t.setup → t.phase ≠ .ended → t.Silent → u.Silent :=
    fun u hsame hopen hsilent =>
      .inl ((cancelled_eq_of_setup hsame).trans (hsilent.resolve_right hopen))
  have hran : ∀ {rows : List Record} {runEnd : RunEnd} {u v : Task} {told : List TaskUpdate},
      t.Ran buckets rows runEnd u told → t.phase ≠ .ended → v.setup = t.setup →
      v.status = u.status → Tells t v told := by
    intro rows runEnd u v told hran hopen hsetup hstatus
    refine .goesOn v told (hstatus.trans hran.status_eq) (hkept v hsetup hopen) fun up hup => ?_
    obtain ⟨htask, hchange, hruns⟩ := hran.publishes up hup
    refine ⟨htask, hchange, fun hsilent => ?_⟩
    rw [hsilent.resolve_right hopen] at hruns
    cases hruns
  obtain ⟨u, told, hstep, hsection⟩ := t.section_of_step c buckets
  have hsetup := setup_step c buckets t
  rw [hstep] at hsetup ⊢
  cases hsection with
  | start hphase | settled hphase =>
    exact .setup_eq hsetup (status_proceed c t _) (by simp [hphase])
  | stop => exact .nothing rfl fun _ => .inr rfl
  | wait | rest => exact .nothing rfl fun hsilent => hsilent
  | arrival hphase =>
    exact .nothing rfl fun hsilent => .inl (hsilent.resolve_right (by simp [hphase]))
  | compute hphase h => exact hran h (by simp [hphase]) hsetup (status_proceed c _ _)
  | computeLast hphase h => exact hran h (by simp [hphase]) hsetup rfl
  | breakOff hphase h => exact hran h (by simp [hphase]) hsetup rfl
  | conclude =>
    obtain ⟨hended, ⟨hrunning, hstatus, error, htold⟩ | ⟨-, hstatus, htold⟩⟩ :=
      conclude_cases c t _
    · rw [htold]
      exact .ends _ error hrunning hstatus (.inr hended)
    · rw [htold]
      exact .nothing hstatus fun _ => .inr hended

end Task

/-! ## What an event publishes -/

namespace Engine

/-- What an order to stop the task with a name publishes. -/
def publishedEnd (e : Engine) (id : String) : List TaskUpdate :=
  match e.task? id with
  | .ok t => if t.status = .running then [.statusChanged id .canceled none] else []
  | .error _ => []

variable [Regex.Library] [Machine]

/-- What an event publishes. -/
def published (e : Engine) : EngineEvent → List TaskUpdate
  | .cancel id | .release id => e.publishedEnd id
  | .taskStep i =>
    match e.tasks[i]? with
    | some t => (t.step e.cache e.config.buckets).2
    | none => []
  | .run .. | .report .. | .settle .. | .fetchTurn _ => []

omit [Regex.Library] [Machine] in
/-- Letting go publishes nothing. -/
theorem updates_releaseReferences (e : Engine) (t : Task) :
    (e.releaseReferences t).updates = e.updates := by
  unfold releaseReferences
  split <;> rfl

/-- Every event adds to the stream what it publishes. -/
theorem updates_step (e : Engine) (ev : EngineEvent) :
    (e.step ev).updates = e.updates ++ e.published ev := by
  cases ev with
  | run id q =>
    simp only [step, published, List.append_nil]
    split
    · rfl
    · cases plan e.registry e.config q <;> rfl
  | cancel id =>
    simp only [published, publishedEnd]
    cases hfind : e.task? id with
    | error fault => rw [(step_of_missing hfind).1, List.append_nil]
    | ok t =>
      by_cases hrunning : t.status = .running <;>
        simp [step, cancelQuery, hfind, bind, Except.bind, pure, Except.pure, Except.toOption,
          Task.finish, hrunning, publish, updates_releaseReferences]
  | release id =>
    simp only [published, publishedEnd]
    cases hfind : e.task? id with
    | error fault => rw [(step_of_missing hfind).2, List.append_nil]
    | ok t =>
      by_cases hrunning : t.status = .running <;>
        simp [step, releaseTask, hfind, bind, Except.bind, pure, Except.pure, Except.toOption,
          Task.finish, hrunning, publish, updates_releaseReferences]
  | report | settle | fetchTurn => exact (List.append_nil _).symm
  | taskStep i =>
    simp only [step, published, stepTask]
    cases e.tasks[i]? with
    | none => exact (List.append_nil _).symm
    | some t => rfl

/-- The updates about the task with a name. -/
def about (id : String) (updates : List TaskUpdate) : List TaskUpdate :=
  updates.filter fun up => up.task = id

omit [Regex.Library] [Machine] in
/-- Updates about a task in two streams are those in the first and those in the second. -/
theorem about_append (id : String) (updates more : List TaskUpdate) :
    about id (updates ++ more) = about id updates ++ about id more := List.filter_append ..

omit [Regex.Library] [Machine] in
/-- In a stream about one task everything is about it. -/
theorem about_eq_self {id : String} {updates : List TaskUpdate} (h : ∀ up ∈ updates, up.task = id) :
    about id updates = updates :=
  List.filter_eq_self.2 fun up hup => decide_eq_true (h up hup)

omit [Regex.Library] [Machine] in
/-- In a stream about other tasks nothing is about it. -/
theorem about_eq_nil {id : String} {updates : List TaskUpdate} (h : ∀ up ∈ updates, up.task ≠ id) :
    about id updates = [] :=
  List.filter_eq_nil_iff.2 fun up hup heq => h up hup (of_decide_eq_true heq)

omit [Regex.Library] [Machine] in
/-- An order to stop, under the name of a task that is listed, ends that task if it is running. -/
theorem tells_stopped (e : Engine) {t : Task} (hfind : e.task? t.id = .ok t) (listed : Bool) :
    t.Tells { t.stopped with listed } (e.publishedEnd t.id) := by
  by_cases hrunning : t.status = .running
  · have hcanceled : t.stopped.status = .canceled := by
      simp [Task.stopped, Task.finish, hrunning]
    have hended : ({ t.stopped with listed } : Task).status ≠ .running := by
      change t.stopped.status ≠ .running
      rw [hcanceled]
      exact TaskStatus.noConfusion
    have hpublished : e.publishedEnd t.id =
        [.statusChanged t.id ({ t.stopped with listed } : Task).status none] := by
      simp only [publishedEnd, hfind, hrunning, if_true, hcanceled]
    rw [hpublished]
    exact .ends _ none hrunning hended (.inl rfl)
  · have hsame : t.stopped = { t with cancelled := true, released := true } := by
      simp [Task.stopped, Task.finish, hrunning]
    simp only [publishedEnd, hfind, hrunning, if_false]
    rw [hsame]
    exact .nothing rfl fun _ => .inl rfl

/-- An event that leaves a task alone and publishes nothing. -/
theorem tells_untouched {e : Engine} {j : Nat} {t : Task} {ev : EngineEvent}
    (htasks : (e.step ev).tasks[j]? = some t) (hpublished : e.published ev = []) :
    ∃ u, (e.step ev).tasks[j]? = some u ∧ t.Tells u (about t.id (e.published ev)) := by
  rw [hpublished]
  exact ⟨t, htasks, .nothing rfl fun hsilent => hsilent⟩

/-- An order to stop the task with a name says what it publishes of that task, and nothing of the
others. -/
theorem tells_order {e : Engine} (hnames : (e.tasks.map Task.id).Nodup) {j : Nat} {t : Task}
    (h : e.tasks[j]? = some t) {ev : EngineEvent} {id : String} {found changed : Task}
    (hfind : e.task? id = .ok found)
    (htasks : (e.step ev).tasks = e.tasks.map fun u => if u.id = found.id then changed else u)
    (hpublished : e.published ev = e.publishedEnd found.id)
    (htells : found.Tells changed (e.publishedEnd found.id)) :
    ∃ u, (e.step ev).tasks[j]? = some u ∧ t.Tells u (about t.id (e.published ev)) := by
  obtain ⟨hfound, -, -⟩ := task?_eq_ok hfind
  have htold := htells.task_eq
  rw [htasks, hpublished, List.getElem?_map, h, Option.map_some]
  by_cases hid : t.id = found.id
  · obtain rfl := eq_of_id hnames (List.mem_of_getElem? h) hfound hid
    refine ⟨changed, by rw [if_pos rfl], ?_⟩
    rwa [about_eq_self htold]
  · refine ⟨t, by rw [if_neg hid], ?_⟩
    rw [about_eq_nil fun up hup heq => hid (heq.symm.trans (htold up hup))]
    exact .nothing rfl fun hsilent => hsilent

/-- A section of one task says what it publishes of that task, and nothing of the others. -/
theorem tells_taskStep {e : Engine} (hnames : (e.tasks.map Task.id).Nodup) {j : Nat} {t : Task}
    (h : e.tasks[j]? = some t) (i : Nat) :
    ∃ u, (e.step (.taskStep i)).tasks[j]? = some u ∧
      t.Tells u (about t.id (e.published (.taskStep i))) := by
  cases hi : e.tasks[i]? with
  | none =>
    refine tells_untouched ?_ (by simp only [published, hi])
    simp only [step, stepTask, hi]
    exact h
  | some other =>
    have htells := other.tells_step e.cache e.config.buckets
    have htold := htells.task_eq
    have htasks : (e.step (.taskStep i)).tasks =
        e.tasks.set i (other.step e.cache e.config.buckets).1 := by
      simp only [step, stepTask, hi]
    simp only [published, hi]
    rw [htasks]
    by_cases hij : i = j
    · subst hij
      obtain rfl : other = t := Option.some.inj (hi.symm.trans h)
      refine ⟨_, List.getElem?_set_self (List.getElem?_eq_some_iff.1 h).1, ?_⟩
      rwa [about_eq_self htold]
    · refine ⟨t, by rw [List.getElem?_set_ne hij, h], ?_⟩
      rw [about_eq_nil fun up hup heq => hij (position_of_id hnames hi h ?_)]
      · exact .nothing rfl fun hsilent => hsilent
      · exact (htold up hup).symm.trans heq

/-- What an event makes of the task at a position, with what it publishes about it. -/
theorem tells {e : Engine} (hnames : (e.tasks.map Task.id).Nodup) {j : Nat} {t : Task}
    (h : e.tasks[j]? = some t) (ev : EngineEvent) :
    ∃ u, (e.step ev).tasks[j]? = some u ∧ t.Tells u (about t.id (e.published ev)) := by
  cases ev with
  | run id q =>
    obtain ⟨u, hu, hchange⟩ := task_step hnames h (.run id q)
    cases hchange with
    | same => exact tells_untouched hu rfl
  | report | settle | fetchTurn => exact tells_untouched h rfl
  | cancel id =>
    cases hfind : e.task? id with
    | error fault =>
      refine tells_untouched (by rw [(step_of_missing hfind).1]; exact h) ?_
      simp only [published, publishedEnd, hfind]
    | ok found =>
      obtain ⟨hfound, -, rfl⟩ := task?_eq_ok hfind
      have htasks := tasks_step_cancel hfind
      split at htasks
      · exact tells_order hnames h hfind htasks rfl (e.tells_stopped hfind found.stopped.listed)
      · next hended =>
        refine tells_untouched (by rw [htasks]; exact h) ?_
        simp only [published, publishedEnd, hfind, hended, if_false]
  | release id =>
    cases hfind : e.task? id with
    | error fault =>
      refine tells_untouched (by rw [(step_of_missing hfind).2]; exact h) ?_
      simp only [published, publishedEnd, hfind]
    | ok found =>
      obtain ⟨hfound, -, rfl⟩ := task?_eq_ok hfind
      exact tells_order hnames h hfind (tasks_step_release hfind) rfl (e.tells_stopped hfind false)
  | taskStep i => exact tells_taskStep hnames h i

end Engine

/-! ## What the stream has said -/

namespace Task

/-- What the stream has said about a task: nothing about its status while it runs, and then its
status as the last thing. After that the task is silent. -/
structure Told (t : Task) (history : List TaskUpdate) : Prop where
  silent : t.status ≠ .running → t.Silent
  story : ∃ before error, (∀ up ∈ before, up.isStatusChange = false) ∧
    history = before ++ if t.status = .running then [] else [.statusChanged t.id t.status error]

/-- A silent task has nothing to add but its end. -/
theorem Told.nothing {t u : Task} {history told : List TaskUpdate} (h : t.Told history)
    (htells : t.Tells u told) (hended : t.status ≠ .running) : u.status = t.status ∧ told = [] := by
  cases htells with
  | goesOn _ hstatus _ htold =>
    refine ⟨hstatus, List.eq_nil_iff_forall_not_mem.2 fun up hup => ?_⟩
    exact (htold up hup).2.2 (h.silent hended)
  | ends _ hrunning => exact absurd hrunning hended

/-- What a task tells continues its history. -/
theorem Told.tells {t u : Task} {history told : List TaskUpdate} (h : t.Told history)
    (htells : t.Tells u told) (hid : u.id = t.id) : u.Told (history ++ told) := by
  obtain ⟨before, error, hbefore, hhistory⟩ := h.story
  by_cases hrunning : t.status = .running
  · rw [if_pos hrunning, List.append_nil] at hhistory
    subst hhistory
    cases htells with
    | goesOn _ hstatus _ htold =>
      refine ⟨fun hended => absurd (hstatus.trans hrunning) hended, history ++ told, error, ?_, ?_⟩
      · intro up hup
        exact (List.mem_append.1 hup).elim (hbefore up) fun hup => (htold up hup).2.1
      · rw [if_pos (hstatus.trans hrunning), List.append_nil]
    | ends error _ hended hsilent =>
      exact ⟨fun _ => hsilent, history, error, hbefore, by rw [if_neg hended, hid]⟩
  · obtain ⟨hstatus, rfl⟩ := h.nothing htells hrunning
    refine ⟨fun _ => ?_, before, error, hbefore, ?_⟩
    · cases htells with
      | goesOn _ _ hsilent _ => exact hsilent (h.silent hrunning)
    · rw [List.append_nil, hhistory, hid, hstatus]

end Task

namespace Engine

/-- What holds of the stream at any time. -/
structure Told (e : Engine) : Prop where
  /-- The stream is about tasks that there are. -/
  named : ∀ up ∈ e.updates, up.task ∈ e.tasks.map Task.id
  tasks : ∀ t ∈ e.tasks, t.Told (about t.id e.updates)

variable [Regex.Library] [Machine]

/-- What is published is about a task that is there. -/
theorem task_of_mem_published {e : Engine} (ev : EngineEvent) :
    ∀ up ∈ e.published ev, up.task ∈ e.tasks.map Task.id := by
  have hend : ∀ id, ∀ up ∈ e.publishedEnd id, up.task ∈ e.tasks.map Task.id := by
    intro id up hup
    unfold publishedEnd at hup
    split at hup
    · next t hfind =>
      obtain ⟨ht, -, rfl⟩ := task?_eq_ok hfind
      split at hup
      · rw [List.mem_singleton.1 hup]
        exact List.mem_map_of_mem ht
      · exact absurd hup List.not_mem_nil
    · exact absurd hup List.not_mem_nil
  cases ev with
  | cancel id => exact hend id
  | release id => exact hend id
  | taskStep i =>
    intro up hup
    simp only [published] at hup
    split at hup
    · next t hi =>
      rw [(t.tells_step e.cache e.config.buckets).task_eq up hup]
      exact List.mem_map_of_mem (List.mem_of_getElem? hi)
    · exact absurd hup List.not_mem_nil
  | run | report | settle | fetchTurn => exact fun up hup => absurd hup List.not_mem_nil

/-- A task stays, with its name, and tells what an event publishes about it. -/
theorem tells_kept {e : Engine} (hnames : (e.tasks.map Task.id).Nodup) {j : Nat} {t : Task}
    (h : e.tasks[j]? = some t) (ev : EngineEvent) :
    ∃ u, (e.step ev).tasks[j]? = some u ∧ u.id = t.id ∧ t.Tells u (about t.id (e.published ev)) := by
  obtain ⟨u, hu, htells⟩ := tells hnames h ev
  obtain ⟨v, hv, hchange⟩ := task_step hnames h ev
  obtain rfl : u = v := Option.some.inj (hu.symm.trans hv)
  exact ⟨u, hu, hchange.id_eq, htells⟩

namespace Told

variable {e : Engine}

omit [Regex.Library] [Machine] in
/-- Before any event nothing has been told. -/
theorem start (registry : Registry) (config : EngineConfig) : (Engine.start registry config).Told where
  named _ hup := absurd hup List.not_mem_nil
  tasks _ ht := absurd ht List.not_mem_nil

/-- Every event keeps the history of each task in order. -/
theorem step (h : e.Told) (hsound : e.Sound) (ev : EngineEvent) : (e.step ev).Told := by
  have hnamed : ∀ up ∈ (e.step ev).updates, up.task ∈ e.tasks.map Task.id := by
    intro up hup
    rw [updates_step] at hup
    exact (List.mem_append.1 hup).elim (h.named up) (task_of_mem_published ev up)
  constructor
  · intro up hup
    obtain ⟨t, ht, hid⟩ := List.mem_map.1 (hnamed up hup)
    obtain ⟨j, hj⟩ := List.mem_iff_getElem?.1 ht
    obtain ⟨u, hu, hsame, -⟩ := tells_kept hsound.names hj ev
    exact List.mem_map.2 ⟨u, List.mem_of_getElem? hu, hsame.trans hid⟩
  · intro u hu
    obtain ⟨j, hj⟩ := List.mem_iff_getElem?.1 hu
    rcases task_step_cases hsound.names hj with ⟨t, ht, -⟩ | ⟨-, hstarted⟩
    · obtain ⟨v, hv, hid, htells⟩ := tells_kept hsound.names ht ev
      obtain rfl : u = v := Option.some.inj (hj.symm.trans hv)
      rw [updates_step, about_append, hid]
      exact (h.tasks t (List.mem_of_getElem? ht)).tells htells hid
    · have hnew := id_of_started hstarted
      have hnothing : about u.id (e.step ev).updates = [] :=
        about_eq_nil fun up hup heq => hnew (heq ▸ hnamed up hup)
      rw [hnothing]
      obtain ⟨id, q, p, -, -, -, -, rfl⟩ := started?_eq_some hstarted
      exact ⟨fun hended => absurd rfl hended, [], none, nofun, rfl⟩

/-- The history of each task is in order after all events. -/
theorem after (h : e.Told) (hsound : e.Sound) (events : List EngineEvent) : (e.after events).Told := by
  induction events generalizing e with
  | nil => exact h
  | cons ev events ih => exact ih (h.step hsound ev) (hsound.step ev)

/-- After its end nothing more becomes of a task, and nothing more is said about it. -/
theorem ended_after (h : e.Told) (hsound : e.Sound) {j : Nat} {t : Task} (ht : e.tasks[j]? = some t)
    (hended : t.status ≠ .running) (events : List EngineEvent) :
    ∃ u, (e.after events).tasks[j]? = some u ∧ u.id = t.id ∧ u.status = t.status ∧
      about t.id (e.after events).updates = about t.id e.updates := by
  induction events generalizing e t with
  | nil => exact ⟨t, ht, rfl, rfl, rfl⟩
  | cons ev events ih =>
    obtain ⟨u, hu, hid, htells⟩ := tells_kept hsound.names ht ev
    obtain ⟨hstatus, hnothing⟩ := (h.tasks t (List.mem_of_getElem? ht)).nothing htells hended
    obtain ⟨v, hv, hvid, hvstatus, habout⟩ :=
      ih (h.step hsound ev) (hsound.step ev) hu (hstatus ▸ hended)
    refine ⟨v, hv, hvid.trans hid, hvstatus.trans hstatus, ?_⟩
    rw [hid, updates_step, about_append, hnothing, List.append_nil] at habout
    exact habout

end Told

/-- After any run: of a running task the stream has said nothing about its status; of one that has
ended it says the status once, as the last thing about the task. What comes next changes neither
status nor stream for a task that has ended, and an event says that the status of a task has changed
exactly if it is the one that ends the task. -/
theorem status_changes_once (registry : Registry) (config : EngineConfig)
    (events : List EngineEvent) :
    let e := (start registry config).after events
    (∀ t ∈ e.tasks, ∃ before error, (∀ up ∈ before, up.isStatusChange = false) ∧
      about t.id e.updates =
        before ++ if t.status = .running then [] else [.statusChanged t.id t.status error]) ∧
    (∀ (more : List EngineEvent) (j : Nat) (t : Task), e.tasks[j]? = some t → t.status ≠ .running →
      ∃ u, (e.after more).tasks[j]? = some u ∧ u.id = t.id ∧ u.status = t.status ∧
        about t.id (e.after more).updates = about t.id e.updates) ∧
    (∀ (ev : EngineEvent) (j : Nat) (t : Task), e.tasks[j]? = some t →
      ∃ u told error, (e.step ev).tasks[j]? = some u ∧ u.id = t.id ∧
        (e.step ev).updates = e.updates ++ told ∧
        (about t.id told).filter TaskUpdate.isStatusChange =
          if u.status = t.status then [] else [.statusChanged t.id u.status error]) := by
  intro e
  have hsound : e.Sound := (Sound.start registry config).after events
  have htold : e.Told := (Told.start registry config).after (Sound.start registry config) events
  refine ⟨fun t ht => (htold.tasks t ht).story,
    fun more j t ht hended => htold.ended_after hsound ht hended more, fun ev j t ht => ?_⟩
  obtain ⟨u, hu, hid, htells⟩ := tells_kept hsound.names ht ev
  generalize hsaid : about t.id (e.published ev) = said at htells
  cases htells with
  | goesOn _ hstatus _ hnone =>
    refine ⟨u, e.published ev, none, hu, hid, updates_step e ev, ?_⟩
    rw [hsaid, if_pos hstatus, List.filter_eq_nil_iff]
    intro up hup
    rw [(hnone up hup).2.1]
    exact Bool.false_ne_true
  | ends error hrunning hended _ =>
    refine ⟨u, e.published ev, error, hu, hid, updates_step e ev, ?_⟩
    rw [hsaid, if_neg fun heq => hended (heq.trans hrunning)]
    rfl

end Engine

end LogSearch
