import LogSearch.Proofs.Cache.Progress
import LogSearch.Proofs.Engine.Holding

/-!
# Tasks do not disturb each other

An order (a query, a cancellation, a release) is for one task. To the fetches it adds and takes
references of that task, and nothing else; so what another task holds goes on as it was. And every
reference belongs to a task that has not let go, so nothing is left once all tasks have.

* `Cache.Honest`: only a fetch that was told to stop ends as canceled.
* `Engine.Owned`: whoever is among the tasks of a fetch is a task that holds it.
* `Engine.Owned.step`, `Engine.Owned.after`: every event keeps this, hence every run.
* `Engine.tasks_isolated`: the three parts together, for every run.
-/

namespace LogSearch

/-! ## Canceled fetches -/

namespace Fetch

/-- A fetch that ended as canceled was told to stop. -/
def Honest (f : Fetch) : Prop := f.status = .canceled → f.cancelled = true

/-- An end that is no cancellation keeps a fetch honest, and so does one of a fetch that was told to
stop. -/
theorem Honest.settle {f : Fetch} (h : f.Honest) {status : FetchStatus}
    (hstatus : f.cancelled = false → status ≠ .canceled) : (f.settle status).Honest := by
  unfold Fetch.settle
  split
  · exact h
  · intro hcanceled
    change (if f.cancelled = true then FetchStatus.canceled else status) = .canceled at hcanceled
    split at hcanceled
    · next hstop => exact hstop
    · next hruns => exact absurd hcanceled (hstatus ((Bool.not_eq_true _).mp hruns))

/-- Rows keep a fetch honest. -/
theorem Honest.push {f : Fetch} (h : f.Honest) (batch : List Record) : (f.push batch).Honest := by
  unfold Fetch.push
  split <;> exact h

/-- No outcome of a source is a cancellation. -/
theorem ofOutcome_ne_canceled (outcome : Except SourceFault Unit) :
    FetchStatus.ofOutcome outcome ≠ .canceled := by
  cases outcome <;> exact FetchStatus.noConfusion

/-- A turn keeps a fetch honest. -/
theorem Honest.turn {f : Fetch} (h : f.Honest) : f.turn.Honest := by
  unfold Fetch.turn
  split
  · exact h
  split
  · next hstop => exact h.settle fun hruns => by rw [hruns] at hstop; cases hstop
  split
  · next batch rest _ =>
    exact Honest.push (f := { f with response := { f.response with batches := rest } }) h batch
  split
  · next outcome _ => exact h.settle fun _ => ofOutcome_ne_canceled outcome
  · exact h

/-- Every event keeps each fetch honest. -/
theorem Change.honest {n : Nat} {f g : Fetch} {e : CacheEvent} (h : Change n f e g)
    (hf : f.Honest) : g.Honest := by
  cases h with
  | same => exact hf
  | refer _ task =>
    unfold addTask
    split <;> exact hf
  | letGo _ task _ =>
    intro hcanceled
    rw [Cache.cancelled_letGo]
    have hstatus : (Cache.letGo task f).status = f.status := by
      unfold Cache.letGo
      split <;> rfl
    rw [hf (hstatus ▸ hcanceled), Bool.or_true]
  | push batch => exact hf.push batch
  | settle outcome => exact hf.settle fun _ => ofOutcome_ne_canceled outcome
  | turn => exact hf.turn

end Fetch

namespace Cache

/-- Only fetches that were told to stop end as canceled. -/
def Honest (c : Cache) : Prop := ∀ n f, c.fetch? n = some f → f.Honest

/-- Every event keeps a cache honest. -/
theorem Honest.step {c : Cache} (h : c.Honest) (e : CacheEvent) : (c.step e).Honest := by
  intro n g hg
  rcases c.fetch?_step_cases hg with ⟨f, hf, hchange⟩ | ⟨-, hstarted⟩
  · exact hchange.honest (h n f hf)
  · obtain ⟨identity, task, response, rfl, -⟩ := c.started?_eq_some hstarted
    exact fun hcanceled => FetchStatus.noConfusion hcanceled

/-- A cache stays honest through all events. -/
theorem Honest.after {c : Cache} (h : c.Honest) (events : List CacheEvent) :
    (c.after events).Honest := by
  induction events generalizing c with
  | nil => exact h
  | cons e events ih => exact ih (h.step e)

end Cache

/-! ## What an order does to a fetch -/

/-- The task that an order is for. -/
def EngineEvent.orderTo? : EngineEvent → Option String
  | .run task _ | .cancel task | .release task => some task
  | .report .. | .settle .. | .fetchTurn _ | .taskStep _ => none

namespace Engine

variable [Regex.Library] [Machine]

/-- An order touches references and the index only. -/
theorem onlyRefers_cacheEvents {e : Engine} {ev : EngineEvent} {id : String}
    (hev : ev.orderTo? = some id) {c : CacheEvent} (h : c ∈ e.cacheEvents ev) :
    c.onlyRefers = true := by
  cases makes_of_mem h with
  | forceRemove | referenceOrAdd | cancel | release => rfl
  | report | settle | turn => cases hev

/-- A query that starts no task changes nothing. -/
theorem step_of_not_started {e : Engine} {id : String} {q : Inquiry}
    (h : e.started? (.run id q) = none) : e.step (.run id q) = e := by
  simp only [started?, step] at h ⊢
  split
  · rfl
  · next hnew =>
    rw [if_neg hnew] at h
    split at h
    · cases h
    · rfl

/-- Without an order all references stay. -/
theorem references_step {e : Engine} {ev : EngineEvent} (hev : ev.orderTo? = none) {n : Nat}
    {g : Fetch} (hg : (e.step ev).cache.fetch? n = some g) :
    ∃ f, e.cache.fetch? n = some f ∧ g.tasks = f.tasks := by
  have hmodify : ∀ (id : Nat) (change : Fetch → Fetch), (∀ f, (change f).tasks = f.tasks) →
      (e.cache.modify id change).fetch? n = some g → ∃ f, e.cache.fetch? n = some f ∧ g.tasks = f.tasks := by
    intro id change hchange hg
    rw [Cache.fetch?_modify] at hg
    split at hg
    · obtain ⟨f, hf, rfl⟩ := Option.map_eq_some_iff.1 hg
      exact ⟨f, hf, hchange f⟩
    · exact ⟨g, hg, rfl⟩
  cases ev with
  | run | cancel | release => cases hev
  | report fetch rows => exact hmodify fetch _ (fun f => (Fetch.keepsReferences_push _).tasks f) hg
  | settle fetch outcome => exact hmodify fetch _ (Fetch.keepsReferences_settle _).tasks hg
  | fetchTurn fetch => exact hmodify fetch _ Fetch.keepsReferences_turn.tasks hg
  | taskStep i =>
    have hcache := cache_step e (.taskStep i)
    rw [hcache] at hg
    exact ⟨g, hg, rfl⟩

/-- An order leaves every other task as it is. -/
theorem task_step_of_order {e : Engine} (hnames : (e.tasks.map Task.id).Nodup) {ev : EngineEvent}
    {id : String} (hev : ev.orderTo? = some id) {j : Nat} {t : Task} (ht : e.tasks[j]? = some t)
    (hother : t.id ≠ id) : (e.step ev).tasks[j]? = some t := by
  obtain ⟨u, hu, hchange⟩ := task_step hnames ht ev
  cases hchange with
  | same => exact hu
  | cancel => exact absurd (Option.some.inj hev) hother
  | release => exact absurd (Option.some.inj hev) hother
  | step => cases hev

end Engine

/-! ## Who owns a reference -/

namespace Cache

/-- A new reference to a fetch is that of the task that asks for it. -/
theorem mem_tasks_referenceOrAdd {c : Cache} {identity : CacheIdentity} {task : String}
    {response : Response} {n : Nat} {g : Fetch} {name : String}
    (hg : (c.referenceOrAdd identity task response).2.2.fetch? n = some g) (hname : name ∈ g.tasks) :
    (∃ f, c.fetch? n = some f ∧ name ∈ f.tasks) ∨
      name = task ∧ (c.referenceOrAdd identity task response).1 = n := by
  unfold referenceOrAdd at hg ⊢
  cases husable : c.usable? identity with
  | some id =>
    simp only [husable, fetch?_modify] at hg ⊢
    split at hg
    · next hid =>
      obtain ⟨f, hf, rfl⟩ := Option.map_eq_some_iff.1 hg
      unfold Fetch.addTask at hname
      split at hname
      · exact .inl ⟨f, hf, hname⟩
      · rcases List.mem_append.1 hname with hname | hname
        · exact .inl ⟨f, hf, hname⟩
        · exact .inr ⟨List.mem_singleton.1 hname, hid⟩
    · exact .inl ⟨g, hg, hname⟩
  | none =>
    simp only [husable, insert, fetch?] at hg ⊢
    rw [List.getElem?_append] at hg
    split at hg
    · exact .inl ⟨g, hg, hname⟩
    · rw [List.getElem?_singleton] at hg
      split at hg
      · cases hg
        exact .inr ⟨List.mem_singleton.1 hname, by omega⟩
      · cases hg

/-- A fetch that a task has let go of has lost that reference and no other. -/
theorem mem_tasks_release {c : Cache} {id n : Nat} {task name : String} {g : Fetch}
    (hg : (c.release id task).2.fetch? n = some g) (hname : name ∈ g.tasks) :
    ∃ f, c.fetch? n = some f ∧ name ∈ f.tasks ∧ (name = task → id ≠ n) := by
  have hmodify : ((c.modify id (letGo task)).fetch? n) = some g := by
    rw [release_eq] at hg
    by_cases horphan : c.isOrphaned id task = true
    · simp only [horphan, if_true] at hg
      exact hg
    · simp only [horphan] at hg
      exact hg
  rw [fetch?_modify] at hmodify
  split at hmodify
  · next hid =>
    obtain ⟨f, hf, rfl⟩ := Option.map_eq_some_iff.1 hmodify
    rw [tasks_letGo, Fetch.removeTask, List.mem_filter, decide_eq_true_eq] at hname
    exact ⟨f, hf, hname.1, fun heq => absurd heq hname.2⟩
  · next hid => exact ⟨g, hmodify, hname, fun _ => hid⟩

end Cache

namespace Engine

/-- A fetch has a task after an attachment if it had it before, or if it is the fetch attached to. -/
theorem mem_tasks_attach {c : Cache} {task : String} {forced : Bool} {selection : Selection}
    {range : TimeRange} {limit : Nat} {s : String × Source} {n : Nat} {g : Fetch} {name : String}
    (hg : (attach c task forced selection range limit s.1 s.2).2.fetch? n = some g)
    (hname : name ∈ g.tasks) :
    (∃ f, c.fetch? n = some f ∧ name ∈ f.tasks) ∨
      name = task ∧ (attach c task forced selection range limit s.1 s.2).1.fetch = n := by
  have hrefer := Cache.mem_tasks_referenceOrAdd hg hname
  cases forced with
  | true => exact hrefer
  | false => exact hrefer

/-- Attaching a task adds its own references, one for each of its fetches. -/
theorem mem_tasks_attachAll {c : Cache} {task : String} {forced : Bool} {selection : Selection}
    {range : TimeRange} {limit : Nat} {sources : List (String × Source)} {n : Nat} {g : Fetch}
    {name : String}
    (hg : (attachAll c task forced selection range limit sources).2.fetch? n = some g)
    (hname : name ∈ g.tasks) :
    (∃ f, c.fetch? n = some f ∧ name ∈ f.tasks) ∨
      name = task ∧ ∃ s ∈ (attachAll c task forced selection range limit sources).1,
        s.fetch = n := by
  induction sources generalizing c with
  | nil => exact .inl ⟨g, hg, hname⟩
  | cons s rest ih =>
    rcases ih hg with ⟨f, hf, hmem⟩ | ⟨hown, subtask, hsubtask, hfetch⟩
    · rcases mem_tasks_attach hf hmem with hold | ⟨hown, hfetch⟩
      · exact .inl hold
      · exact .inr ⟨hown, _, List.mem_cons_self, hfetch⟩
    · exact .inr ⟨hown, subtask, List.mem_cons_of_mem _ hsubtask, hfetch⟩

/-- A task that lets go of its fetches is in none of them any more. -/
theorem mem_tasks_letGoEvents {c : Cache} {task name : String} {subtasks : List Subtask} {n : Nat}
    {g : Fetch}
    (hg : (c.after (subtasks.map fun s => .release s.fetch task)).fetch? n = some g)
    (hname : name ∈ g.tasks) :
    ∃ f, c.fetch? n = some f ∧ name ∈ f.tasks ∧ (name = task → ∀ s ∈ subtasks, s.fetch ≠ n) := by
  induction subtasks generalizing c with
  | nil => exact ⟨g, hg, hname, fun _ s hs => absurd hs List.not_mem_nil⟩
  | cons s rest ih =>
    obtain ⟨f, hf, hmem, hrest⟩ := ih hg
    obtain ⟨k, hk, hkmem, hfirst⟩ := Cache.mem_tasks_release hf hmem
    refine ⟨k, hk, hkmem, fun heq => ?_⟩
    exact List.forall_mem_cons.2 ⟨hfirst heq, hrest heq⟩

/-- Who is among the tasks of a fetch is a task that has it and has not let go. -/
def Owned (e : Engine) : Prop :=
  ∀ n f, e.cache.fetch? n = some f → ∀ name ∈ f.tasks,
    ∃ t ∈ e.tasks, t.id = name ∧ t.released = false ∧ ∃ s ∈ t.subtasks, s.fetch = n

namespace Owned

variable {e : Engine}

/-- Before any event no fetch has a task. -/
theorem start (registry : Registry) (config : EngineConfig) : (Engine.start registry config).Owned := by
  intro n f hf
  simp [Engine.start, Cache.empty, Cache.fetch?] at hf

variable [Regex.Library] [Machine]

/-- An owner stays one through every event that is no order for it to stop. -/
theorem owner_step (hsound : e.Sound) {ev : EngineEvent} {n : Nat} {t : Task} (ht : t ∈ e.tasks)
    (hheld : t.released = false) (hfetch : ∃ s ∈ t.subtasks, s.fetch = n)
    (hcancel : ev = .cancel t.id → t.status ≠ .running) (hrelease : ev = .release t.id → False) :
    ∃ u ∈ (e.step ev).tasks, u.id = t.id ∧ u.released = false ∧ ∃ s ∈ u.subtasks, s.fetch = n := by
  obtain ⟨j, hj⟩ := List.mem_iff_getElem?.1 ht
  obtain ⟨u, hu, hchange⟩ := task_step hsound.names hj ev
  refine ⟨u, List.mem_of_getElem? hu, hchange.id_eq, ?_, hchange.subtasks_eq ▸ hfetch⟩
  cases hchange with
  | same => exact hheld
  | cancel _ hrunning => exact absurd hrunning (hcancel rfl)
  | release => exact (hrelease rfl).elim
  | step => rw [Task.released_eq_of_setup (Task.setup_step e.cache e.config.buckets t), hheld]

omit [Regex.Library] [Machine] in
/-- Letting go leaves a reference to those only who are not the task that lets go. -/
theorem of_letGo (h : e.Owned) (hsound : e.Sound) {t : Task} (ht : t ∈ e.tasks) {n : Nat} {g : Fetch}
    (hg : (e.cache.after (letGoEvents t)).fetch? n = some g) {name : String} (hname : name ∈ g.tasks) :
    ∃ u ∈ e.tasks, u.id = name ∧ u.released = false ∧ (∃ s ∈ u.subtasks, s.fetch = n) ∧
      u.id ≠ t.id := by
  unfold letGoEvents at hg
  split at hg
  · next hreleased =>
    obtain ⟨u, hu, hid, hheld, hfetch⟩ := h n g hg name hname
    refine ⟨u, hu, hid, hheld, hfetch, fun heq => ?_⟩
    rw [eq_of_id hsound.names hu ht heq, hreleased] at hheld
    cases hheld
  · obtain ⟨f, hf, hmem, hgone⟩ := mem_tasks_letGoEvents hg hname
    obtain ⟨u, hu, hid, hheld, s, hs, hfetch⟩ := h n f hf name hmem
    refine ⟨u, hu, hid, hheld, ⟨s, hs, hfetch⟩, fun heq => ?_⟩
    rw [eq_of_id hsound.names hu ht heq] at hs
    exact hgone (hid.symm.trans heq) s hs hfetch

/-- After every event all tasks of fetches are tasks that have not let go. -/
theorem step (h : e.Owned) (hsound : e.Sound) (ev : EngineEvent) : (e.step ev).Owned := by
  intro n g hg name hname
  -- whoever was an owner before, and is not told to stop by the event, is one after it
  have hkept : ∀ u ∈ e.tasks, u.id = name → u.released = false → (∃ s ∈ u.subtasks, s.fetch = n) →
      (ev = .cancel u.id → u.status ≠ .running) → (ev ≠ .release u.id) →
      ∃ v ∈ (e.step ev).tasks, v.id = name ∧ v.released = false ∧ ∃ s ∈ v.subtasks, s.fetch = n := by
    intro u hu hid hheld hfetch hcancel hrelease
    obtain ⟨v, hv, hsame, hv'⟩ := owner_step hsound hu hheld hfetch hcancel hrelease
    exact ⟨v, hv, hsame.trans hid, hv'⟩
  cases ev with
  | run id q =>
    cases hstarted : e.started? (.run id q) with
    | none =>
      rw [step_of_not_started hstarted] at hg ⊢
      exact h n g hg name hname
    | some t =>
      have htasks := tasks_of_started hstarted
      obtain ⟨id, q, p, heq, -, -, hstep, rfl⟩ := started?_eq_some hstarted
      rw [hstep] at hg
      rcases mem_tasks_attachAll hg hname with ⟨f, hf, hmem⟩ | ⟨rfl, hfetch⟩
      · obtain ⟨u, hu, hid, hheld, hfetch⟩ := h n f hf name hmem
        exact hkept u hu hid hheld hfetch (by simp) (by simp)
      · rw [htasks]
        exact ⟨_, List.mem_append_right _ (List.mem_singleton.2 rfl), rfl, rfl, hfetch⟩
  | cancel id =>
    cases hfind : e.task? id with
    | error fault =>
      rw [(step_of_missing hfind).1] at hg ⊢
      exact h n g hg name hname
    | ok t =>
      obtain ⟨ht, -, rfl⟩ := task?_eq_ok hfind
      rw [cache_step] at hg
      simp only [cacheEvents, hfind] at hg
      split at hg
      · obtain ⟨u, hu, hid, hheld, hfetch, hne⟩ := h.of_letGo hsound ht hg hname
        exact hkept u hu hid hheld hfetch
          (fun heq => absurd (EngineEvent.cancel.inj heq).symm hne) (by simp)
      · next hended =>
        obtain ⟨u, hu, hid, hheld, hfetch⟩ := h n g hg name hname
        refine hkept u hu hid hheld hfetch (fun heq => ?_) (by simp)
        rwa [eq_of_id hsound.names hu ht (EngineEvent.cancel.inj heq).symm]
  | release id =>
    cases hfind : e.task? id with
    | error fault =>
      rw [(step_of_missing hfind).2] at hg ⊢
      exact h n g hg name hname
    | ok t =>
      obtain ⟨ht, -, rfl⟩ := task?_eq_ok hfind
      rw [cache_step] at hg
      simp only [cacheEvents, hfind] at hg
      obtain ⟨u, hu, hid, hheld, hfetch, hne⟩ := h.of_letGo hsound ht hg hname
      exact hkept u hu hid hheld hfetch (by simp)
        fun heq => hne (EngineEvent.release.inj heq).symm
  | report | settle | fetchTurn | taskStep =>
    obtain ⟨f, hf, htasks⟩ := references_step rfl hg
    obtain ⟨u, hu, hid, hheld, hfetch⟩ := h n f hf name (htasks ▸ hname)
    exact hkept u hu hid hheld hfetch (by simp) (by simp)

/-- So it is after all events. -/
theorem after (h : e.Owned) (hsound : e.Sound) (events : List EngineEvent) : (e.after events).Owned := by
  induction events generalizing e with
  | nil => exact h
  | cons ev events ih => exact ih (h.step hsound ev) (hsound.step ev)

omit [Regex.Library] [Machine] in
/-- Once all tasks have let go, no fetch can be shared, and all are told to stop. -/
theorem nothing_left (h : e.Owned) (hsound : e.Sound) (hall : ∀ t ∈ e.tasks, t.released = true) :
    e.cache.index = [] ∧ ∀ f ∈ e.cache.fetches, f.cancelled = true := by
  have hnone : ∀ n f, e.cache.fetch? n = some f → f.tasks = [] := by
    intro n f hf
    refine List.eq_nil_iff_forall_not_mem.2 fun name hname => ?_
    obtain ⟨t, ht, -, hheld, -⟩ := h n f hf name hname
    rw [hall t ht] at hheld
    cases hheld
  constructor
  · refine List.eq_nil_iff_forall_not_mem.2 fun ⟨key, n⟩ hmem => ?_
    obtain ⟨f, hf, -, hne⟩ := hsound.cache.indexed key n hmem
    exact hne (hnone n f hf)
  · intro f hf
    obtain ⟨n, hn⟩ := e.cache.mem_fetches_iff.1 hf
    exact (hsound.cache.cancelled_iff n f hn).2 (hnone n f hn)

end Owned

/-! ## Any run -/

variable [Regex.Library] [Machine]

/-- A task lets go of its fetches only if it is told to stop, and stays so. -/
theorem released_step {e : Engine} (hnames : (e.tasks.map Task.id).Nodup) {ev : EngineEvent} {j : Nat}
    {t : Task} (ht : e.tasks[j]? = some t) (hcancel : ev ≠ .cancel t.id) (hrelease : ev ≠ .release t.id) :
    ∃ u, (e.step ev).tasks[j]? = some u ∧ u.released = t.released := by
  obtain ⟨u, hu, hchange⟩ := task_step hnames ht ev
  refine ⟨u, hu, ?_⟩
  cases hchange with
  | same => rfl
  | cancel => exact absurd rfl hcancel
  | release => exact absurd rfl hrelease
  | step => exact Task.released_eq_of_setup (Task.setup_step e.cache e.config.buckets t)

/-- Tasks that were forgotten have let go. -/
def Forgets (e : Engine) : Prop := ∀ t ∈ e.tasks, t.listed = false → t.released = true

/-- After every event the tasks that were forgotten have let go. -/
theorem Forgets.step {e : Engine} (h : e.Forgets) (hsound : e.Sound) (ev : EngineEvent) :
    (e.step ev).Forgets := by
  intro u hu hunlisted
  obtain ⟨j, hj⟩ := List.mem_iff_getElem?.1 hu
  rcases task_step_cases hsound.names hj with ⟨t, ht, hchange⟩ | ⟨-, hstarted⟩
  · have hmem := List.mem_of_getElem? ht
    cases hchange with
    | same => exact h _ hmem hunlisted
    | cancel => rfl
    | release => rfl
    | step =>
      have hsetup := Task.setup_step e.cache e.config.buckets t
      have hlisted := congrArg Task.listed hsetup
      rw [Task.released_eq_of_setup hsetup]
      exact h t hmem (hlisted.symm.trans hunlisted)
  · obtain ⟨id, q, p, -, -, -, -, rfl⟩ := started?_eq_some hstarted
    exact Bool.noConfusion hunlisted

/-- After all events the tasks that were forgotten have let go. -/
theorem Forgets.after {e : Engine} (h : e.Forgets) (hsound : e.Sound) (events : List EngineEvent) :
    (e.after events).Forgets := by
  induction events generalizing e with
  | nil => exact h
  | cons ev events ih => exact ih (h.step hsound ev) (hsound.step ev)

/-- The cache of an engine stays honest through all events. -/
theorem honest_after {e : Engine} (h : e.cache.Honest) (events : List EngineEvent) :
    (e.after events).cache.Honest := by
  induction events generalizing e with
  | nil => exact h
  | cons ev events ih =>
    refine ih ?_
    rw [cache_step]
    exact h.after _

omit [Regex.Library] [Machine] in
/-- The fetches of a task that has not let go have it among their tasks, are not told to stop, and
have not ended as canceled. -/
theorem Sound.holds_running {e : Engine} (hsound : e.Sound) (hhonest : e.cache.Honest) {t : Task}
    (ht : t ∈ e.tasks) (hheld : t.released = false) {s : Subtask} (hs : s ∈ t.subtasks) :
    ∃ f, e.cache.fetch? s.fetch = some f ∧ t.id ∈ f.tasks ∧ f.cancelled = false ∧
      f.status ≠ .canceled := by
  obtain ⟨f, hf, hmem⟩ := hsound.holds t ht s hs
  have hruns : f.cancelled = false :=
    hsound.runs ht (hsound.released t ht ▸ hheld) hs hf
  refine ⟨f, hf, hmem hheld, hruns, fun hcanceled => ?_⟩
  rw [hhonest s.fetch f hf hcanceled] at hruns
  cases hruns

/-- After any run: a task that has not let go is among the tasks of each of its fetches, which are
not told to stop; it lets go only by an order of its own. An order for another task changes nothing
of the task, nor of what its fetches have and how they stand, and stops none of them while it holds
them. Once all tasks were forgotten or have let go, no fetch can be shared, and all that were ever
started are told to stop. -/
theorem tasks_isolated (registry : Registry) (config : EngineConfig) (events : List EngineEvent) :
    let e := (start registry config).after events
    (∀ t ∈ e.tasks, t.released = false → ∀ s ∈ t.subtasks, ∃ f, e.cache.fetch? s.fetch = some f ∧
      t.id ∈ f.tasks ∧ f.cancelled = false ∧ f.status ≠ .canceled) ∧
    (∀ (ev : EngineEvent) (j : Nat) (t : Task), e.tasks[j]? = some t →
      ev ≠ .cancel t.id → ev ≠ .release t.id →
      ∃ u, (e.step ev).tasks[j]? = some u ∧ u.released = t.released) ∧
    (∀ (ev : EngineEvent) (id : String), ev.orderTo? = some id →
      ∀ (j : Nat) (t : Task), e.tasks[j]? = some t → t.id ≠ id →
      (e.step ev).tasks[j]? = some t ∧
      ∀ s ∈ t.subtasks, ∃ f g, e.cache.fetch? s.fetch = some f ∧
        (e.step ev).cache.fetch? s.fetch = some g ∧
        g.rows = f.rows ∧ g.status = f.status ∧ g.version = f.version ∧
        (t.released = false → f.cancelled = false ∧ g.cancelled = false)) ∧
    ((∀ t ∈ e.tasks, t.listed = false ∨ t.released = true) →
      e.cache.index = [] ∧ ∀ f ∈ e.cache.fetches, f.cancelled = true) := by
  intro e
  have hsound : e.Sound := (Sound.start registry config).after events
  have hempty : (start registry config).cache.Honest := fun n f hf => by
    simp [start, Cache.empty, Cache.fetch?] at hf
  have hhonest : e.cache.Honest := honest_after hempty events
  have howned : e.Owned := (Owned.start registry config).after (Sound.start registry config) events
  have hforgets : e.Forgets :=
    Forgets.after (fun _ ht => absurd ht List.not_mem_nil) (Sound.start registry config) events
  refine ⟨fun t ht hheld s hs => hsound.holds_running hhonest ht hheld hs,
    fun ev j t ht hcancel hrelease => released_step hsound.names ht hcancel hrelease,
    fun ev id hev j t ht hother => ?_, fun hall => howned.nothing_left hsound fun t ht => ?_⟩
  · have hmem := List.mem_of_getElem? ht
    have hsame := task_step_of_order hsound.names hev ht hother
    refine ⟨hsame, fun s hs => ?_⟩
    obtain ⟨f, hf, -⟩ := hsound.holds t hmem s hs
    obtain ⟨g, hg, hprogress⟩ := Cache.progress_after hf fun c => onlyRefers_cacheEvents hev
    rw [← cache_step] at hg
    obtain ⟨hrows, hrest⟩ := Prod.mk.inj hprogress
    obtain ⟨hstatus, hversion⟩ := Prod.mk.inj hrest
    refine ⟨f, g, hf, hg, hrows, hstatus, hversion, fun hheld => ?_⟩
    have hcancelled : t.cancelled = false := hsound.released t hmem ▸ hheld
    exact ⟨hsound.runs hmem hcancelled hs hf,
      (hsound.step ev).runs (List.mem_of_getElem? hsame) hcancelled hs hg⟩
  · rcases hall t ht with hunlisted | hreleased
    · exact hforgets t ht hunlisted
    · exact hreleased

end Engine

end LogSearch
