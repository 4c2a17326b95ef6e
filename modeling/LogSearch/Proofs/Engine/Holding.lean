import LogSearch.Proofs.Engine.Events

/-!
# Tasks hold their fetches

* `Engine.Sound`: the cache is sound, tasks have different names, and a task that was not told to
  stop is among the tasks of each of its fetches.
* `Engine.Sound.step`, `Engine.Sound.after`: every event keeps this, hence every run, whatever the
  other tasks do.
* `Engine.Sound.runs`: the fetches of such a task are not told to stop.
-/

namespace LogSearch

/-! ## Fetches over events -/

namespace Cache

/-- A fetch keeps its identity. -/
theorem identity_change {n : Nat} {f g : Fetch} {e : CacheEvent} (h : Fetch.Change n f e g) :
    g.identity = f.identity := by
  cases h with
  | same => rfl
  | refer _ task => exact identity_addTask task f
  | letGo _ task _ => exact identity_letGo task f
  | push batch => exact (Fetch.keepsReferences_push batch).identity f
  | settle outcome => exact (Fetch.keepsReferences_settle _).identity f
  | turn => exact Fetch.keepsReferences_turn.identity f

/-- A task refers to a fetch until it lets go. -/
theorem mem_tasks_change {n : Nat} {f g : Fetch} {e : CacheEvent} (h : Fetch.Change n f e g)
    {task : String} (hmem : task ∈ f.tasks) (hkeeps : e.letsGo? ≠ some task) : task ∈ g.tasks := by
  cases h with
  | same => exact hmem
  | refer _ other =>
    unfold Fetch.addTask
    split
    · exact hmem
    · exact List.mem_append_left _ hmem
  | letGo _ other hother =>
    rw [tasks_letGo]
    refine List.mem_filter.2 ⟨hmem, decide_eq_true fun heq => hkeeps ?_⟩
    rw [hother, heq]
  | push batch => rwa [(Fetch.keepsReferences_push batch).tasks]
  | settle outcome => rwa [(Fetch.keepsReferences_settle _).tasks]
  | turn => rwa [Fetch.keepsReferences_turn.tasks]

/-- A fetch stays, with its identity and with all tasks that do not let go of it. -/
theorem fetch?_after {c : Cache} {n : Nat} {f : Fetch} (h : c.fetch? n = some f)
    (events : List CacheEvent) :
    ∃ g, (c.after events).fetch? n = some g ∧ g.identity = f.identity ∧
      ∀ task ∈ f.tasks, (∀ e ∈ events, e.letsGo? ≠ some task) → task ∈ g.tasks := by
  induction events generalizing c f with
  | nil => exact ⟨f, h, rfl, fun _ hmem _ => hmem⟩
  | cons e events ih =>
    obtain ⟨g, hg, hchange⟩ := fetch?_step h e
    obtain ⟨k, hk, hidentity, htasks⟩ := ih hg
    refine ⟨k, hk, hidentity.trans (identity_change hchange), fun task hmem hkeeps => ?_⟩
    refine htasks task ?_ fun e' he' => hkeeps e' (List.mem_cons_of_mem _ he')
    exact mem_tasks_change hchange hmem (hkeeps e List.mem_cons_self)

end Cache

/-! ## Attaching a task -/

namespace Engine

variable [Regex.Library] [Machine]

omit [Regex.Library] [Machine] in
/-- A task that gets a fetch takes none from another. -/
theorem letsGo?_attachEvents {p : Plan} {task : String} {forced : Bool} {limit : Nat}
    {s : String × Source} {e : CacheEvent} (h : e ∈ p.attachEvents task forced limit s) :
    e.letsGo? = none := by
  obtain rfl | rfl := mem_attachEvents h <;> rfl

omit [Regex.Library] [Machine] in
/-- The fetch that a task refers to after attaching it for an identity stands under the key of the
identity. -/
theorem fetch?_attach {c : Cache} (hsound : c.Sound) (task : String) (forced : Bool) (p : Plan)
    (limit : Nat) (s : String × Source) :
    (attach c task forced p.selection p.range limit s.1 s.2).1.source = s.1 ∧
      ∃ f, (attach c task forced p.selection p.range limit s.1 s.2).2.fetch?
          (attach c task forced p.selection p.range limit s.1 s.2).1.fetch = some f ∧
        f.identity.key = (p.identity s.1).key ∧ task ∈ f.tasks := by
  have hrefer : ∀ d : Cache, d.Sound → ∀ response, ∃ f,
      (d.referenceOrAdd (p.identity s.1) task response).2.2.fetch?
          (d.referenceOrAdd (p.identity s.1) task response).1 = some f ∧
        f.identity.key = (p.identity s.1).key ∧ task ∈ f.tasks := by
    intro d hd response
    unfold Cache.referenceOrAdd
    cases husable : d.usable? (p.identity s.1) with
    | none =>
      refine ⟨.start (p.identity s.1) task response, ?_, rfl, List.mem_singleton.2 rfl⟩
      simp [Cache.insert, Cache.fetch?]
    | some id =>
      obtain ⟨f, hf, hkey, -⟩ := hd.indexed _ _ (Dict.mem_of_get? (d.find?_of_usable? husable))
      refine ⟨f.addTask task, ?_, ?_, ?_⟩
      · simp [Cache.fetch?_modify, hf]
      · rw [Cache.identity_addTask, hkey]
      · unfold Fetch.addTask
        split
        · next hmem => exact hmem
        · exact List.mem_append_right _ (List.mem_singleton.2 rfl)
  refine ⟨rfl, ?_⟩
  cases forced with
  | true => exact hrefer _ (hsound.filter_index _) _
  | false => exact hrefer _ hsound _

omit [Regex.Library] [Machine] in
/-- A new task has one fetch a source, and refers to it. -/
theorem forall₂_attachAll {c : Cache} (hsound : c.Sound) (task : String) (forced : Bool) (p : Plan)
    (limit : Nat) (sources : List (String × Source)) :
    List.Forall₂ (fun (s : Subtask) (source : String × Source) => s.source = source.1 ∧
        ∃ f, (attachAll c task forced p.selection p.range limit sources).2.fetch? s.fetch = some f ∧
          f.identity.key = (p.identity source.1).key ∧ task ∈ f.tasks)
      (attachAll c task forced p.selection p.range limit sources).1 sources := by
  induction sources generalizing c with
  | nil => exact .nil
  | cons s rest ih =>
    obtain ⟨hsource, f, hf, hkey, hmem⟩ := fetch?_attach hsound task forced p limit s
    have hnext : (attach c task forced p.selection p.range limit s.1 s.2).2.Sound := by
      rw [attach_cache]
      exact hsound.after _
    refine .cons ⟨hsource, ?_⟩ (ih hnext)
    have hrest : (attachAll c task forced p.selection p.range limit (s :: rest)).2 =
        (attach c task forced p.selection p.range limit s.1 s.2).2.after
          (rest.flatMap (p.attachEvents task forced limit)) :=
      attachAll_cache _ task forced p limit rest
    obtain ⟨g, hg, hidentity, htasks⟩ := Cache.fetch?_after hf
      (rest.flatMap (p.attachEvents task forced limit))
    rw [hrest]
    refine ⟨g, hg, by rw [hidentity, hkey], htasks task hmem fun e he => ?_⟩
    obtain ⟨other, -, he⟩ := List.mem_flatMap.1 he
    rw [letsGo?_attachEvents he]
    exact (Option.some_ne_none task).symm

end Engine

/-! ## Orders to a task -/

namespace Task

/-- Going on leaves the status. -/
theorem status_proceed (c : Cache) (t : Task) (seen : List Nat) :
    (t.proceed c seen).status = t.status := by
  unfold proceed
  split
  · rfl
  · split <;> rfl

variable [Regex.Library] [Machine]

/-- A section ends a task only in its conclusion, and only if it is still running. -/
theorem status_step (c : Cache) (buckets : Nat) (t : Task) :
    (t.step c buckets).1.status = t.status ∨
      t.status = .running ∧ ∃ succeeded, t.phase = .concluding succeeded := by
  obtain ⟨u, told, hstep, hsection⟩ := t.section_of_step c buckets
  rw [hstep]
  cases hsection with
  | start | settled => exact .inl (status_proceed c t _)
  | stop | wait | arrival | rest => exact .inl rfl
  | compute _ hran => exact .inl ((status_proceed c _ _).trans hran.status_eq)
  | computeLast _ hran => exact .inl hran.status_eq
  | breakOff _ hran => exact .inl hran.status_eq
  | @conclude succeeded hphase =>
    by_cases hrunning : t.status = .running
    · exact .inr ⟨hrunning, succeeded, hphase⟩
    · left
      simp [conclude, finish, hrunning]

/-- An order to stop stands. -/
theorem Change.released {e : Engine} {j : Nat} {t u : Task} {ev : EngineEvent}
    (h : Change e j t ev u) (hu : u.released = false) : t.released = false := by
  cases h with
  | same => exact hu
  | cancel => cases hu
  | release => cases hu
  | step => rwa [released_eq_of_setup (setup_step e.cache e.config.buckets t)] at hu

end Task

namespace Engine

/-- What holds of an engine at any time. -/
structure Sound (e : Engine) : Prop where
  cache : e.cache.Sound
  names : (e.tasks.map Task.id).Nodup
  /-- A task lets go of its fetches when it is told to stop. -/
  released : ∀ t ∈ e.tasks, t.released = t.cancelled
  /-- A running task was not told to stop. -/
  running : ∀ t ∈ e.tasks, t.status = .running → t.cancelled = false
  /-- A task that has not let go refers to its fetches. -/
  holds : ∀ t ∈ e.tasks, ∀ s ∈ t.subtasks, ∃ f, e.cache.fetch? s.fetch = some f ∧
    (t.released = false → t.id ∈ f.tasks)

variable [Regex.Library] [Machine]

/-- A task of which an event takes references is told to stop by it. -/
theorem released_of_letsGo {e : Engine} {ev : EngineEvent} {c : CacheEvent} {name : String}
    (h : c ∈ e.cacheEvents ev) (hname : c.letsGo? = some name) :
    ∃ u ∈ (e.step ev).tasks, u.id = name ∧ u.released = true := by
  have hput : ∀ (t u : Task), t ∈ e.tasks →
      u ∈ e.tasks.map fun v => if v.id = t.id then u else v := by
    intro t u ht
    refine List.mem_map.2 ⟨t, ht, if_pos rfl⟩
  cases makes_of_mem h with
  | @cancel id t s hfind hrunning hs =>
    obtain rfl := Option.some.inj hname
    obtain ⟨ht, -, -⟩ := task?_eq_ok hfind
    refine ⟨t.stopped, ?_, Task.id_stopped t, rfl⟩
    rw [tasks_step_cancel hfind, if_pos hrunning]
    exact hput t _ ht
  | @release id t s hfind hs =>
    obtain rfl := Option.some.inj hname
    obtain ⟨ht, -, -⟩ := task?_eq_ok hfind
    refine ⟨{ t.stopped with listed := false }, ?_, Task.id_stopped t, rfl⟩
    rw [tasks_step_release hfind]
    exact hput t _ ht
  | forceRemove | referenceOrAdd | report | settle | turn => cases hname

namespace Sound

variable {e : Engine}

omit [Regex.Library] [Machine] in
/-- An engine without tasks is sound. -/
theorem start (registry : Registry) (config : EngineConfig) : (Engine.start registry config).Sound where
  cache := Cache.Sound.empty
  names := List.nodup_nil
  released _ ht := absurd ht List.not_mem_nil
  running _ ht := absurd ht List.not_mem_nil
  holds _ ht := absurd ht List.not_mem_nil

/-- Every event keeps an engine sound. -/
theorem step (h : e.Sound) (ev : EngineEvent) : (e.step ev).Sound := by
  have hnames := nodup_names_step h.names ev
  have hcases : ∀ u ∈ (e.step ev).tasks, (∃ j t, t ∈ e.tasks ∧ Task.Change e j t ev u) ∨
      e.started? ev = some u := by
    intro u hu
    obtain ⟨j, hj⟩ := List.mem_iff_getElem?.1 hu
    rcases task_step_cases h.names hj with ⟨t, ht, hchange⟩ | ⟨-, hstarted⟩
    · exact .inl ⟨j, t, List.mem_of_getElem? ht, hchange⟩
    · exact .inr hstarted
  refine ⟨?_, hnames, fun u hu => ?_, fun u hu hrunning => ?_, fun u hu s hs => ?_⟩
  · rw [cache_step]
    exact h.cache.after _
  · rcases hcases u hu with ⟨j, t, ht, hchange⟩ | hstarted
    · cases hchange with
      | same => exact h.released _ ht
      | cancel => rfl
      | release => rfl
      | step =>
        have hsetup := Task.setup_step e.cache e.config.buckets t
        rw [Task.released_eq_of_setup hsetup, Task.cancelled_eq_of_setup hsetup]
        exact h.released t ht
    · obtain ⟨id, q, p, -, -, -, -, rfl⟩ := started?_eq_some hstarted
      rfl
  · rcases hcases u hu with ⟨j, t, ht, hchange⟩ | hstarted
    · cases hchange with
      | same => exact h.running _ ht hrunning
      | cancel _ hbefore => simp [Task.stopped, Task.finish, hbefore] at hrunning
      | release =>
        by_cases hbefore : t.status = .running <;>
          simp [Task.stopped, Task.finish, hbefore] at hrunning
      | step =>
        rw [Task.cancelled_eq_of_setup (Task.setup_step e.cache e.config.buckets t)]
        refine h.running t ht ?_
        rcases Task.status_step e.cache e.config.buckets t with hsame | ⟨hbefore, -⟩
        · rw [← hsame, hrunning]
        · exact hbefore
    · obtain ⟨id, q, p, -, -, -, -, rfl⟩ := started?_eq_some hstarted
      rfl
  · rcases hcases u hu with ⟨j, t, ht, hchange⟩ | hstarted
    · rw [hchange.subtasks_eq] at hs
      obtain ⟨f, hf, hmem⟩ := h.holds t ht s hs
      obtain ⟨g, hg, -, htasks⟩ := Cache.fetch?_after hf (e.cacheEvents ev)
      rw [cache_step]
      refine ⟨g, hg, fun hheld => ?_⟩
      rw [hchange.id_eq]
      refine htasks t.id (hmem (hchange.released hheld)) fun c hc hletsGo => ?_
      obtain ⟨v, hv, hid, hreleased⟩ := released_of_letsGo hc hletsGo
      rw [eq_of_id hnames hv hu (hid.trans hchange.id_eq.symm), hheld] at hreleased
      cases hreleased
    · obtain ⟨id, q, p, rfl, -, hp, hstep, rfl⟩ := started?_eq_some hstarted
      have hattached := forall₂_attachAll h.cache id q.options.forced p (q.limit e.config) p.sources
      obtain ⟨source, -, -, f, hf, -, hmem⟩ := exists_of_forall₂ hattached hs
      rw [hstep]
      exact ⟨f, hf, fun _ => hmem⟩

/-- An engine stays sound through all events. -/
theorem after (h : e.Sound) (events : List EngineEvent) : (e.after events).Sound := by
  induction events generalizing e with
  | nil => exact h
  | cons ev events ih => exact ih (h.step ev)

omit [Regex.Library] [Machine] in
/-- The fetches of a task that was not told to stop are not told to stop. -/
theorem runs (h : e.Sound) {t : Task} (ht : t ∈ e.tasks) (hcancelled : t.cancelled = false)
    {s : Subtask} (hs : s ∈ t.subtasks) {f : Fetch} (hf : e.cache.fetch? s.fetch = some f) :
    f.cancelled = false := by
  obtain ⟨g, hg, hmem⟩ := h.holds t ht s hs
  rw [hf] at hg
  cases hg
  rw [← Bool.not_eq_true, h.cache.cancelled_iff s.fetch f hf]
  refine List.ne_nil_of_mem (hmem ?_)
  rw [h.released t ht, hcancelled]

end Sound

end Engine

end LogSearch
