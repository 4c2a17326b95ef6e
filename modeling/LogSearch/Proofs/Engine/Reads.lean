import LogSearch.Proofs.Engine.Holding
import LogSearch.Proofs.Engine.Selection
import LogSearch.Proofs.Record.Queue
import LogSearch.Regex.Program

/-!
# What a task reads

A task has a fetch for each source that its query resolves to, and merges the rows of all of them. A
source that repeats among them has the same fetch each time, and so its rows are merged twice.

* `Engine.fetch_attachAll_eq`: a source that repeats has the same fetch each time.
* `Task.Reads`: a task has a fetch for each of its sources; `Engine.AllRead.step`,
  `Engine.AllRead.after`: it keeps them.
* `Engine.sources_read_once_iff`: the sources and the rows of every task in every run.
-/

namespace LogSearch

/-! ## Sources that repeat -/

namespace Cache

/-- A task more leaves a fetch as usable as it was. -/
theorem usable?_addTask (c : Cache) (id : Nat) (task : String) (i : CacheIdentity) :
    (c.modify id fun f => f.addTask task).usable? i = c.usable? i := by
  have hfailed : ∀ n,
      (((c.modify id fun f => f.addTask task).fetch? n).any fun f => f.status.isFailed) =
        (c.fetch? n).any fun f => f.status.isFailed := by
    intro n
    rw [fetch?_modify]
    split
    · cases c.fetch? n with
      | none => rfl
      | some f =>
        have hstatus : (f.addTask task).status = f.status := by
          unfold Fetch.addTask
          split <;> rfl
        rw [Option.map_some, Option.any_some, Option.any_some, hstatus]
    · rfl
  simp only [usable?, find?_modify, hfailed]

/-- The fetch that can be shared for an identity stays so when a task asks for another. -/
theorem usable?_referenceOrAdd {c : Cache} {i : CacheIdentity} {n : Nat} (h : c.usable? i = some n)
    (j : CacheIdentity) (task : String) (response : Response) :
    (c.referenceOrAdd j task response).2.2.usable? i = some n := by
  unfold referenceOrAdd
  cases hother : c.usable? j with
  | some m => exact (c.usable?_addTask m task i).trans h
  | none =>
    have hkey : j.key ≠ i.key := by
      intro heq
      rw [usable?, heq] at hother
      rw [usable?, hother] at h
      cases h
    -- the new fetch stands behind the others, and has not failed
    have hfailed : ((c.insert j task response).2.fetch? n).any (fun f => f.status.isFailed) =
        (c.fetch? n).any fun f => f.status.isFailed := by
      unfold insert fetch?
      by_cases hn : n < c.fetches.length
      · rw [List.getElem?_append_left hn]
      · rw [List.getElem?_append_right (Nat.not_lt.1 hn), List.getElem?_eq_none (Nat.not_lt.1 hn)]
        cases n - c.fetches.length <;> rfl
    obtain ⟨hfind, hlive⟩ := Option.filter_eq_some_iff.1 h
    refine Option.filter_eq_some_iff.2 ⟨?_, by rw [hfailed]; exact hlive⟩
    rw [find?, insert, Dict.get?_insert, Fetch.key, Fetch.start, if_neg hkey]
    exact hfind

/-- What a task gets for an identity can be shared. -/
theorem usable?_referenceOrAdd_self (c : Cache) (i : CacheIdentity) (task : String)
    (response : Response) :
    (c.referenceOrAdd i task response).2.2.usable? i =
      some (c.referenceOrAdd i task response).1 := by
  unfold referenceOrAdd
  cases husable : c.usable? i with
  | some n => exact (c.usable?_addTask n task i).trans husable
  | none => exact c.usable?_insert i task response

end Cache

namespace Engine

/-- A fetch that can be shared is what the source gets each time. -/
theorem fetch_attachAll_of_usable {c : Cache} {p : Plan} {name : String} {n : Nat}
    (h : c.usable? (p.identity name) = some n) (task : String) (limit : Nat)
    (sources : List (String × Source)) :
    ∀ s ∈ (attachAll c task false p.selection p.range limit sources).1,
      s.source = name → s.fetch = n := by
  induction sources generalizing c with
  | nil => exact fun s hs => absurd hs List.not_mem_nil
  | cons source rest ih =>
    intro s hs hname
    rcases List.mem_cons.1 hs with rfl | hs
    · obtain rfl : source.1 = name := hname
      change (c.referenceOrAdd (p.identity source.1) task _).1 = n
      rw [Cache.referenceOrAdd, h]
    · exact ih (Cache.usable?_referenceOrAdd h _ _ _) s hs hname

/-- A source that repeats has the same fetch each time, unless the query is to have new ones. -/
theorem fetch_attachAll_eq (c : Cache) (p : Plan) (task : String) (limit : Nat)
    (sources : List (String × Source)) :
    ∀ a ∈ (attachAll c task false p.selection p.range limit sources).1,
      ∀ b ∈ (attachAll c task false p.selection p.range limit sources).1,
        a.source = b.source → a.fetch = b.fetch := by
  induction sources generalizing c with
  | nil => exact fun s hs => absurd hs List.not_mem_nil
  | cons source rest ih =>
    -- the first one can be shared, so that the others of its source get it too
    have hfirst := fetch_attachAll_of_usable (p := p)
      (c.usable?_referenceOrAdd_self (p.identity source.1) task
        ((p.identity source.1).response limit source.2)) task limit rest
    intro a ha b hb hsame
    rcases List.mem_cons.1 ha with rfl | ha
    · rcases List.mem_cons.1 hb with rfl | hb
      · rfl
      · exact (hfirst b hb hsame.symm).symm
    · rcases List.mem_cons.1 hb with rfl | hb
      · exact hfirst a ha hsame
      · exact ih _ a ha b hb hsame

end Engine

/-! ## What a task reads -/

namespace Task

/-- What decides about the fetch of a task for a source. -/
def identity (t : Task) (name : String) : CacheIdentity :=
  ⟨⟨t.query.preFilters.filter fun f => !Engine.selectsSource f, t.query.search⟩, t.range, name⟩

/-- A task has a fetch for each of the sources that its query resolves to. -/
structure Reads (registry : Registry) (q : Inquiry) (c : Cache) (t : Task) : Prop where
  resolved : Engine.resolveSources registry q.profile t.query.preFilters =
    .ok (t.subtasks.map Subtask.source)
  fetches : ∀ s ∈ t.subtasks, ∃ f, c.fetch? s.fetch = some f ∧
    f.identity.key = (t.identity s.source).key
  shared : q.options.forced = false → ∀ a ∈ t.subtasks, ∀ b ∈ t.subtasks,
    a.source = b.source → a.fetch = b.fetch

variable {registry : Registry} {q : Inquiry} {c : Cache} {t : Task}

/-- The fetches of a task are those of its sources, one for one. -/
theorem Reads.forall₂ (h : t.Reads registry q c) :
    List.Forall₂ (fun s f => c.fetch? s.fetch = some f ∧ f.identity.key = (t.identity s.source).key)
      t.subtasks (t.fetches c) := by
  have hall := h.fetches
  unfold Task.fetches
  generalize t.subtasks = subtasks at hall
  induction subtasks with
  | nil => exact .nil
  | cons s rest ih =>
    obtain ⟨f, hf, hkey⟩ := hall s List.mem_cons_self
    rw [List.filterMap_cons, hf]
    exact .cons ⟨hf, hkey⟩ (ih fun s hs => hall s (List.mem_cons_of_mem _ hs))

/-- The rows of a task are those of its fetches, in some order. -/
theorem mergedRows_perm (c : Cache) (t : Task) :
    (t.mergedRows c).Perm ((t.fetches c).flatMap Fetch.rows) := by
  rw [List.flatMap_def]
  exact mergeAllByTime_perm _

/-- Different sources have different fetches, if they have different keys. -/
theorem Reads.nodup_fetches (h : t.Reads registry q c)
    (hnames : (t.subtasks.map Subtask.source).Nodup)
    (hkeys : ∀ a ∈ t.subtasks, ∀ b ∈ t.subtasks,
      (t.identity a.source).key = (t.identity b.source).key → a.source = b.source) :
    (t.subtasks.map Subtask.fetch).Nodup := by
  refine List.pairwise_map.2 ((List.pairwise_map.1 hnames).imp_of_mem ?_)
  intro a b ha hb hne hsame
  obtain ⟨f, hf, hkey⟩ := h.fetches a ha
  obtain ⟨g, hg, hother⟩ := h.fetches b hb
  rw [hsame, hg] at hf
  cases hf
  exact hne (hkeys a ha b hb (hkey.symm.trans hother))

/-- A source that repeats is read through the same fetch, unless the query is to have new ones. -/
theorem Reads.not_nodup_fetches (h : t.Reads registry q c) (hforced : q.options.forced = false)
    (hrepeats : ¬(t.subtasks.map Subtask.source).Nodup) :
    ¬(t.subtasks.map Subtask.fetch).Nodup := by
  intro hnodup
  refine hrepeats (List.pairwise_map.2 ((List.pairwise_map.1 hnodup).imp_of_mem ?_))
  intro a b ha hb hne hsame
  exact hne (h.shared hforced a ha b hb hsame)

end Task

namespace Engine

variable [Regex.Library] [Machine]

/-- A new task reads the sources that its query resolves to. -/
theorem reads_started {e : Engine} (hsound : e.Sound) {id : String} {q : Inquiry} {t : Task}
    (h : e.started? (.run id q) = some t) : t.Reads e.registry q (e.step (.run id q)).cache := by
  obtain ⟨other, asked, p, heq, -, hp, hstep, rfl⟩ := started?_eq_some h
  cases heq
  obtain ⟨-, -, names, sources, hnames, hsources, hzip⟩ := plan_eq_ok hp
  have hattached := forall₂_attachAll hsound.cache id q.options.forced p (q.limit e.config) p.sources
  rw [hstep]
  refine ⟨?_, fun s hs => ?_, fun hforced => ?_⟩
  · have hmap : (attachAll e.cache id q.options.forced p.selection p.range (q.limit e.config)
        p.sources).1.map Subtask.source = p.sources.map Prod.fst := by
      refine List.forall₂_eq_eq_eq ▸ List.forall₂_map_left_iff.2 (List.forall₂_map_right_iff.2 ?_)
      exact hattached.imp fun _ _ h => h.1
    change resolveSources e.registry q.profile p.query.preFilters = .ok _
    rw [hnames, Task.start, hmap, hzip, List.map_fst_zip (Nat.le_of_eq hsources.length_eq)]
  · obtain ⟨source, -, hsource, f, hf, hkey, -⟩ := exists_of_forall₂ hattached hs
    exact ⟨f, hf, hsource ▸ hkey⟩
  · rw [hforced]
    exact fetch_attachAll_eq e.cache p id (q.limit e.config) p.sources

/-- Each task reads what the query asks for that it was started for. -/
structure AllRead (questions : List Inquiry) (e : Engine) : Prop where
  length : questions.length = e.tasks.length
  task : ∀ (j : Nat) t q, e.tasks[j]? = some t → questions[j]? = some q →
    t.Reads e.registry q e.cache

/-- Tasks go on reading their sources. -/
theorem AllRead.step {questions : List Inquiry} {e : Engine} (h : e.AllRead questions)
    (hsound : e.Sound) (ev : EngineEvent) :
    (e.step ev).AllRead (questions ++ (e.question? ev).toList) := by
  refine ⟨by rw [List.length_append, h.length, length_tasks_step], fun j u q hu hq => ?_⟩
  rw [(config_step e ev).1]
  rcases task_question_cases hsound.names h.length hu hq with
    ⟨t, ht, hq, hchange⟩ | ⟨id, rfl, hstarted⟩
  · have hreads := h.task j t q ht hq
    obtain ⟨-, hquery, hrange, hsubtasks⟩ := hchange.kept
    refine ⟨?_, fun s hs => ?_, by rw [hsubtasks]; exact hreads.shared⟩
    · rw [hquery, hsubtasks]
      exact hreads.resolved
    · rw [hsubtasks] at hs
      obtain ⟨f, hf, hkey⟩ := hreads.fetches s hs
      obtain ⟨g, hg, hidentity, -⟩ := Cache.fetch?_after hf (e.cacheEvents ev)
      rw [cache_step]
      refine ⟨g, hg, ?_⟩
      rw [hidentity, hkey, Task.identity, Task.identity, hquery, hrange]
  · exact reads_started hsound hstarted

/-- Through all events each task has the fetches that its own question resolves to. -/
theorem AllRead.after {questions : List Inquiry} {e : Engine} (h : e.AllRead questions)
    (hsound : e.Sound) (events : List EngineEvent) :
    (e.after events).AllRead (questions ++ e.questions events) := by
  induction events generalizing e questions with
  | nil => simpa [Engine.after, Engine.questions] using h
  | cons ev events ih =>
    have hrest := ih (h.step hsound ev) (hsound.step ev)
    rw [List.append_assoc] at hrest
    exact hrest

/-- Over a registry that comes from adding sources and setting profiles: a query resolves to sources
that are there, those that its filters name in the order in which they are named first, or else
those of the profile, without those that it excludes; and they are different exactly if the profile
does not repeat a member. A task of any run has a fetch for each source that its query resolves to,
and the rows that it runs its pipeline over are those of these fetches, each taken once. If no source
repeats, the fetches are different, unless two of their keys are the same. If one does, the rows of a
fetch are taken twice, unless the query had all its fetches started anew. -/
theorem sources_read_once_iff {registry : Registry} (hbuilt : registry.Built)
    (config : EngineConfig) (events : List EngineEvent) :
    (∀ profile filters names, resolveSources registry profile filters = .ok names →
      (∀ name ∈ names, registry.hasInstance name = true) ∧
      (∃ chosen, choices registry profile filters = .ok chosen ∧
        names = chosen.filter fun name => name ∉ excluded filters) ∧
      (names.Nodup ↔ ¬Repeats registry profile filters)) ∧
    let e := (start registry config).after events
    ∀ (j : Nat) (t : Task), e.tasks[j]? = some t →
      ∃ q, ((start registry config).questions events)[j]? = some q ∧
      resolveSources registry q.profile t.query.preFilters = .ok (t.subtasks.map Subtask.source) ∧
      List.Forall₂ (fun (s : Subtask) (f : Fetch) => e.cache.fetch? s.fetch = some f ∧
        f.identity.key = (t.identity s.source).key) t.subtasks (t.fetches e.cache) ∧
      (t.mergedRows e.cache).Perm ((t.fetches e.cache).flatMap Fetch.rows) ∧
      (¬Repeats registry q.profile t.query.preFilters →
        (∀ a ∈ t.subtasks, ∀ b ∈ t.subtasks,
          (t.identity a.source).key = (t.identity b.source).key → a.source = b.source) →
        (t.subtasks.map Subtask.fetch).Nodup) ∧
      (Repeats registry q.profile t.query.preFilters → q.options.forced = false →
        ¬(t.subtasks.map Subtask.fetch).Nodup) := by
  have hregistry := hbuilt.sound
  refine ⟨fun profile filters names h => ⟨hasInstance_of_mem_resolved hregistry h, ?_,
    nodup_resolved_iff hregistry h⟩, fun j t ht => ?_⟩
  · obtain ⟨-, chosen, hchosen, hnames, -⟩ := resolveSources_eq_ok_iff.1 h
    exact ⟨chosen, hchosen, hnames⟩
  · have hstart : (start registry config).AllRead [] := ⟨rfl, fun _ _ _ h => nomatch h⟩
    have hall := hstart.after (Sound.start registry config) events
    rw [List.nil_append] at hall
    have hlt : j < ((start registry config).questions events).length :=
      hall.length ▸ (List.getElem?_eq_some_iff.1 ht).1
    have hreads := hall.task j t _ ht (List.getElem?_eq_getElem hlt)
    rw [registry_after] at hreads
    have hdiffer := nodup_resolved_iff hregistry hreads.resolved
    refine ⟨_, List.getElem?_eq_getElem hlt, hreads.resolved, hreads.forall₂, t.mergedRows_perm _,
      fun honce hkeys => ?_, fun hrepeats hforced => ?_⟩
    · exact hreads.nodup_fetches (hdiffer.2 honce) hkeys
    · exact hreads.not_nodup_fetches hforced fun hnodup => hdiffer.1 hnodup hrepeats

end Engine

attribute [local instance] Regex.standard Machine.stopping

namespace Engine

/-- A source of one record, and a profile that has it twice. -/
def repeatingRegistry : Registry :=
  ⟨[], [("app", ⟨"memory", "", ⟨.ok [], fun _ => .report [[Record.ofMessage "up"]]⟩⟩)],
    [("twice", ["app", "app"])]⟩

/-- The registry with the repeated source is built by the orders that there are. -/
theorem built_repeating : repeatingRegistry.Built := by
  have hset : ({ repeatingRegistry with profiles := [] } : Registry).setProfile "twice"
      ["app", "app"] = .ok repeatingRegistry := rfl
  exact .setProfile (.addInstance (.plugins []) "app" _) hset

/-- Filters that name a source twice do not make a query read it twice. -/
theorem repeated_filter_read_once :
    let filters : List PreFilter := [⟨"source", .equal, "app"⟩, ⟨"source", .equal, "app"⟩]
    repeatingRegistry.Built ∧
      resolveSources repeatingRegistry "twice" filters = .ok ["app"] ∧ ["app"].Nodup := by
  intro filters
  have hresolved : resolveSources repeatingRegistry "twice" filters = .ok ["app"] := rfl
  have hall := sources_read_once_iff built_repeating ⟨0, 1, ""⟩ []
  have hnames := hall.1 "twice" filters ["app"] hresolved
  exact ⟨built_repeating, hresolved, hnames.2.2.2 fun hrepeats => absurd hrepeats.1 (by decide)⟩

/-- A profile that has a source twice makes a query read it twice. -/
theorem repeated_member_read_twice :
    repeatingRegistry.Built ∧
      resolveSources repeatingRegistry "twice" [] = .ok ["app", "app"] ∧ ¬["app", "app"].Nodup :=
  ⟨built_repeating, rfl, by decide⟩

end Engine

end LogSearch
