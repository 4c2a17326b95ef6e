import LogSearch.Proofs.Engine.Holding
import LogSearch.Proofs.Engine.Rest

/-!
# No change of a fetch is missed

A task waits with the versions of its fetches in hand. It has them from a time at which some fetch
had not ended, and a fetch that ends gets a new version, so that a task cannot wait for fetches
that have all ended.

* `Task.Awaits`: what a task has in hand while it waits.
* `Engine.Alert`, `Engine.Alert.after`: this holds of all tasks, after any run.
* `Engine.ended_of_not_canTurn`: once nothing can go on and all fetches have ended, so have the
  tasks, as far as arithmetic did not break them off.
-/

namespace LogSearch

namespace Fetch

/-- A fetch at an earlier and at a later time: it gets no lower version, and it ends only with a new
one. -/
structure Later (f g : Fetch) : Prop where
  version : f.version ≤ g.version
  settled : g.status.isSettled = true → f.status.isSettled = true ∨ f.version < g.version

/-- A fetch is at no earlier time than itself. -/
theorem Later.refl (f : Fetch) : Later f f := ⟨Nat.le_refl _, .inl⟩

/-- Times come one after another. -/
theorem Later.trans {f g k : Fetch} (h : Later f g) (h' : Later g k) : Later f k where
  version := Nat.le_trans h.version h'.version
  settled hk := by
    rcases h'.settled hk with hg | hless
    · exact (h.settled hg).imp id fun hless => Nat.lt_of_lt_of_le hless h'.version
    · exact .inr (Nat.lt_of_le_of_lt h.version hless)

/-- A batch comes with a new version, if it comes at all. -/
theorem later_push (f : Fetch) (batch : List Record) : Later f (f.push batch) := by
  unfold push
  split
  · exact .refl f
  · exact ⟨Nat.le_succ _, .inl⟩

/-- An end comes with a new version, if it comes at all. -/
theorem later_settle (f : Fetch) (status : FetchStatus) : Later f (f.settle status) := by
  unfold settle
  split
  · exact .refl f
  · exact ⟨Nat.le_succ _, fun _ => .inr (Nat.lt_succ_self _)⟩

/-- After an event a fetch is at a later time. -/
theorem Change.later {n : Nat} {f g : Fetch} {e : CacheEvent} (h : Change n f e g) : Later f g := by
  cases h with
  | same => exact .refl f
  | refer _ task =>
    unfold addTask
    split <;> exact ⟨Nat.le_refl _, .inl⟩
  | letGo _ task _ =>
    unfold Cache.letGo
    split <;> exact ⟨Nat.le_refl _, .inl⟩
  | push batch => exact later_push f batch
  | settle outcome => exact later_settle f _
  | turn =>
    rcases turn_cases f with hsame | ⟨status, hsame⟩ | ⟨batch, rest, hsame⟩ <;> rw [hsame]
    · exact .refl f
    · exact later_settle f status
    · have hpush := later_push { f with response := { f.response with batches := rest } } batch
      exact ⟨hpush.version, hpush.settled⟩

end Fetch

/-- After any events a fetch is at a later time. -/
theorem Cache.later_after {c : Cache} {n : Nat} {f : Fetch} (h : c.fetch? n = some f)
    (events : List CacheEvent) :
    ∃ g, (c.after events).fetch? n = some g ∧ f.Later g := by
  induction events generalizing c f with
  | nil => exact ⟨f, h, .refl f⟩
  | cons e events ih =>
    obtain ⟨g, hg, hchange⟩ := fetch?_step h e
    obtain ⟨k, hk, hlater⟩ := ih hg
    exact ⟨k, hk, hchange.later.trans hlater⟩

/-! ## What a waiting task has in hand -/

namespace Task

/-- The versions are such as the fetches of the task have had. -/
def HasSeen (c : Cache) (t : Task) (seen : List Nat) : Prop :=
  List.Forall₂ (fun v (s : Subtask) => ∃ f, c.fetch? s.fetch = some f ∧ v ≤ f.version) seen t.subtasks

/-- The versions are from a time at which one of the fetches had not ended. -/
def Awaits (c : Cache) (t : Task) (seen : List Nat) : Prop :=
  ∃ p ∈ seen.zip t.subtasks, ∃ f, c.fetch? p.2.fetch = some f ∧
    p.1 ≤ f.version ∧ (f.status.isSettled = true → p.1 < f.version)

/-- What the task has in hand is in order. -/
structure Alert (c : Cache) (t : Task) : Prop where
  computing : ∀ rows seen, t.phase = .computing rows seen false → t.HasSeen c seen
  waiting : ∀ seen, t.phase = .waiting seen → t.Awaits c seen

/-- All fetches of the task are there. -/
def HasFetches (c : Cache) (t : Task) : Prop := ∀ s ∈ t.subtasks, ∃ f, c.fetch? s.fetch = some f

/-- If all fetches are there, the fetches of a task are those of its parts, one for one. -/
theorem forall₂_fetches {c : Cache} {t : Task} (h : t.HasFetches c) :
    List.Forall₂ (fun f (s : Subtask) => c.fetch? s.fetch = some f) (t.fetches c) t.subtasks := by
  have hall : ∀ subtasks : List Subtask, (∀ s ∈ subtasks, ∃ f, c.fetch? s.fetch = some f) →
      List.Forall₂ (fun f (s : Subtask) => c.fetch? s.fetch = some f)
        (subtasks.filterMap fun s => c.fetch? s.fetch) subtasks := by
    intro subtasks hsubtasks
    induction subtasks with
    | nil => exact .nil
    | cons s rest ih =>
      obtain ⟨f, hf⟩ := hsubtasks s List.mem_cons_self
      simp only [List.filterMap_cons, hf]
      exact .cons hf (ih fun s' hs' => hsubtasks s' (List.mem_cons_of_mem _ hs'))
  exact hall t.subtasks h

/-- If all fetches are there, the versions of a task are those of its parts, one for one. -/
theorem forall₂_versions {c : Cache} {t : Task} (h : t.HasFetches c) :
    List.Forall₂ (fun v (s : Subtask) => ∃ f, c.fetch? s.fetch = some f ∧ v = f.version)
      (t.versions c) t.subtasks := by
  unfold versions
  rw [List.forall₂_map_left_iff]
  exact (forall₂_fetches h).imp fun f s hf => ⟨f, hf, rfl⟩

/-- The versions of now are such as the fetches have had. -/
theorem hasSeen_versions {c : Cache} {t : Task} (h : t.HasFetches c) :
    t.HasSeen c (t.versions c) := by
  refine (forall₂_versions h).imp fun v s hv => ?_
  obtain ⟨f, hf, rfl⟩ := hv
  exact ⟨f, hf, Nat.le_refl _⟩

/-- Whoever waits for fetches that have all ended has something to see. -/
theorem Awaits.versions_ne {c : Cache} {t : Task} {seen : List Nat} (h : t.Awaits c seen)
    (hall : t.HasFetches c) (hsettled : ∀ s ∈ t.subtasks, ∀ f, c.fetch? s.fetch = some f →
      f.status.isSettled = true) : t.versions c ≠ seen := by
  intro heq
  obtain ⟨⟨v, s⟩, hp, f, hf, -, hless⟩ := h
  have hmem : s ∈ t.subtasks := (List.of_mem_zip hp).2
  rw [← heq] at hp
  obtain ⟨g, hg, hv⟩ := List.forall₂_zip (forall₂_versions hall) hp
  have hsame : g = f := Option.some.inj (hg.symm.trans hf)
  have hlt : v < f.version := hless (hsettled s hmem f hf)
  rw [hv, hsame] at hlt
  exact absurd hlt (Nat.lt_irrefl _)

/-- In lists that go together, every item of the second stands beside one of the first. -/
theorem mem_zip_of_forall₂ {α β : Type} {r : α → β → Prop} {as : List α} {bs : List β}
    (h : List.Forall₂ r as bs) {b : β} (hb : b ∈ bs) : ∃ a, (a, b) ∈ as.zip bs ∧ r a b := by
  induction h with
  | nil => exact absurd hb List.not_mem_nil
  | cons hab _ ih =>
    rcases List.mem_cons.1 hb with rfl | hb
    · exact ⟨_, List.mem_cons_self, hab⟩
    · obtain ⟨a, ha, hr⟩ := ih hb
      exact ⟨a, List.mem_cons_of_mem _ ha, hr⟩

/-- Versions that the fetches have had are worth waiting with while one of the fetches runs. -/
theorem HasSeen.awaits {c : Cache} {t : Task} {seen : List Nat} (h : t.HasSeen c seen)
    (hsettled : t.isSettled c = false) : t.Awaits c seen := by
  obtain ⟨f, hf, hrunning⟩ := List.all_eq_false.1 hsettled
  obtain ⟨s, hs, hfetch⟩ := List.mem_filterMap.1 hf
  obtain ⟨v, hzip, g, hg, hversion⟩ := mem_zip_of_forall₂ h hs
  have hsame : g = f := Option.some.inj (hg.symm.trans hfetch)
  exact ⟨(v, s), hzip, g, hg, hversion, fun hg' => absurd (hsame ▸ hg') hrunning⟩

/-- A task that goes on has its versions in order, since it waits only for fetches that go on. -/
theorem alert_proceed {c : Cache} {t : Task} {seen : List Nat} (h : t.HasSeen c seen) :
    (t.proceed c seen).Alert c := by
  unfold proceed
  split
  · next hrunning =>
    rw [Bool.not_eq_true'] at hrunning
    refine ⟨fun _ _ hphase => Phase.noConfusion hphase, fun seen' hphase => ?_⟩
    cases hphase
    exact h.awaits hrunning
  · split
    · exact ⟨fun _ _ hphase => Phase.noConfusion hphase, fun _ hphase => Phase.noConfusion hphase⟩
    · refine ⟨fun _ _ hphase => ?_, fun _ hphase => Phase.noConfusion hphase⟩
      cases hphase

/-- What a task can have seen depends on its parts alone. -/
theorem HasSeen.congr {c : Cache} {t u : Task} {seen : List Nat} (h : t.HasSeen c seen)
    (hsubtasks : u.subtasks = t.subtasks) : u.HasSeen c seen := by
  unfold HasSeen
  rw [hsubtasks]
  exact h

/-- A task that neither waits nor runs its pipeline on the way has nothing in hand. -/
theorem alert_of_phase {c : Cache} {t : Task} (hcomputing : ∀ rows seen, t.phase ≠ .computing rows seen false)
    (hwaiting : ∀ seen, t.phase ≠ .waiting seen) : t.Alert c :=
  ⟨fun rows seen h => absurd h (hcomputing rows seen), fun seen h => absurd h (hwaiting seen)⟩

variable [Regex.Library] [Machine]

/-- A section leaves the task with what it needs. -/
theorem Alert.step {c : Cache} {t : Task} (h : t.Alert c) (hall : t.HasFetches c) (buckets : Nat) :
    (t.step c buckets).1.Alert c := by
  obtain ⟨u, told, hstep, hsection⟩ := t.section_of_step c buckets
  rw [hstep]
  cases hsection with
  | start | settled => exact alert_proceed (hasSeen_versions hall)
  | stop | computeLast | breakOff =>
    exact alert_of_phase (fun _ _ => Phase.noConfusion) fun _ => Phase.noConfusion
  | wait | rest => exact h
  | arrival =>
    refine ⟨fun rows seen' heq => ?_, fun _ => Phase.noConfusion⟩
    cases heq
    exact hasSeen_versions hall
  | compute hphase hran =>
    have hseen := h.computing _ _ hphase
    exact alert_proceed (hseen.congr (subtasks_eq_of_setup hran.setup_eq))
  | @conclude succeeded =>
    have hended := phase_conclude c t succeeded
    exact alert_of_phase (fun _ _ => hended ▸ Phase.noConfusion) fun _ => hended ▸ Phase.noConfusion

omit [Regex.Library] [Machine] in
/-- What a task has in hand stays in order while its fetches go on. -/
theorem Alert.later {c d : Cache} {t u : Task} (h : t.Alert c) (hphase : u.phase = t.phase)
    (hsubtasks : u.subtasks = t.subtasks)
    (hlater : ∀ n f, c.fetch? n = some f → ∃ g, d.fetch? n = some g ∧ f.Later g) : u.Alert d := by
  refine ⟨fun rows seen hcomputing => ?_, fun seen hwaiting => ?_⟩
  · unfold HasSeen
    rw [hsubtasks]
    refine (h.computing rows seen (hphase ▸ hcomputing)).imp fun v s hv => ?_
    obtain ⟨f, hf, hversion⟩ := hv
    obtain ⟨g, hg, hnext⟩ := hlater s.fetch f hf
    exact ⟨g, hg, Nat.le_trans hversion hnext.version⟩
  · obtain ⟨p, hp, f, hf, hversion, hsettled⟩ := h.waiting seen (hphase ▸ hwaiting)
    obtain ⟨g, hg, hnext⟩ := hlater p.2.fetch f hf
    refine ⟨p, hsubtasks ▸ hp, g, hg, Nat.le_trans hversion hnext.version, fun hg' => ?_⟩
    rcases hnext.settled hg' with hbefore | hless
    · exact Nat.lt_of_lt_of_le (hsettled hbefore) hnext.version
    · exact Nat.lt_of_le_of_lt hversion hless

end Task

/-! ## All tasks -/

namespace Engine

/-- What any task has in hand is in order. -/
def Alert (e : Engine) : Prop := ∀ t ∈ e.tasks, t.Alert e.cache

/-- In a sound engine all fetches of a task are there. -/
theorem Sound.hasFetches {e : Engine} (h : e.Sound) {t : Task} (ht : t ∈ e.tasks) :
    t.HasFetches e.cache := by
  intro s hs
  obtain ⟨f, hf, -⟩ := h.holds t ht s hs
  exact ⟨f, hf⟩

variable [Regex.Library] [Machine]

/-- Every event keeps in order what tasks have in hand. -/
theorem Alert.step {e : Engine} (h : e.Alert) (hsound : e.Sound) (ev : EngineEvent) :
    (e.step ev).Alert := by
  intro u hu
  have hlater : ∀ n f, e.cache.fetch? n = some f →
      ∃ g, (e.step ev).cache.fetch? n = some g ∧ f.Later g := by
    rw [cache_step]
    exact fun n f hf => Cache.later_after hf _
  obtain ⟨j, hj⟩ := List.mem_iff_getElem?.1 hu
  rcases task_step_cases hsound.names hj with ⟨t, ht, hchange⟩ | ⟨-, hstarted⟩
  · have hmem := List.mem_of_getElem? ht
    have hsubtasks := hchange.subtasks_eq
    cases hchange with
    | same => exact (h _ hmem).later rfl rfl hlater
    | cancel => exact (h t hmem).later t.phase_stopped hsubtasks hlater
    | release => exact (h t hmem).later t.phase_stopped hsubtasks hlater
    | step =>
      have hstep := (h t hmem).step (hsound.hasFetches hmem) e.config.buckets
      exact hstep.later rfl rfl hlater
  · obtain ⟨id, q, p, -, -, -, -, rfl⟩ := started?_eq_some hstarted
    exact Task.alert_of_phase (fun _ _ => Phase.noConfusion) fun _ => Phase.noConfusion

/-- What tasks have in hand is in order after all events. -/
theorem Alert.after {e : Engine} (h : e.Alert) (hsound : e.Sound) (events : List EngineEvent) :
    (e.after events).Alert := by
  induction events generalizing e with
  | nil => exact h
  | cons ev events ih => exact ih (h.step hsound ev) (hsound.step ev)

omit [Regex.Library] [Machine] in
/-- A task that cannot go on, and of which all fetches have ended, has ended or was broken off. -/
theorem ended_of_not_canStep {e : Engine} (h : e.Alert) (hsound : e.Sound) {t : Task} (ht : t ∈ e.tasks)
    (hstuck : t.canStep e.cache = false)
    (hsettled : ∀ s ∈ t.subtasks, ∀ f, e.cache.fetch? s.fetch = some f →
      f.status.isSettled = true) : t.phase = .ended ∨ t.phase = .brokenOff := by
  cases hphase : t.phase with
  | waiting seen =>
    have hne := ((h t ht).waiting seen hphase).versions_ne (hsound.hasFetches ht) hsettled
    simp [Task.canStep, hphase, hne] at hstuck
  | ended => exact .inl rfl
  | brokenOff => exact .inr rfl
  | starting | computing | concluding => simp [Task.canStep, hphase] at hstuck

omit [Regex.Library] [Machine] in
/-- Where nothing can go on and all fetches of a task have ended, the task has ended or was broken
off. -/
theorem ended_of_not_canTurn {e : Engine} (h : e.Alert) (hsound : e.Sound)
    (hrest : e.canTurn = false) {t : Task} (ht : t ∈ e.tasks)
    (hsettled : ∀ s ∈ t.subtasks, ∀ f, e.cache.fetch? s.fetch = some f →
      f.status.isSettled = true) : t.phase = .ended ∨ t.phase = .brokenOff := by
  unfold canTurn at hrest
  rw [Bool.or_eq_false_iff, List.any_eq_false] at hrest
  exact ended_of_not_canStep h hsound ht ((Bool.not_eq_true _).mp (hrest.2 t ht)) hsettled

end Engine

end LogSearch
