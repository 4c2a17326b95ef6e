import LogSearch.Proofs.Engine.Isolation
import LogSearch.Proofs.Record.Merging

/-!
# What sources have emitted

The rows of a source come in by batches, between whatever else happens, and some of them before the
task that looks at them was started. What a fetch has of them is known from the rows alone.

* `Fetch.Takes`: what an event makes of a fetch whose source emits rows.
* `Engine.emitted`: the rows that the source of a fetch emits in a run, in their order.
* `Engine.Timely`: a source emits nothing after its end.
* `Engine.rows_after`: a fetch that is not told to stop before its source ends has the rows emitted
  so far, sorted by time; the batches do not show.
-/

namespace LogSearch

/-! ## One fetch -/

namespace Fetch

/-- The batch that a turn takes in. -/
def nextBatch (f : Fetch) : List Record :=
  if f.status.isSettled || f.cancelled then [] else f.response.batches.headD []

/-- The rows that the source of the fetch with a number emits by an event. -/
def emits (n : Nat) (f : Fetch) : EngineEvent → List Record
  | .report fetch rows => if fetch = n then Engine.stamp f.identity.source rows else []
  | .fetchTurn fetch => if fetch = n then f.nextBatch else []
  | .run .. | .cancel _ | .release _ | .settle .. | .taskStep _ => []

/-- The fetch was not told to stop before its source had ended. -/
structure Intact (f : Fetch) : Prop where
  status : f.status ≠ .canceled
  cancelled : f.status = .running → f.cancelled = false

/-- What becomes of a fetch whose source emits rows. -/
structure Takes (f : Fetch) (rows : List Record) (g : Fetch) : Prop where
  /-- The end is for good. -/
  settled : f.status.isSettled = true → g.status = f.status ∧ (rows = [] → g.rows = f.rows)
  intact : g.Intact → f.Intact
  rows : f.Intact → (f.status.isSettled = true → rows = []) →
    ∀ old, f.rows = sortByTime old → g.rows = sortByTime (old ++ rows)

/-- A fetch with the same rows and status has taken in nothing. -/
theorem Takes.of_eq {f g : Fetch} (hrows : g.rows = f.rows) (hstatus : g.status = f.status)
    (hcancelled : f.cancelled = true → g.cancelled = true) : f.Takes [] g where
  settled _ := ⟨hstatus, fun _ => hrows⟩
  intact h := by
    refine ⟨hstatus ▸ h.status, fun hrunning => ?_⟩
    rw [← Bool.not_eq_true]
    intro hstop
    have hgoes := h.cancelled (hstatus.trans hrunning)
    rw [hcancelled hstop] at hgoes
    cases hgoes
  rows _ _ old hold := by rw [List.append_nil, hrows, hold]

/-- A batch is taken in as it is, unless the fetch is to stop. -/
theorem takes_push (f : Fetch) (batch : List Record) : f.Takes batch (f.push batch) := by
  unfold push
  split
  · next hskip =>
    refine ⟨fun _ => ⟨rfl, fun _ => rfl⟩, fun h => h, fun hintact htimely old hold => ?_⟩
    -- a fetch that is told to stop has ended, so that nothing comes
    have hempty : batch = [] := by
      rcases (Bool.or_eq_true _ _).mp hskip with hstop | hempty
      · refine htimely ((Bool.not_eq_false _).mp fun hrunning => ?_)
        rw [hintact.cancelled ((isSettled_eq_false_iff _).1 hrunning)] at hstop
        cases hstop
      · exact List.isEmpty_iff.1 hempty
    rw [hempty, List.append_nil, hold]
  · next htaken =>
    refine ⟨fun _ => ⟨rfl, fun hempty => ?_⟩, fun h => ⟨h.status, h.cancelled⟩,
      fun _ _ old hold => ?_⟩
    · rw [hempty, List.isEmpty_nil, Bool.or_true] at htaken
      exact absurd rfl htaken
    · change mergeByTime f.rows (sortByTime batch) = _
      rw [hold, mergeByTime_sortByTime]

/-- The end of a fetch takes in nothing. -/
theorem takes_settle (f : Fetch) (status : FetchStatus) : f.Takes [] (f.settle status) := by
  unfold settle
  split
  · exact .of_eq rfl rfl fun h => h
  · next hrunning =>
    refine ⟨fun hsettled => absurd hsettled hrunning, fun hintact => ?_,
      fun _ _ old hold => by rw [List.append_nil]; exact hold⟩
    have hcancelled : f.cancelled = false := by
      rw [← Bool.not_eq_true]
      intro hstop
      exact hintact.status (if_pos hstop)
    have hstatus := (isSettled_eq_false_iff _).1 ((Bool.not_eq_true _).mp hrunning)
    exact ⟨hstatus ▸ FetchStatus.noConfusion, fun _ => hcancelled⟩

/-- A turn takes in the next batch of the source. -/
theorem takes_turn (f : Fetch) : f.Takes f.nextBatch f.turn := by
  by_cases hsettled : f.status.isSettled = true
  · have hnone : f.nextBatch = [] := by simp [nextBatch, hsettled]
    rw [hnone, turn, if_pos hsettled]
    exact .of_eq rfl rfl fun hstop => hstop
  by_cases hstop : f.cancelled = true
  · have hnone : f.nextBatch = [] := by simp [nextBatch, hstop]
    rw [hnone, turn, if_neg hsettled, if_pos hstop]
    exact f.takes_settle .canceled
  rw [turn, if_neg hsettled, if_neg hstop]
  cases hbatches : f.response.batches with
  | cons batch rest =>
    have hnext : f.nextBatch = batch := by simp [nextBatch, hsettled, hstop, hbatches]
    have hpush := takes_push { f with response := { f.response with batches := rest } } batch
    rw [hnext]
    exact ⟨hpush.settled, fun h => ⟨(hpush.intact h).status, (hpush.intact h).cancelled⟩,
      fun h => hpush.rows ⟨h.status, h.cancelled⟩⟩
  | nil =>
    have hnone : f.nextBatch = [] := by simp [nextBatch, hbatches]
    rw [hnone]
    cases f.response.outcome with
    | none => exact .of_eq rfl rfl fun hstop => hstop
    | some outcome => exact f.takes_settle _

/-- A fetch before and after events that only touch references and the index. -/
structure Refers (f g : Fetch) : Prop where
  progress : g.progress = f.progress
  cancelled : f.cancelled = true → g.cancelled = true

/-- An event that only refers to fetches changes nothing but references. -/
theorem Change.refers {n : Nat} {f g : Fetch} {e : CacheEvent} (h : Change n f e g)
    (he : e.onlyRefers = true) : f.Refers g := by
  refine ⟨h.progress_eq he, fun hstop => ?_⟩
  cases h with
  | same => exact hstop
  | refer _ task =>
    unfold addTask
    split <;> exact hstop
  | letGo _ task _ => rw [Cache.cancelled_letGo, hstop, Bool.or_true]
  | push | settle | turn => cases he

/-- A fetch of which only the references change takes in nothing. -/
theorem Refers.takes {f g : Fetch} (h : f.Refers g) : f.Takes [] g := by
  obtain ⟨hrows, hrest⟩ := Prod.mk.inj h.progress
  exact .of_eq hrows (Prod.mk.inj hrest).1 h.cancelled

end Fetch

/-! ## A cache -/

/-- Events that only refer to fetches change nothing but references. -/
theorem Cache.refers_after {c : Cache} {n : Nat} {f : Fetch} (h : c.fetch? n = some f)
    {events : List CacheEvent} (hevents : ∀ e ∈ events, e.onlyRefers = true) :
    ∃ g, (c.after events).fetch? n = some g ∧ f.Refers g := by
  induction events generalizing c f with
  | nil => exact ⟨f, h, rfl, fun hstop => hstop⟩
  | cons e events ih =>
    obtain ⟨g, hg, hchange⟩ := fetch?_step h e
    obtain ⟨k, hk, hrefers⟩ := ih hg fun e' he' => hevents e' (List.mem_cons_of_mem _ he')
    have hfirst := hchange.refers (hevents e List.mem_cons_self)
    exact ⟨k, hk, hrefers.progress.trans hfirst.progress,
      fun hstop => hrefers.cancelled (hfirst.cancelled hstop)⟩

/-- A fetch that such events start has nothing yet. -/
theorem Cache.rows_of_new {c : Cache} {n : Nat} {g : Fetch} (hnew : c.fetch? n = none)
    {events : List CacheEvent} (hevents : ∀ e ∈ events, e.onlyRefers = true)
    (hg : (c.after events).fetch? n = some g) : g.rows = [] := by
  induction events generalizing c with
  | nil =>
    rw [after, List.foldl_nil, hnew] at hg
    cases hg
  | cons e events ih =>
    have hrest : ∀ e' ∈ events, e'.onlyRefers = true := fun e' he' =>
      hevents e' (List.mem_cons_of_mem _ he')
    cases hf : (c.step e).fetch? n with
    | none => exact ih hf hrest hg
    | some f =>
      obtain ⟨k, hk, hrefers⟩ := refers_after hf hrest
      obtain rfl : k = g := Option.some.inj (hk.symm.trans hg)
      rw [(Prod.mk.inj hrefers.progress).1]
      rcases c.fetch?_step_cases hf with ⟨f', hf', -⟩ | ⟨-, hstarted⟩
      · rw [hnew] at hf'
        cases hf'
      · obtain ⟨identity, task, response, rfl, -⟩ := c.started?_eq_some hstarted
        rfl

/-! ## An engine -/

namespace Engine

variable [Regex.Library] [Machine]

/-- What an event gives a fetch is taken in by it. -/
theorem takes_step {e : Engine} {n : Nat} {f : Fetch} (h : e.cache.fetch? n = some f)
    (ev : EngineEvent) :
    ∃ g, (e.step ev).cache.fetch? n = some g ∧ f.Takes (f.emits n ev) g := by
  have horder : ∀ id, ev.orderTo? = some id →
      ∃ g, (e.step ev).cache.fetch? n = some g ∧ f.Takes [] g := by
    intro id hev
    obtain ⟨g, hg, hrefers⟩ := Cache.refers_after h fun c => onlyRefers_cacheEvents hev
    rw [← cache_step] at hg
    exact ⟨g, hg, hrefers.takes⟩
  have hmodify : ∀ (fetch : Nat) (change : Fetch → Fetch) (rows : List Record),
      f.Takes rows (change f) → ∃ g, (e.cache.modify fetch change).fetch? n = some g ∧
        f.Takes (if fetch = n then rows else []) g := by
    intro fetch change rows htakes
    rw [Cache.fetch?_modify, h]
    by_cases hn : fetch = n
    · rw [if_pos hn, if_pos hn]
      exact ⟨change f, rfl, htakes⟩
    · rw [if_neg hn, if_neg hn]
      exact ⟨f, rfl, .of_eq rfl rfl fun hstop => hstop⟩
  cases ev with
  | run task q => exact horder task rfl
  | cancel task => exact horder task rfl
  | release task => exact horder task rfl
  | report fetch rows => exact hmodify fetch _ _ (f.takes_push _)
  | settle fetch outcome =>
    have hsettle := hmodify fetch (fun f => f.settle (.ofOutcome outcome)) []
      (f.takes_settle _)
    rwa [ite_self] at hsettle
  | fetchTurn fetch => exact hmodify fetch _ _ f.takes_turn
  | taskStep i =>
    rw [cache_step]
    exact ⟨f, h, .of_eq rfl rfl fun hstop => hstop⟩

/-- The rows that the source of a fetch emits by an event; before the fetch is started it emits
none. -/
def emits (e : Engine) (n : Nat) (ev : EngineEvent) : List Record :=
  ((e.cache.fetch? n).map fun f => f.emits n ev).getD []

/-- The rows that the source of a fetch emits in a run, in their order. -/
def emitted (e : Engine) (n : Nat) : List EngineEvent → List Record
  | [] => []
  | ev :: events => e.emits n ev ++ emitted (e.step ev) n events

/-- The source of a fetch emits nothing after its end. -/
def Timely (e : Engine) (n : Nat) : List EngineEvent → Prop
  | [] => True
  | ev :: events =>
    (∀ f, e.cache.fetch? n = some f → f.status.isSettled = true → f.emits n ev = []) ∧
      Timely (e.step ev) n events

/-- A source that nothing is reported of from outside emits nothing after its end. -/
theorem timely_of_isInternal {e : Engine} {n : Nat} {events : List EngineEvent}
    (h : ∀ ev ∈ events, ev.isInternal = true) : e.Timely n events := by
  induction events generalizing e with
  | nil => exact trivial
  | cons ev events ih =>
    refine ⟨fun f _ hsettled => ?_, ih fun ev' hev' => h ev' (List.mem_cons_of_mem _ hev')⟩
    have hinternal := h ev List.mem_cons_self
    cases ev with
    | report | settle => cases hinternal
    | fetchTurn fetch => simp [Fetch.emits, Fetch.nextBatch, hsettled]
    | run | cancel | release | taskStep => rfl

/-- A source that emits nothing after its end by then, nor from then on. -/
theorem Timely.append {e : Engine} {n : Nat} {events more : List EngineEvent}
    (h : e.Timely n events) (hmore : (e.after events).Timely n more) : e.Timely n (events ++ more) := by
  induction events generalizing e with
  | nil => exact hmore
  | cons ev events ih => exact ⟨h.1, ih h.2 hmore⟩

/-- The fetches that an event starts have nothing yet. -/
theorem rows_of_new {e : Engine} {n : Nat} {g : Fetch} (hnew : e.cache.fetch? n = none)
    (ev : EngineEvent) (hg : (e.step ev).cache.fetch? n = some g) : g.rows = [] := by
  have hmodify : ∀ (fetch : Nat) (change : Fetch → Fetch),
      (e.cache.modify fetch change).fetch? n = some g → g.rows = [] := by
    intro fetch change hg
    rw [Cache.fetch?_modify, hnew, Option.map_none, ite_self] at hg
    cases hg
  have horder : ∀ id, ev.orderTo? = some id → g.rows = [] := by
    intro id hev
    rw [cache_step] at hg
    exact Cache.rows_of_new hnew (fun c => onlyRefers_cacheEvents hev) hg
  cases ev with
  | run task q => exact horder task rfl
  | cancel task => exact horder task rfl
  | release task => exact horder task rfl
  | report fetch rows => exact hmodify fetch _ hg
  | settle fetch outcome => exact hmodify fetch _ hg
  | fetchTurn fetch => exact hmodify fetch _ hg
  | taskStep i =>
    rw [cache_step] at hg
    rw [cacheEvents, Cache.after, List.foldl_nil, hnew] at hg
    cases hg

/-- A fetch that was not told to stop before its source had ended has what was emitted so far,
sorted. -/
theorem rows_after {e : Engine} {n : Nat} {old : List Record}
    (hold : ∀ f, e.cache.fetch? n = some f → f.Intact → f.rows = sortByTime old)
    (hnew : e.cache.fetch? n = none → old = []) {events : List EngineEvent}
    (htimely : e.Timely n events) {g : Fetch} (hg : (e.after events).cache.fetch? n = some g)
    (hintact : g.Intact) : g.rows = sortByTime (old ++ e.emitted n events) := by
  induction events generalizing e old with
  | nil =>
    rw [emitted, List.append_nil]
    exact hold g hg hintact
  | cons ev events ih =>
    obtain ⟨hquiet, hrest⟩ := htimely
    rw [emitted, ← List.append_assoc]
    refine ih (fun k hk hkintact => ?_) (fun hknew => ?_) hrest hg
    · cases hf : e.cache.fetch? n with
      | none =>
        rw [rows_of_new hf ev hk, hnew hf, emits, hf]
        exact List.mergeSort_nil.symm
      | some f =>
        obtain ⟨k', hk', htakes⟩ := takes_step hf ev
        obtain rfl : k' = k := Option.some.inj (hk'.symm.trans hk)
        have hbefore := htakes.intact hkintact
        rw [emits, hf]
        exact htakes.rows hbefore (hquiet f hf) old (hold f hf hbefore)
    · cases hf : e.cache.fetch? n with
      | none =>
        rw [hnew hf, emits, hf]
        rfl
      | some f =>
        obtain ⟨k, hk, -⟩ := takes_step hf ev
        rw [hknew] at hk
        cases hk

end Engine

end LogSearch
