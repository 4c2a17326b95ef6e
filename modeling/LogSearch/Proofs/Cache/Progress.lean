import LogSearch.Proofs.Cache.References
import LogSearch.Proofs.Record.Merging

/-!
# How a fetch gets on

Batches come into a fetch in any sizes and in any order of time, before and after its end, until the
fetch is told to stop. How the rows were cut into batches does not show: the fetch holds all of them,
sorted by time once. Its version counts the batches that had rows, and its end.

* `Fetch.progress`, `CacheEvent.onlyRefers`: how a fetch gets on, and the events that do not touch it.
* `Fetch.Collected`: what a fetch holds of batches; pushes, ends and turns keep it.
* `Cache.pushedInTime`: the batches that a run pushes into a fetch before it is told to stop.
* `Cache.collected_after`: after any run a fetch has collected just these.
* `Fetch.Settles`: what stays of a fetch once it has ended or was told to stop.
* `Cache.rows_and_versions`: the parts together, for every run from the empty cache.
-/

namespace LogSearch

/-- The events of a cache that only touch references and the index. -/
def CacheEvent.onlyRefers : CacheEvent → Bool
  | .push .. | .settle .. | .turn _ => false
  | _ => true

namespace Fetch

/-- What a fetch has and how it stands, its references apart. -/
def progress (f : Fetch) : List Record × FetchStatus × Nat := (f.rows, f.status, f.version)

/-- An event that only refers to fetches leaves what has come in as it is. -/
theorem Change.progress_eq {n : Nat} {f g : Fetch} {e : CacheEvent} (h : Change n f e g)
    (he : e.onlyRefers = true) : g.progress = f.progress := by
  cases h with
  | same => rfl
  | refer _ task =>
    unfold addTask
    split <;> rfl
  | letGo _ task _ =>
    unfold Cache.letGo
    split <;> rfl
  | push | settle | turn => cases he

/-- Whatever outcome a source reports ends its fetch. -/
theorem isSettled_ofOutcome (outcome : Except SourceFault Unit) :
    (FetchStatus.ofOutcome outcome).isSettled = true := by
  cases outcome <;> rfl

/-- A fetch goes on as long as it is running. -/
theorem isSettled_eq_false_iff (status : FetchStatus) : status.isSettled = false ↔ status = .running := by
  cases status <;> simp [FetchStatus.isSettled]

end Fetch

/-- Events that only refer to fetches leave what has come in as it is. -/
theorem Cache.progress_after {c : Cache} {n : Nat} {f : Fetch} (h : c.fetch? n = some f)
    {events : List CacheEvent} (hevents : ∀ e ∈ events, e.onlyRefers = true) :
    ∃ g, (c.after events).fetch? n = some g ∧ g.progress = f.progress := by
  induction events generalizing c f with
  | nil => exact ⟨f, h, rfl⟩
  | cons e events ih =>
    obtain ⟨g, hg, hchange⟩ := fetch?_step h e
    obtain ⟨k, hk, hsame⟩ := ih hg fun e' he' => hevents e' (List.mem_cons_of_mem _ he')
    exact ⟨k, hk, hsame.trans (hchange.progress_eq (hevents e List.mem_cons_self))⟩

/-! ## What a fetch holds of batches -/

namespace Fetch

/-- The batch that the next turn takes in, if it takes one. -/
def reported (f : Fetch) : List (List Record) :=
  if f.status.isSettled || f.cancelled then [] else f.response.batches.take 1

/-- The batches that an event pushes into the fetch with a number. -/
def pushes (n : Nat) (f : Fetch) : CacheEvent → List (List Record)
  | .push fetch batch => if fetch = n then [batch] else []
  | .turn fetch => if fetch = n then f.reported else []
  | .add .. | .reference .. | .referenceOrAdd .. | .removeByKey .. | .release .. | .forceRemove _
  | .settle .. => []

/-- The fetch holds the rows of the batches, sorted by time, and counts the batches that have any, and
its end. -/
structure Collected (batches : List (List Record)) (f : Fetch) : Prop where
  rows : f.rows = sortByTime batches.flatten
  version : f.version =
    (batches.countP fun batch => !batch.isEmpty) + if f.status.isSettled then 1 else 0

/-- At its start a fetch has collected nothing. -/
theorem collected_start (identity : CacheIdentity) (task : String) (response : Response) :
    (start identity task response).Collected [] := by
  constructor
  · exact List.mergeSort_nil.symm
  · rfl

namespace Collected

variable {batches : List (List Record)} {f g : Fetch}

/-- What a fetch has collected is told by its progress. -/
theorem of_progress (h : f.Collected batches) (hprogress : g.progress = f.progress) :
    g.Collected batches := by
  obtain ⟨hrows, hrest⟩ := Prod.mk.inj hprogress
  obtain ⟨hstatus, hversion⟩ := Prod.mk.inj hrest
  constructor
  · rw [hrows, h.rows]
  · rw [hversion, hstatus, h.version]

/-- A batch joins the others, unless the fetch was told to stop. -/
theorem push (h : f.Collected batches) (batch : List Record) :
    (f.push batch).Collected (batches ++ if f.cancelled then [] else [batch]) := by
  unfold Fetch.push
  by_cases hstop : f.cancelled = true
  · rw [hstop, Bool.true_or, if_pos rfl, if_pos rfl, List.append_nil]
    exact h
  rw [Bool.not_eq_true] at hstop
  rw [hstop, Bool.false_or, if_neg Bool.false_ne_true]
  by_cases hempty : batch.isEmpty = true
  · rw [if_pos hempty]
    constructor
    · rw [List.isEmpty_iff.1 hempty, List.flatten_append, List.flatten_singleton, List.append_nil]
      exact h.rows
    · rw [List.countP_append, List.countP_singleton, hempty, h.version]
      rfl
  · rw [if_neg hempty]
    constructor
    · calc mergeByTime f.rows (sortByTime batch)
          = mergeByTime (sortByTime batches.flatten) (sortByTime batch) := by rw [h.rows]
        _ = sortByTime (batches.flatten ++ batch) := mergeByTime_sortByTime _ _
        _ = sortByTime (batches ++ [batch]).flatten := by
          rw [List.flatten_append, List.flatten_singleton]
    · rw [List.countP_append, List.countP_singleton, (Bool.not_eq_true _).mp hempty]
      show f.version + 1 = _ + 1 + if f.status.isSettled then 1 else 0
      rw [h.version, Nat.add_right_comm]

/-- An end is one more change, if it is the first one. -/
theorem settle (h : f.Collected batches) {status : FetchStatus} (hstatus : status.isSettled = true) :
    (f.settle status).Collected batches := by
  unfold Fetch.settle
  split
  · exact h
  · next hrunning =>
    have hended : (if f.cancelled = true then FetchStatus.canceled else status).isSettled = true := by
      split
      · rfl
      · exact hstatus
    constructor
    · exact h.rows
    · show f.version + 1 = _
      rw [hended, h.version, if_neg hrunning]
      rfl

/-- A turn takes in what is reported, or the end. -/
theorem turn (h : f.Collected batches) : f.turn.Collected (batches ++ f.reported) := by
  unfold Fetch.turn reported
  by_cases hsettled : f.status.isSettled = true
  · rw [if_pos hsettled, hsettled, Bool.true_or, if_pos rfl, List.append_nil]
    exact h
  rw [if_neg hsettled, (Bool.not_eq_true _).mp hsettled, Bool.false_or]
  by_cases hstop : f.cancelled = true
  · rw [if_pos hstop, if_pos hstop, List.append_nil]
    exact h.settle rfl
  rw [if_neg hstop, if_neg hstop]
  cases f.response.batches with
  | cons batch rest =>
    have hpush := Collected.push (f := { f with response := { f.response with batches := rest } })
      ⟨h.rows, h.version⟩ batch
    rwa [if_neg hstop] at hpush
  | nil =>
    rw [List.take_nil, List.append_nil]
    cases f.response.outcome with
    | none => exact h
    | some outcome => exact h.settle (isSettled_ofOutcome outcome)

end Collected

end Fetch

/-! ## What a run pushes into a fetch -/

namespace Cache

/-- The batches that an event pushes into the fetch with a number; once it is told to stop, none. -/
def takes (c : Cache) (n : Nat) (e : CacheEvent) : List (List Record) :=
  match c.fetch? n with
  | some f => if f.cancelled then [] else f.pushes n e
  | none => []

/-- The batches that a run pushes into the fetch with a number before it is told to stop, in order. -/
def pushedInTime (n : Nat) (c : Cache) : List CacheEvent → List (List Record)
  | [] => []
  | e :: events => c.takes n e ++ pushedInTime n (c.step e) events

section

variable {c : Cache} {n : Nat} {f g : Fetch} {batches : List (List Record)}

/-- What an event adds to a fetch that is there; a cancelled fetch takes nothing. -/
theorem takes_of_fetch? (h : c.fetch? n = some f) (e : CacheEvent) :
    c.takes n e = if f.cancelled then [] else f.pushes n e := by
  rw [takes, h]

/-- A change of one fetch adds to that fetch what it takes in, and to others nothing. -/
theorem collected_modify (h : c.fetch? n = some f) (hf : f.Collected batches) (fetch : Nat)
    (change : Fetch → Fetch) {more : List (List Record)}
    (hchange : (change f).Collected (batches ++ more)) :
    ∃ g, (c.modify fetch change).fetch? n = some g ∧
      g.Collected (batches ++ if fetch = n then more else []) := by
  rw [fetch?_modify, h]
  by_cases hn : fetch = n
  · rw [if_pos hn, if_pos hn]
    exact ⟨change f, rfl, hchange⟩
  · rw [if_neg hn, if_neg hn, List.append_nil]
    exact ⟨f, rfl, hf⟩

/-- After an event a fetch has collected what it had and what the event pushes into it. -/
theorem collected_step (h : c.fetch? n = some f) (hf : f.Collected batches) (e : CacheEvent) :
    ∃ g, (c.step e).fetch? n = some g ∧ g.Collected (batches ++ c.takes n e) := by
  rw [takes_of_fetch? h]
  have hrefers : e.onlyRefers = true → f.pushes n e = [] → ∃ g, (c.step e).fetch? n = some g ∧
      g.Collected (batches ++ if f.cancelled then [] else f.pushes n e) := by
    intro he hnone
    obtain ⟨g, hg, hchange⟩ := fetch?_step h e
    rw [hnone, ite_self, List.append_nil]
    exact ⟨g, hg, hf.of_progress (hchange.progress_eq he)⟩
  cases e with
  | push fetch batch =>
    have hpush := collected_modify h hf fetch (fun f => f.push batch) (hf.push batch)
    by_cases hstop : f.cancelled = true
    · rw [if_pos hstop, ite_self] at hpush
      rw [if_pos hstop]
      exact hpush
    · rw [if_neg hstop] at hpush
      rw [if_neg hstop]
      exact hpush
  | settle fetch outcome =>
    have hend := hf.settle (Fetch.isSettled_ofOutcome outcome)
    rw [← List.append_nil batches] at hend
    have hsettle := collected_modify h hf fetch (fun f => f.settle (.ofOutcome outcome)) hend
    rw [ite_self] at hsettle
    rw [Fetch.pushes, ite_self]
    exact hsettle
  | turn fetch =>
    have hturn := collected_modify h hf fetch Fetch.turn hf.turn
    by_cases hstop : f.cancelled = true
    · have hnone : f.reported = [] := by rw [Fetch.reported, hstop, Bool.or_true, if_pos rfl]
      rw [hnone, ite_self] at hturn
      rw [if_pos hstop]
      exact hturn
    · rw [if_neg hstop]
      exact hturn
  | add | reference | referenceOrAdd | removeByKey | release | forceRemove => exact hrefers rfl rfl

/-- After any run a fetch has collected what was pushed into it before it was told to stop. -/
theorem collected_after {events : List CacheEvent}
    (hold : ∀ f, c.fetch? n = some f → f.Collected batches)
    (hnew : c.fetch? n = none → batches = []) (hg : (c.after events).fetch? n = some g) :
    g.Collected (batches ++ c.pushedInTime n events) := by
  induction events generalizing c batches with
  | nil =>
    rw [pushedInTime, List.append_nil]
    exact hold g hg
  | cons e events ih =>
    rw [pushedInTime, ← List.append_assoc]
    apply ih _ _ hg
    · intro k hk
      rcases c.fetch?_step_cases hk with ⟨f, hf, -⟩ | ⟨hn, hstarted⟩
      · obtain ⟨k', hk', hcollected⟩ := collected_step hf (hold f hf) e
        obtain rfl : k' = k := Option.some.inj (hk'.symm.trans hk)
        exact hcollected
      · have hnone : c.fetch? n = none := List.getElem?_eq_none (Nat.le_of_eq hn.symm)
        obtain ⟨identity, task, response, rfl, -⟩ := c.started?_eq_some hstarted
        rw [hnew hnone, takes, hnone]
        exact Fetch.collected_start identity task response
    · intro hnone
      cases hf : c.fetch? n with
      | none =>
        rw [hnew hf, takes, hf]
        rfl
      | some f =>
        obtain ⟨k, hk, -⟩ := fetch?_step hf e
        rw [hnone] at hk
        cases hk

end

end Cache

/-! ## What stays -/

/-- What stays of a fetch: its status once it has ended, and its rows once it was told to stop. -/
structure Fetch.Settles (f g : Fetch) : Prop where
  status : f.status.isSettled = true → g.status = f.status
  rows : f.cancelled = true → g.cancelled = true ∧ g.rows = f.rows

namespace Fetch

/-- A fetch that does not change keeps all that has to stay. -/
theorem Settles.refl (f : Fetch) : f.Settles f where
  status _ := rfl
  rows hstop := ⟨hstop, rfl⟩

/-- What stays in each of two steps stays in both. -/
theorem Settles.trans {f g k : Fetch} (h : f.Settles g) (h' : g.Settles k) : f.Settles k where
  status hsettled := by
    have hg := h.status hsettled
    rw [h'.status (hg ▸ hsettled), hg]
  rows hstop := by
    obtain ⟨hg, hrows⟩ := h.rows hstop
    obtain ⟨hk, hrows'⟩ := h'.rows hg
    exact ⟨hk, hrows'.trans hrows⟩

/-- A batch leaves the status, and the rows of a fetch that is to stop. -/
theorem settles_push (f : Fetch) (batch : List Record) : f.Settles (f.push batch) := by
  unfold push
  split
  · exact .refl f
  · next htaken =>
    constructor
    · exact fun _ => rfl
    · intro hstop
      rw [hstop, Bool.true_or] at htaken
      exact absurd rfl htaken

/-- An end leaves the status of a fetch that has ended, and all rows. -/
theorem settles_settle (f : Fetch) (status : FetchStatus) : f.Settles (f.settle status) := by
  unfold settle
  split
  · exact .refl f
  · next hrunning =>
    constructor
    · intro hsettled
      exact absurd hsettled hrunning
    · exact fun hstop => ⟨hstop, rfl⟩

/-- Every event leaves the status of a fetch that has ended and the rows of one that is to stop. -/
theorem Change.settles {n : Nat} {f g : Fetch} {e : CacheEvent} (h : Change n f e g) :
    f.Settles g := by
  cases h with
  | same => exact .refl f
  | refer _ task =>
    unfold addTask
    split <;> exact ⟨fun _ => rfl, fun hstop => ⟨hstop, rfl⟩⟩
  | letGo _ task _ =>
    unfold Cache.letGo
    split
    · exact ⟨fun _ => rfl, fun _ => ⟨rfl, rfl⟩⟩
    · exact ⟨fun _ => rfl, fun hstop => ⟨hstop, rfl⟩⟩
  | push batch => exact settles_push f batch
  | settle outcome => exact settles_settle f _
  | turn =>
    rcases turn_cases f with hsame | ⟨status, hsame⟩ | ⟨batch, rest, hsame⟩ <;> rw [hsame]
    · exact .refl f
    · exact settles_settle f status
    · have hpush := settles_push { f with response := { f.response with batches := rest } } batch
      exact ⟨hpush.status, hpush.rows⟩

end Fetch

namespace Cache

/-- So do all events together. -/
theorem settles_after {c : Cache} {n : Nat} {f : Fetch} (h : c.fetch? n = some f)
    (events : List CacheEvent) : ∃ g, (c.after events).fetch? n = some g ∧ f.Settles g := by
  induction events generalizing c f with
  | nil => exact ⟨f, h, .refl f⟩
  | cons e events ih =>
    obtain ⟨g, hg, hchange⟩ := fetch?_step h e
    obtain ⟨k, hk, hsettles⟩ := ih hg
    exact ⟨k, hk, hchange.settles.trans hsettles⟩

/-- After any events, in any order, a fetch holds the rows of the batches that were pushed into it
before it was told to stop, one behind the other and sorted by time once; and its version counts those
of the batches that have rows, and its end. A fetch starts as running. Whatever comes then, an end is
for good, and a fetch that was told to stop keeps its rows. -/
theorem rows_and_versions (n : Nat) (events more : List CacheEvent) :
    let c := Cache.empty.after events
    let batches := Cache.empty.pushedInTime n events
    (∀ f, c.fetch? n = some f →
      f.rows = sortByTime batches.flatten ∧
      f.version = (batches.countP fun batch => !batch.isEmpty) + if f.status.isSettled then 1 else 0) ∧
    (∀ e f, c.started? e = some f → f.status = .running) ∧
    ∀ f, c.fetch? n = some f → ∃ g, (c.after more).fetch? n = some g ∧
      (f.status = .running ∨ g.status = f.status) ∧
      (f.cancelled = true → g.cancelled = true ∧ g.rows = f.rows) := by
  intro c batches
  refine ⟨?_, ?_, ?_⟩
  · intro f hf
    have hnone : Cache.empty.fetch? n = none := rfl
    have hcollected : f.Collected ([] ++ batches) :=
      collected_after (fun k hk => nomatch hnone.symm.trans hk) (fun _ => rfl) hf
    rw [List.nil_append] at hcollected
    exact ⟨hcollected.rows, hcollected.version⟩
  · intro e f hstarted
    obtain ⟨identity, task, response, rfl, -⟩ := c.started?_eq_some hstarted
    rfl
  · intro f hf
    obtain ⟨g, hg, hsettles⟩ := settles_after hf more
    refine ⟨g, hg, ?_, hsettles.rows⟩
    cases hended : f.status.isSettled with
    | true => exact .inr (hsettles.status hended)
    | false => exact .inl ((Fetch.isSettled_eq_false_iff _).1 hended)

end Cache

end LogSearch
