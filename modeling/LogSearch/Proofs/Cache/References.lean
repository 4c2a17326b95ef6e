import LogSearch.Cache.Store

/-!
# Who refers to a fetch

The cache counts references by the names of tasks. Fetches leave the index in three ways (the last
task lets go, a forced removal, a newer fetch in the place of a failed one), and tasks may still
hold numbers of fetches that have left it. Through all of that, whatever the order:

* `Cache.Sound`: an indexed fetch stands under the key of its own identity, some task refers to it
  and it runs; any fetch, indexed or not, is told to stop exactly when no task refers to it.
* `Cache.Sound.step`, `Cache.Sound.after`: every event keeps this, hence every run.
* `Cache.fetches_step`: an event starts at most one fetch, and touches the others in place.
* `Cache.reference_counting`: the four parts together, for every run from the empty cache.
-/

namespace LogSearch

/-! ## Events -/

/-- What can happen to a cache. A fetch is named by its number, which stays a handle of the fetch
after it has left the index. -/
inductive CacheEvent
  | add (identity : CacheIdentity) (task : String) (response : Response)
  | reference (identity : CacheIdentity) (task : String)
  | referenceOrAdd (identity : CacheIdentity) (task : String) (response : Response)
  | removeByKey (key task : String)
  | release (fetch : Nat) (task : String)
  | forceRemove (identity : CacheIdentity)
  /-- A batch arrives for a fetch. -/
  | push (fetch : Nat) (batch : List Record)
  /-- The source of a fetch ends. -/
  | settle (fetch : Nat) (outcome : Except SourceFault Unit)
  /-- A fetch goes on by itself: it reports, ends, or notices that it is to stop. -/
  | turn (fetch : Nat)

namespace Cache

/-- The cache after an event, or the fault that is the answer to it. -/
def answer (c : Cache) : CacheEvent → Except CacheFault Cache
  | .add identity task response => (c.add identity task response).map Prod.snd
  | .reference identity task => (c.reference identity task).map Prod.snd
  | .referenceOrAdd identity task response => .ok (c.referenceOrAdd identity task response).2.2
  | .removeByKey key task => (c.removeByKey key task).map Prod.snd
  | .release fetch task => .ok (c.release fetch task).2
  | .forceRemove identity => .ok (c.forceRemove identity).2
  | .push fetch batch => .ok (c.modify fetch fun f => f.push batch)
  | .settle fetch outcome => .ok (c.modify fetch fun f => f.settle (.ofOutcome outcome))
  | .turn fetch => .ok (c.modify fetch Fetch.turn)

/-- The cache after an event; a fault leaves it as it is. -/
def step (c : Cache) (e : CacheEvent) : Cache :=
  match c.answer e with
  | .ok d => d
  | .error _ => c

/-- The cache after events. -/
def after (c : Cache) (events : List CacheEvent) : Cache := events.foldl step c

/-- Events one after another are events of the cache in between. -/
theorem after_append (c : Cache) (events more : List CacheEvent) :
    c.after (events ++ more) = (c.after events).after more := by
  simp [after]

/-- The fetch that an event starts. -/
def started? (c : Cache) : CacheEvent → Option Fetch
  | .add identity task response =>
    if c.find? identity.key = none then some (.start identity task response) else none
  | .referenceOrAdd identity task response =>
    if c.usable? identity = none then some (.start identity task response) else none
  | _ => none

/-- The fetches that events start, in order. -/
def startedBy (c : Cache) : List CacheEvent → List Fetch
  | [] => []
  | e :: events => (c.started? e).toList ++ startedBy (c.step e) events

end Cache

/-! ## What a source does -/

namespace Fetch

/-- A change that leaves the identity, the references and the order to stop as they are. -/
structure KeepsReferences (change : Fetch → Fetch) : Prop where
  identity : ∀ f, (change f).identity = f.identity
  tasks : ∀ f, (change f).tasks = f.tasks
  cancelled : ∀ f, (change f).cancelled = f.cancelled

/-- Rows that come in leave the references of a fetch as they are. -/
theorem keepsReferences_push (batch : List Record) : KeepsReferences fun f => f.push batch where
  identity f := by unfold push; split <;> rfl
  tasks f := by unfold push; split <;> rfl
  cancelled f := by unfold push; split <;> rfl

/-- The end of a fetch leaves its references as they are. -/
theorem keepsReferences_settle (status : FetchStatus) :
    KeepsReferences fun f => f.settle status where
  identity f := by unfold settle; split <;> rfl
  tasks f := by unfold settle; split <;> rfl
  cancelled f := by unfold settle; split <;> rfl

/-- What a turn does to a fetch: nothing, an end, or a batch that is taken off the response. -/
theorem turn_cases (f : Fetch) :
    f.turn = f ∨ (∃ status, f.turn = f.settle status) ∨
      ∃ batch rest, f.turn = { f with response := { f.response with batches := rest } }.push batch := by
  unfold turn
  split
  · exact .inl rfl
  split
  · exact .inr (.inl ⟨_, rfl⟩)
  split
  · next batch rest _ => exact .inr (.inr ⟨batch, rest, rfl⟩)
  split
  · exact .inr (.inl ⟨_, rfl⟩)
  · exact .inl rfl

/-- A turn of a source leaves the references of its fetch as they are. -/
theorem keepsReferences_turn : KeepsReferences turn where
  identity f := by
    rcases turn_cases f with h | ⟨status, h⟩ | ⟨batch, rest, h⟩ <;> rw [h]
    · exact (keepsReferences_settle status).identity f
    · exact (keepsReferences_push batch).identity _
  tasks f := by
    rcases turn_cases f with h | ⟨status, h⟩ | ⟨batch, rest, h⟩ <;> rw [h]
    · exact (keepsReferences_settle status).tasks f
    · exact (keepsReferences_push batch).tasks _
  cancelled f := by
    rcases turn_cases f with h | ⟨status, h⟩ | ⟨batch, rest, h⟩ <;> rw [h]
    · exact (keepsReferences_settle status).cancelled f
    · exact (keepsReferences_push batch).cancelled _

end Fetch

namespace Cache

/-! ## Fetches by number -/

section fetches

variable (c : Cache) (id : Nat) (change : Fetch → Fetch)

/-- A change of one fetch is seen under its number alone. -/
theorem fetch?_modify (other : Nat) :
    (c.modify id change).fetch? other =
      if id = other then (c.fetch? other).map change else c.fetch? other := by
  unfold modify fetch?
  rw [List.getElem?_modify]
  split <;> simp

/-- Only what a change makes of the fetch that is there matters. -/
theorem modify_congr {change other : Fetch → Fetch}
    (h : ∀ f, c.fetch? id = some f → change f = other f) : c.modify id change = c.modify id other := by
  have hlist : c.fetches.modify id change = c.fetches.modify id other := by
    refine List.ext_getElem? fun j => ?_
    rw [List.getElem?_modify, List.getElem?_modify]
    by_cases hj : id = j
    · subst hj
      cases hf : c.fetches[id]? with
      | none => rfl
      | some f => simp [h f hf]
    · simp [hj]
  rw [modify, modify, hlist]

/-- Two changes of one fetch are a change. -/
theorem modify_modify (other : Fetch → Fetch) :
    (c.modify id change).modify id other = c.modify id fun f => other (change f) := by
  unfold modify
  rw [List.modify_modify_eq]
  rfl

/-- Changing a fetch leaves the index as it is. -/
@[simp] theorem index_modify : (c.modify id change).index = c.index := rfl

/-- Changing a fetch changes nothing about where keys lead. -/
@[simp] theorem find?_modify (key : String) : (c.modify id change).find? key = c.find? key := rfl

/-- A fetch that is taken out of the index can still be found by its number. -/
@[simp] theorem fetch?_unindex (other : Nat) : (c.unindex id).fetch? other = c.fetch? other := rfl

/-- The index without a fetch has the entries of all others. -/
theorem mem_index_unindex {p : String × Nat} : p ∈ (c.unindex id).index ↔ p ∈ c.index ∧ p.2 ≠ id := by
  simp [unindex]

/-- The fetches of a cache are those that have a number. -/
theorem mem_fetches_iff {f : Fetch} : f ∈ c.fetches ↔ ∃ id, c.fetch? id = some f :=
  List.mem_iff_getElem?

/-- No fetch can be used for an identity exactly if the one under its key, if any, has failed. -/
theorem usable?_eq_none_iff (identity : CacheIdentity) :
    c.usable? identity = none ↔
      ∀ id, c.find? identity.key = some id → (c.fetch? id).any (fun f => f.status.isFailed) = true := by
  unfold usable?
  rw [Option.filter_eq_none_iff]
  simp

/-- A fetch that can be used stands under the key of the identity. -/
theorem find?_of_usable? {identity : CacheIdentity} {id : Nat} (h : c.usable? identity = some id) :
    c.find? identity.key = some id :=
  (Option.filter_eq_some_iff.1 h).1

/-- A fetch that has just been started can be shared. -/
theorem usable?_insert (identity : CacheIdentity) (task : String) (response : Response) :
    (c.insert identity task response).2.usable? identity = some c.fetches.length := by
  have hfind : (c.insert identity task response).2.find? identity.key = some c.fetches.length := by
    simp [insert, find?, Fetch.start, Dict.get?_insert]
  unfold usable?
  rw [hfind]
  simp [insert, fetch?, Fetch.start, FetchStatus.isFailed]

end fetches

/-! ## Letting go of a fetch -/

/-- A fetch without the reference of a task; without any, it is told to stop. -/
def letGo (task : String) (f : Fetch) : Fetch :=
  if (f.removeTask task).tasks.isEmpty then (f.removeTask task).cancel else f.removeTask task

/-- Letting go removes the task from those of the fetch. -/
theorem tasks_letGo (task : String) (f : Fetch) :
    (letGo task f).tasks = (f.removeTask task).tasks := by
  unfold letGo
  split <;> rfl

/-- Letting go leaves the identity of the fetch. -/
theorem identity_letGo (task : String) (f : Fetch) : (letGo task f).identity = f.identity := by
  unfold letGo
  split <;> rfl

/-- Letting go tells a fetch without tasks to stop, and never takes that back. -/
theorem cancelled_letGo (task : String) (f : Fetch) :
    (letGo task f).cancelled = ((f.removeTask task).tasks.isEmpty || f.cancelled) := by
  unfold letGo
  split
  · next h => rw [h]; rfl
  · next h => rw [(Bool.not_eq_true _).mp h]; rfl

/-- Whether a fetch is left without references when a task lets go of it. -/
def isOrphaned (c : Cache) (id : Nat) (task : String) : Bool :=
  (c.fetch? id).any fun f => (f.removeTask task).tasks.isEmpty

/-- Dropping a reference changes its fetch alone, and says whether no task is left. -/
theorem dropReference_eq (c : Cache) (id : Nat) (task : String) :
    c.dropReference id task = (c.isOrphaned id task, c.modify id (letGo task)) := by
  have horphan : (((c.modify id fun f => f.removeTask task).fetch? id).any fun f => f.tasks.isEmpty) =
      c.isOrphaned id task := by
    rw [fetch?_modify, if_pos rfl, Option.any_map]
    rfl
  unfold dropReference
  simp only [horphan]
  split
  · next h =>
    refine Prod.ext_iff.2 ⟨h.symm, ?_⟩
    rw [modify_modify]
    refine modify_congr c id fun f hf => ?_
    have hempty : (f.removeTask task).tasks.isEmpty = true := by
      simpa [isOrphaned, hf] using h
    simp [letGo, hempty]
  · next h =>
    refine Prod.ext_iff.2 ⟨((Bool.not_eq_true _).mp h).symm, ?_⟩
    refine modify_congr c id fun f hf => ?_
    have hsome : ¬ (f.removeTask task).tasks.isEmpty = true := by
      simpa [isOrphaned, hf] using h
    rw [letGo, if_neg hsome]

/-- A release drops the reference; if no task is left, the fetch also leaves the index. -/
theorem release_eq (c : Cache) (id : Nat) (task : String) :
    c.release id task =
      (c.isOrphaned id task, if c.isOrphaned id task then (c.unindex id).modify id (letGo task)
        else c.modify id (letGo task)) := by
  unfold release
  rw [dropReference_eq]
  rfl

/-- Letting go by key is letting go of the fetch under the key. -/
theorem removeByKey_eq (c : Cache) (key task : String) :
    c.removeByKey key task =
      match c.find? key with
      | none => .error (.missingKey key)
      | some id => .ok (c.release id task) := by
  unfold removeByKey release
  cases c.find? key <;> rfl

/-! ## What an event does -/

section step

variable (c : Cache)

/-- What is answered to an order to add a fetch: a key that is there is a fault. -/
theorem answer_add (identity : CacheIdentity) (task : String) (response : Response) :
    c.answer (.add identity task response) =
      match c.find? identity.key with
      | none => .ok (c.insert identity task response).2
      | some _ => .error (.duplicateKey identity.key) := by
  have hcontains : c.contains identity = (c.find? identity.key).isSome := rfl
  simp only [answer, add, hcontains]
  cases c.find? identity.key <;> rfl

/-- What is answered to an order to refer to a fetch: a key that is not there is a fault. -/
theorem answer_reference (identity : CacheIdentity) (task : String) :
    c.answer (.reference identity task) =
      match c.find? identity.key with
      | none => .error (.missingKey identity.key)
      | some id => .ok (c.modify id fun f => f.addTask task) := by
  simp only [answer, reference]
  cases c.find? identity.key <;> rfl

/-- What is answered to an order to refer to a fetch or to start one. -/
theorem answer_referenceOrAdd (identity : CacheIdentity) (task : String) (response : Response) :
    c.answer (.referenceOrAdd identity task response) =
      match c.usable? identity with
      | none => .ok (c.insert identity task response).2
      | some id => .ok (c.modify id fun f => f.addTask task) := by
  simp only [answer, referenceOrAdd]
  cases c.usable? identity <;> rfl

/-- What is answered to an order to remove a reference by its key. -/
theorem answer_removeByKey (key task : String) :
    c.answer (.removeByKey key task) =
      match c.find? key with
      | none => .error (.missingKey key)
      | some id => .ok (c.release id task).2 := by
  simp only [answer, removeByKey_eq]
  cases c.find? key <;> rfl

/-- The faults of events: a key that is there already, and a key that is missing. -/
theorem answer_eq_error_iff (e : CacheEvent) (fault : CacheFault) :
    c.answer e = .error fault ↔
      (∃ identity task response id, e = .add identity task response ∧
        c.find? identity.key = some id ∧ fault = .duplicateKey identity.key) ∨
      (∃ identity task, e = .reference identity task ∧
        c.find? identity.key = none ∧ fault = .missingKey identity.key) ∨
      ∃ key task, e = .removeByKey key task ∧
        c.find? key = none ∧ fault = .missingKey key := by
  cases e with
  | add identity task response =>
    rw [answer_add]
    cases hfind : c.find? identity.key <;> simp [hfind, eq_comm]
  | reference identity task =>
    rw [answer_reference]
    cases hfind : c.find? identity.key <;> simp [hfind, eq_comm]
  | removeByKey key task =>
    rw [answer_removeByKey]
    cases hfind : c.find? key <;> simp [hfind, eq_comm]
  | referenceOrAdd identity task response =>
    rw [answer_referenceOrAdd]
    cases c.usable? identity <;> simp
  | release | forceRemove | push | settle | turn => simp [answer]

end step

/-! ## The invariant -/

/-- What holds of a cache at any time. -/
structure Sound (c : Cache) : Prop where
  /-- The index has each key once. -/
  ordered : Dict.Ordered c.index
  /-- An indexed fetch stands under the key of its identity, and some task refers to it. -/
  indexed : ∀ key id, (key, id) ∈ c.index →
    ∃ f, c.fetch? id = some f ∧ f.identity.key = key ∧ f.tasks ≠ []
  /-- A fetch is told to stop exactly when no task refers to it. -/
  cancelled_iff : ∀ id f, c.fetch? id = some f → (f.cancelled = true ↔ f.tasks = [])

namespace Sound

variable {c : Cache}

/-- An empty cache is sound. -/
theorem empty : Sound Cache.empty where
  ordered := List.Pairwise.nil
  indexed _ _ h := absurd h List.not_mem_nil
  cancelled_iff id f h := by simp [fetch?, Cache.empty] at h

/-- An indexed fetch runs. -/
theorem not_cancelled (h : c.Sound) {key : String} {id : Nat} {f : Fetch}
    (hmem : (key, id) ∈ c.index) (hf : c.fetch? id = some f) : f.cancelled = false := by
  obtain ⟨g, hg, -, htasks⟩ := h.indexed key id hmem
  rw [hf] at hg
  cases hg
  rw [← Bool.not_eq_true, h.cancelled_iff id f hf]
  exact htasks

/-- A change of one fetch keeps the invariant if it keeps the identity, keeps the fetch's own
part of the invariant, and leaves a task to a fetch that is indexed. -/
theorem modify (h : c.Sound) (id : Nat) (change : Fetch → Fetch)
    (hidentity : ∀ f, (change f).identity = f.identity)
    (hcancelled : ∀ f, c.fetch? id = some f →
      ((change f).cancelled = true ↔ (change f).tasks = []))
    (htasks : ∀ key f, (key, id) ∈ c.index → c.fetch? id = some f → (change f).tasks ≠ []) :
    (c.modify id change).Sound where
  ordered := h.ordered
  indexed key other hmem := by
    obtain ⟨f, hf, hkey, hne⟩ := h.indexed key other hmem
    rw [fetch?_modify]
    by_cases heq : id = other
    · subst heq
      rw [if_pos rfl, hf]
      exact ⟨change f, rfl, by rw [hidentity, hkey], htasks key f hmem hf⟩
    · rw [if_neg heq]
      exact ⟨f, hf, hkey, hne⟩
  cancelled_iff other f hf := by
    rw [fetch?_modify] at hf
    by_cases heq : id = other
    · subst heq
      rw [if_pos rfl] at hf
      obtain ⟨g, hg, rfl⟩ := Option.map_eq_some_iff.1 hf
      exact hcancelled g hg
    · rw [if_neg heq] at hf
      exact h.cancelled_iff other f hf

/-- A change of one fetch that touches neither references nor the order to stop keeps the
invariant. -/
theorem modify_of_keepsReferences (h : c.Sound) (id : Nat) {change : Fetch → Fetch}
    (hkeeps : Fetch.KeepsReferences change) : (c.modify id change).Sound := by
  refine h.modify id change hkeeps.identity (fun f hf => ?_) fun key f hmem hf => ?_
  · rw [hkeeps.cancelled, hkeeps.tasks]
    exact h.cancelled_iff id f hf
  · obtain ⟨g, hg, -, hne⟩ := h.indexed key id hmem
    rw [hf] at hg
    cases hg
    rw [hkeeps.tasks]
    exact hne

/-- Leaving entries of the index out keeps the invariant. -/
theorem filter_index (h : c.Sound) (keep : String × Nat → Bool) :
    Sound { c with index := c.index.filter keep } where
  ordered := Dict.ordered_filter h.ordered keep
  indexed key id hmem := h.indexed key id (List.mem_filter.1 hmem).1
  cancelled_iff := h.cancelled_iff

/-- A reference to an indexed fetch keeps the invariant. -/
theorem addTask (h : c.Sound) {key : String} {id : Nat} (hid : c.find? key = some id)
    (task : String) : (c.modify id fun f => f.addTask task).Sound := by
  have hne : ∀ f : Fetch, (f.addTask task).tasks ≠ [] := by
    intro f hnil
    unfold Fetch.addTask at hnil
    split at hnil
    · next hmem =>
      rw [hnil] at hmem
      exact absurd hmem List.not_mem_nil
    · exact absurd hnil (List.append_ne_nil_of_right_ne_nil _ (List.cons_ne_nil task []))
  have hsame : ∀ f : Fetch, (f.addTask task).cancelled = f.cancelled := by
    intro f
    unfold Fetch.addTask
    split <;> rfl
  refine h.modify id _ (fun f => ?_) (fun f hf => ?_) fun _ f _ _ => hne f
  · unfold Fetch.addTask
    split <;> rfl
  · have hruns : f.cancelled = false := h.not_cancelled (Dict.mem_of_get? hid) hf
    rw [hsame, hruns]
    exact ⟨fun hfalse => absurd hfalse Bool.false_ne_true, fun hnil => absurd hnil (hne f)⟩

/-- A new fetch keeps the invariant, also in the place of another one. -/
theorem insert (h : c.Sound) (identity : CacheIdentity) (task : String) (response : Response) :
    (c.insert identity task response).2.Sound where
  ordered := Dict.ordered_insert _ _ h.ordered
  indexed key id hmem := by
    rcases Dict.mem_insert hmem with heq | hold
    · obtain ⟨rfl, rfl⟩ := Prod.mk.inj heq
      refine ⟨Fetch.start identity task response, ?_, rfl, List.cons_ne_nil _ _⟩
      simp [Cache.insert, fetch?]
    · obtain ⟨f, hf, hkey, hne⟩ := h.indexed key id hold
      refine ⟨f, ?_, hkey, hne⟩
      have hlt : id < c.fetches.length := (List.getElem?_eq_some_iff.1 hf).1
      simpa [Cache.insert, fetch?, List.getElem?_append_left hlt] using hf
  cancelled_iff id f hf := by
    rcases Nat.lt_trichotomy id c.fetches.length with hlt | heq | hgt
    · refine h.cancelled_iff id f ?_
      simpa [Cache.insert, fetch?, List.getElem?_append_left hlt] using hf
    · subst heq
      have hstart : f = Fetch.start identity task response := by
        simpa [Cache.insert, fetch?, eq_comm] using hf
      rw [hstart]
      simp [Fetch.start]
    · have hnone : (c.fetches ++ [Fetch.start identity task response])[id]? = none :=
        List.getElem?_eq_none (by simp; omega)
      simp [Cache.insert, fetch?, hnone] at hf

/-- Letting go of a fetch keeps the invariant: the index loses it when nobody is left. -/
theorem release (h : c.Sound) (id : Nat) (task : String) : (c.release id task).2.Sound := by
  have hcancelled : ∀ f, c.fetch? id = some f →
      ((letGo task f).cancelled = true ↔ (letGo task f).tasks = []) := by
    intro f hf
    rw [cancelled_letGo, tasks_letGo, Bool.or_eq_true, List.isEmpty_iff, h.cancelled_iff id f hf]
    refine ⟨fun hor => hor.elim (fun hnil => hnil) fun hnil => ?_, .inl⟩
    simp [Fetch.removeTask, hnil]
  rw [release_eq]
  by_cases horphan : c.isOrphaned id task = true
  · simp only [horphan, if_true]
    refine (h.filter_index _).modify id _ (identity_letGo task) hcancelled fun key f hmem _ => ?_
    exact absurd rfl ((mem_index_unindex c id).1 hmem).2
  · simp only [horphan]
    refine h.modify id _ (identity_letGo task) hcancelled fun key f _ hf hnil => horphan ?_
    rw [tasks_letGo] at hnil
    simp [isOrphaned, hf, hnil]

/-- An event that is answered with a cache, and not a fault, keeps the invariant. -/
theorem answer (h : c.Sound) {e : CacheEvent} {d : Cache} (hd : c.answer e = .ok d) : d.Sound := by
  cases e with
  | add identity task response =>
    rw [answer_add] at hd
    split at hd
    · cases hd
      exact h.insert identity task response
    · cases hd
  | reference identity task =>
    rw [answer_reference] at hd
    split at hd
    · cases hd
    · next id hid =>
      cases hd
      exact h.addTask hid task
  | referenceOrAdd identity task response =>
    rw [answer_referenceOrAdd] at hd
    split at hd
    · cases hd
      exact h.insert identity task response
    · next id hid =>
      cases hd
      exact h.addTask (c.find?_of_usable? hid) task
  | removeByKey key task =>
    rw [answer_removeByKey] at hd
    split at hd
    · cases hd
    · next id _ =>
      cases hd
      exact h.release id task
  | release fetch task =>
    cases hd
    exact h.release fetch task
  | forceRemove identity =>
    cases hd
    exact h.filter_index _
  | push fetch batch =>
    cases hd
    exact h.modify_of_keepsReferences fetch (Fetch.keepsReferences_push batch)
  | settle fetch outcome =>
    cases hd
    exact h.modify_of_keepsReferences fetch (Fetch.keepsReferences_settle _)
  | turn fetch =>
    cases hd
    exact h.modify_of_keepsReferences fetch Fetch.keepsReferences_turn

/-- Every event keeps a cache sound. -/
theorem step (h : c.Sound) (e : CacheEvent) : (c.step e).Sound := by
  unfold Cache.step
  split
  · next hd => exact h.answer hd
  · exact h

/-- A cache stays sound through all events. -/
theorem after (h : c.Sound) (events : List CacheEvent) : (c.after events).Sound := by
  induction events generalizing c with
  | nil => exact h
  | cons e events ih => exact ih (h.step e)

end Sound

/-! ## What an event does to one fetch -/

end Cache

/-- The task that lets go of a fetch. -/
def CacheEvent.letsGo? : CacheEvent → Option String
  | .removeByKey _ task => some task
  | .release _ task => some task
  | _ => none

/-- What an event can make of the fetch with a number. -/
inductive Fetch.Change (n : Nat) (f : Fetch) : CacheEvent → Fetch → Prop
  | same (e : CacheEvent) : Change n f e f
  | refer (e : CacheEvent) (task : String) : Change n f e (f.addTask task)
  | letGo (e : CacheEvent) (task : String) (h : e.letsGo? = some task) :
    Change n f e (Cache.letGo task f)
  | push (batch : List Record) : Change n f (.push n batch) (f.push batch)
  | settle (outcome : Except SourceFault Unit) :
    Change n f (.settle n outcome) (f.settle (.ofOutcome outcome))
  | turn : Change n f (.turn n) f.turn

namespace Cache

/-- A change of one fetch is a change of every fetch, if it is one of that fetch. -/
theorem change_modify {c : Cache} {e : CacheEvent} {id n : Nat} {f : Fetch} {change : Fetch → Fetch}
    (h : c.fetch? n = some f) (hchange : id = n → Fetch.Change n f e (change f)) :
    ∃ g, (c.modify id change).fetch? n = some g ∧ Fetch.Change n f e g := by
  rw [fetch?_modify, h]
  by_cases hid : id = n
  · rw [if_pos hid]
    exact ⟨change f, rfl, hchange hid⟩
  · rw [if_neg hid]
    exact ⟨f, rfl, .same e⟩

/-- Starting a fetch changes none of those that are there. -/
theorem change_insert {c : Cache} {e : CacheEvent} {n : Nat} {f : Fetch} (h : c.fetch? n = some f)
    (identity : CacheIdentity) (task : String) (response : Response) :
    ∃ g, (c.insert identity task response).2.fetch? n = some g ∧ Fetch.Change n f e g := by
  have hlt : n < c.fetches.length := (List.getElem?_eq_some_iff.1 h).1
  refine ⟨f, ?_, .same e⟩
  simpa [Cache.insert, fetch?, List.getElem?_append_left hlt] using h

/-- A release changes fetches only by taking the task that lets go. -/
theorem change_release {c : Cache} {e : CacheEvent} {n : Nat} {f : Fetch} (h : c.fetch? n = some f)
    {task : String} (he : e.letsGo? = some task) (id : Nat) :
    ∃ g, (c.release id task).2.fetch? n = some g ∧ Fetch.Change n f e g := by
  rw [release_eq]
  by_cases horphan : c.isOrphaned id task = true
  · simp only [horphan, if_true]
    exact change_modify (c := c.unindex id) h fun _ => .letGo e task he
  · simp only [horphan]
    exact change_modify h fun _ => .letGo e task he

/-- A fetch stays, and an event changes it in one of the ways of `Fetch.Change`. -/
theorem fetch?_step {c : Cache} {n : Nat} {f : Fetch} (h : c.fetch? n = some f) (e : CacheEvent) :
    ∃ g, (c.step e).fetch? n = some g ∧ Fetch.Change n f e g := by
  have hkept : ∃ g, c.fetch? n = some g ∧ Fetch.Change n f e g := ⟨f, h, .same e⟩
  cases e with
  | add identity task response =>
    unfold step
    rw [answer_add]
    cases c.find? identity.key with
    | none => exact change_insert h identity task response
    | some id => exact hkept
  | reference identity task =>
    unfold step
    rw [answer_reference]
    cases c.find? identity.key with
    | none => exact hkept
    | some id => exact change_modify h fun _ => .refer _ task
  | referenceOrAdd identity task response =>
    unfold step
    rw [answer_referenceOrAdd]
    cases c.usable? identity with
    | none => exact change_insert h identity task response
    | some id => exact change_modify h fun _ => .refer _ task
  | removeByKey key task =>
    unfold step
    rw [answer_removeByKey]
    cases c.find? key with
    | none => exact hkept
    | some id => exact change_release h rfl id
  | release fetch task => exact change_release h rfl fetch
  | forceRemove identity => exact hkept
  | push fetch batch => exact change_modify h fun heq => heq ▸ .push batch
  | settle fetch outcome => exact change_modify h fun heq => heq ▸ .settle outcome
  | turn fetch => exact change_modify h fun heq => heq ▸ .turn

/-! ## Which fetches are started -/

section started

variable (c : Cache)

/-- A change that keeps identities keeps those of all fetches. -/
theorem identities_modify (id : Nat) {change : Fetch → Fetch}
    (h : ∀ f, (change f).identity = f.identity) :
    (c.modify id change).fetches.map Fetch.identity = c.fetches.map Fetch.identity := by
  refine List.ext_getElem? fun j => ?_
  simp only [modify, List.getElem?_map, List.getElem?_modify]
  cases c.fetches[j]? with
  | none => rfl
  | some f => by_cases hj : id = j <;> simp [hj, h]

/-- A release leaves all identities as they are. -/
theorem identities_release (id : Nat) (task : String) :
    (c.release id task).2.fetches.map Fetch.identity = c.fetches.map Fetch.identity := by
  rw [release_eq]
  by_cases horphan : c.isOrphaned id task = true
  · simp only [horphan, if_true]
    exact identities_modify (c.unindex id) id (identity_letGo task)
  · simp only [horphan]
    exact identities_modify c id (identity_letGo task)

/-- A task that is added leaves the identity of the fetch. -/
theorem identity_addTask (task : String) (f : Fetch) : (f.addTask task).identity = f.identity := by
  unfold Fetch.addTask
  split <;> rfl

/-- After an event the fetches are the earlier ones, each for its identity, and behind them the
one that the event starts, if it starts one. -/
theorem fetches_step (e : CacheEvent) :
    ∃ old, (c.step e).fetches = old ++ (c.started? e).toList ∧
      old.map Fetch.identity = c.fetches.map Fetch.identity := by
  have hkept : ∀ d : Cache, d.fetches.map Fetch.identity = c.fetches.map Fetch.identity →
      ∃ old, d.fetches = old ++ (none : Option Fetch).toList ∧
        old.map Fetch.identity = c.fetches.map Fetch.identity :=
    fun d hd => ⟨d.fetches, (List.append_nil _).symm, hd⟩
  cases e with
  | add identity task response =>
    cases hfind : c.find? identity.key with
    | none =>
      simp only [step, answer_add, started?, hfind, if_true]
      exact ⟨c.fetches, rfl, rfl⟩
    | some id =>
      simp only [step, answer_add, started?, hfind, reduceCtorEq, if_false]
      exact hkept c rfl
  | reference identity task =>
    unfold step
    rw [answer_reference]
    cases c.find? identity.key with
    | none => exact hkept c rfl
    | some id => exact hkept _ (identities_modify c id (identity_addTask task))
  | referenceOrAdd identity task response =>
    cases husable : c.usable? identity with
    | none =>
      simp only [step, answer_referenceOrAdd, started?, husable, if_true]
      exact ⟨c.fetches, rfl, rfl⟩
    | some id =>
      simp only [step, answer_referenceOrAdd, started?, husable, reduceCtorEq, if_false]
      exact hkept _ (identities_modify c id (identity_addTask task))
  | removeByKey key task =>
    unfold step
    rw [answer_removeByKey]
    cases c.find? key with
    | none => exact hkept c rfl
    | some id => exact hkept _ (identities_release c id task)
  | release fetch task => exact hkept _ (identities_release c fetch task)
  | forceRemove identity => exact hkept _ rfl
  | push fetch batch =>
    exact hkept _ (identities_modify c fetch (Fetch.keepsReferences_push batch).identity)
  | settle fetch outcome =>
    exact hkept _ (identities_modify c fetch (Fetch.keepsReferences_settle _).identity)
  | turn fetch => exact hkept _ (identities_modify c fetch Fetch.keepsReferences_turn.identity)

/-- An event adds a fetch exactly if it starts one. -/
theorem length_fetches_step (e : CacheEvent) :
    (c.step e).fetches.length = c.fetches.length + (c.started? e).toList.length := by
  obtain ⟨old, hfetches, hold⟩ := c.fetches_step e
  have hlength := congrArg List.length hold
  rw [List.length_map, List.length_map] at hlength
  rw [hfetches, List.length_append, hlength]

/-- The fetches after an event are those before it, changed in the ways of `Fetch.Change`, and the
one that the event starts. -/
theorem fetch?_step_cases {e : CacheEvent} {n : Nat} {g : Fetch} (h : (c.step e).fetch? n = some g) :
    (∃ f, c.fetch? n = some f ∧ Fetch.Change n f e g) ∨
      n = c.fetches.length ∧ c.started? e = some g := by
  by_cases hlt : n < c.fetches.length
  · have hf : c.fetch? n = some c.fetches[n] := List.getElem?_eq_getElem hlt
    obtain ⟨k, hk, hchange⟩ := fetch?_step hf e
    rw [h] at hk
    cases hk
    exact .inl ⟨_, hf, hchange⟩
  · have hlen : n < (c.step e).fetches.length := (List.getElem?_eq_some_iff.1 h).1
    obtain ⟨old, hfetches, hold⟩ := c.fetches_step e
    have hlength : old.length = c.fetches.length := by
      have hmap := congrArg List.length hold
      rwa [List.length_map, List.length_map] at hmap
    rw [length_fetches_step] at hlen
    cases hstarted : c.started? e with
    | none =>
      rw [hstarted, Option.toList_none, List.length_nil] at hlen
      omega
    | some f =>
      rw [hstarted, Option.toList_some, List.length_singleton] at hlen
      have hn : n = old.length := by omega
      rw [fetch?, hfetches, hstarted, Option.toList_some, hn, List.getElem?_concat_length] at h
      exact .inr ⟨by omega, h⟩

/-- After events the fetches are the earlier ones and, in order, those that the events start. -/
theorem identities_after (events : List CacheEvent) :
    (c.after events).fetches.map Fetch.identity =
      c.fetches.map Fetch.identity ++ (c.startedBy events).map Fetch.identity := by
  induction events generalizing c with
  | nil => simp [after, startedBy]
  | cons e events ih =>
    obtain ⟨old, hfetches, hold⟩ := c.fetches_step e
    have hrest := ih (c.step e)
    rw [hfetches, List.map_append, hold] at hrest
    rw [startedBy, List.map_append, ← List.append_assoc]
    exact hrest

/-- An event starts a fetch only if none for the identity can be shared: there is none under its
key, or, where a failed one may be replaced, that one has failed. -/
theorem started?_eq_some {e : CacheEvent} {f : Fetch} (h : c.started? e = some f) :
    ∃ identity task response, f = .start identity task response ∧
      (e = .add identity task response ∧ c.find? identity.key = none ∨
        e = .referenceOrAdd identity task response ∧
          ∀ id, c.find? identity.key = some id →
            ∃ g error, c.fetch? id = some g ∧ g.status = .failed error) := by
  cases e with
  | add identity task response =>
    simp only [started?] at h
    split at h
    · next hnone => exact ⟨identity, task, response, (Option.some.inj h).symm, .inl ⟨rfl, hnone⟩⟩
    · cases h
  | referenceOrAdd identity task response =>
    simp only [started?] at h
    split at h
    · next hnone =>
      refine ⟨identity, task, response, (Option.some.inj h).symm, .inr ⟨rfl, fun id hid => ?_⟩⟩
      have hany := (c.usable?_eq_none_iff identity).1 hnone id hid
      obtain ⟨g, hg, hfailed⟩ := (Option.any_eq_true _ _).1 hany
      cases hstatus : g.status with
      | failed error => exact ⟨g, error, hg, hstatus⟩
      | running | done | canceled => simp [hstatus, FetchStatus.isFailed] at hfailed
    · cases h
  | reference | removeByKey | release | forceRemove | push | settle | turn => cases h

end started

/-! ## Any run -/

/-- After any events, in any order: every indexed fetch stands under the key of its identity, has a
task that refers to it and runs; every fetch ever started is told to stop exactly when no task
refers to it; the fetches are those that events started, one each, and only where none could be
shared; and an event that is answered with a fault changes nothing. -/
theorem reference_counting (events : List CacheEvent) (e : CacheEvent) :
    let c := Cache.empty.after events
    (∀ key id, (key, id) ∈ c.index → ∃ f, c.fetch? id = some f ∧
      f.identity.key = key ∧ f.tasks ≠ [] ∧ f.cancelled = false) ∧
    (∀ f ∈ c.fetches, f.cancelled = true ↔ f.tasks = []) ∧
    (c.fetches.map Fetch.identity = (Cache.empty.startedBy events).map Fetch.identity ∧
      (∃ old, (c.step e).fetches = old ++ (c.started? e).toList ∧
        old.map Fetch.identity = c.fetches.map Fetch.identity) ∧
      ∀ f, c.started? e = some f → ∃ identity task response, f = .start identity task response ∧
        (e = .add identity task response ∧ c.find? identity.key = none ∨
          e = .referenceOrAdd identity task response ∧
            ∀ id, c.find? identity.key = some id →
              ∃ g error, c.fetch? id = some g ∧ g.status = .failed error)) ∧
    ∀ fault, c.answer e = .error fault → c.step e = c := by
  intro c
  have hsound : c.Sound := Sound.empty.after events
  refine ⟨fun key id hmem => ?_, fun f hf => ?_, ⟨?_, c.fetches_step e, fun f => c.started?_eq_some⟩,
    fun fault hfault => ?_⟩
  · obtain ⟨f, hf, hkey, hne⟩ := hsound.indexed key id hmem
    exact ⟨f, hf, hkey, hne, hsound.not_cancelled hmem hf⟩
  · obtain ⟨id, hid⟩ := c.mem_fetches_iff.1 hf
    exact hsound.cancelled_iff id f hid
  · exact Cache.empty.identities_after events
  · simp only [step, hfault]

end Cache

end LogSearch
