import LogSearch.Proofs.Cache.Progress
import LogSearch.Proofs.Engine.Events
import Mathlib.Algebra.Order.BigOperators.Group.List
import Mathlib.Algebra.Order.Ring.Nat

/-!
# The engine comes to rest

* `Task.canStep_run`: the sections of a turn are enough for a task, which then has to wait.
* `Fetch.turnsLeft`, `Engine.turnsLeft`: how many turns can still have an effect. A turn that has
  one makes them fewer.
* `Engine.canTurn_rest`: nothing can go on after `Engine.rest`, whatever the sources do.
-/

namespace LogSearch

/-! ## Sections of a task -/

namespace Task

variable (c : Cache) (buckets : Nat)

/-- The versions that a task sees depend on its parts alone. -/
theorem versions_congr {t u : Task} (h : u.subtasks = t.subtasks) :
    u.versions c = t.versions c := by
  unfold versions fetches
  rw [h]

/-- Whether all fetches of a task have ended depends on its parts alone. -/
theorem isSettled_congr {t u : Task} (h : u.subtasks = t.subtasks) :
    u.isSettled c = t.isSettled c := by
  unfold isSettled fetches
  rw [h]

/-- The rows of a task depend on its parts alone. -/
theorem mergedRows_congr {t u : Task} (h : u.subtasks = t.subtasks) :
    u.mergedRows c = t.mergedRows c := by
  unfold mergedRows fetches
  rw [h]

/-- A bound on the sections that a task does before it has to wait. -/
def sectionsLeft (t : Task) : Nat :=
  match t.phase with
  | .starting => 4
  | .waiting _ => if t.canStep c then 3 else 0
  | .computing _ seen false =>
    if !t.cancelled && !t.isSettled c && t.versions c == seen then 1 else 4
  | .computing _ _ true => 2
  | .concluding _ => 1
  | .ended | .brokenOff => 0

/-- A task with no sections left has to wait. -/
theorem canStep_of_sectionsLeft_eq_zero {t : Task} (h : t.sectionsLeft c = 0) :
    t.canStep c = false := by
  cases hphase : t.phase with
  | waiting seen => simpa [sectionsLeft, hphase] using h
  | ended | brokenOff => simp [canStep, hphase]
  | starting => simp [sectionsLeft, hphase] at h
  | concluding succeeded => simp [sectionsLeft, hphase] at h
  | computing rows seen last =>
    cases last with
    | true => simp [sectionsLeft, hphase] at h
    | false =>
      simp only [sectionsLeft, hphase] at h
      split at h <;> cases h

/-- After a wait that has just begun there is nothing to do; after an older one there may be. -/
theorem sectionsLeft_proceed (t : Task) (seen : List Nat) :
    (t.proceed c seen).sectionsLeft c ≤
      if !t.cancelled && !t.isSettled c && t.versions c == seen then 0 else 3 := by
  unfold proceed
  by_cases hsettled : t.isSettled c = true
  · by_cases hcancelled : t.cancelled = true <;> simp [sectionsLeft, hsettled, hcancelled]
  · have hwait : ({ t with phase := .waiting seen } : Task).canStep c =
        (t.cancelled || t.versions c != seen) := rfl
    rw [(Bool.not_eq_true _).mp hsettled]
    simp only [sectionsLeft, hwait, Bool.not_false, Bool.and_true, if_true]
    by_cases hcancelled : t.cancelled = true
    · simp [hcancelled]
    · by_cases hversions : t.versions c = seen <;> simp [hcancelled, hversions]

/-- A task that is about to run its pipeline before its fetches have ended has just that section
left. -/
theorem sectionsLeft_computing (t : Task) (rows : List Record) (h : t.cancelled = false)
    (hsettled : t.isSettled c = false) :
    sectionsLeft c { t with phase := .computing rows (t.versions c) false } = 1 := by
  have hversions : versions c { t with phase := .computing rows (t.versions c) false } =
      t.versions c := versions_congr c rfl
  have hsame : isSettled c { t with phase := .computing rows (t.versions c) false } =
      t.isSettled c := isSettled_congr c rfl
  unfold sectionsLeft
  rw [hversions, hsame, h, hsettled]
  simp

variable [Regex.Library] [Machine]

/-- Every section that can be done leaves fewer to do. -/
theorem sectionsLeft_step {t : Task} (h : t.canStep c = true) :
    (t.step c buckets).1.sectionsLeft c < t.sectionsLeft c := by
  obtain ⟨u, told, hstep, hsection⟩ := t.section_of_step c buckets
  rw [hstep]
  change u.sectionsLeft c < t.sectionsLeft c
  cases hsection with
  | start hphase =>
    have hleft : t.sectionsLeft c = 4 := by simp [sectionsLeft, hphase]
    have hproceed := t.sectionsLeft_proceed c (t.versions c)
    rw [hleft]
    split at hproceed <;> omega
  | stop hphase => simp [sectionsLeft, hphase, h]
  | wait hphase hcancelled hseen => simp [canStep, hphase, hcancelled, hseen] at h
  | settled hphase hcancelled hsettled =>
    simp [proceed, sectionsLeft, hphase, h, hsettled, hcancelled]
  | arrival hphase hcancelled hsettled =>
    have hleft : t.sectionsLeft c = 3 := by simp [sectionsLeft, hphase, h]
    rw [hleft, sectionsLeft_computing c t _ hcancelled hsettled]
    omega
  | @compute rows seen runEnd u told hphase hran =>
    have hsetup := hran.setup_eq
    have hsubtasks := subtasks_eq_of_setup hsetup
    have hleft : t.sectionsLeft c =
        if !t.cancelled && !t.isSettled c && t.versions c == seen then 1 else 4 := by
      simp only [sectionsLeft, hphase]
    have hproceed := u.sectionsLeft_proceed c seen
    rw [cancelled_eq_of_setup hsetup, versions_congr c hsubtasks, isSettled_congr c hsubtasks]
      at hproceed
    rw [hleft]
    split at hproceed
    · next hwaits =>
      rw [if_pos hwaits]
      omega
    · next hwaits =>
      rw [if_neg hwaits]
      omega
  | computeLast hphase => simp [sectionsLeft, hphase]
  | @breakOff rows seen last _ _ hphase =>
    cases last with
    | true => simp [sectionsLeft, hphase]
    | false =>
      simp only [sectionsLeft, hphase]
      split <;> omega
  | conclude hphase => simp [sectionsLeft, hphase, phase_conclude]
  | rest hphase => rcases hphase with hphase | hphase <;> simp [canStep, hphase] at h

/-- A run with enough sections goes on until the task has to wait. -/
theorem canStep_run_of_le (n : Nat) {t : Task} (h : t.sectionsLeft c ≤ n) :
    (t.run c buckets n).1.canStep c = false := by
  induction n generalizing t with
  | zero => exact canStep_of_sectionsLeft_eq_zero c (Nat.le_zero.1 h)
  | succ n ih =>
    unfold run
    split
    · next hcan =>
      have hless := sectionsLeft_step c buckets hcan
      exact ih (by omega)
    · next hcan => exact (Bool.not_eq_true _).mp hcan

/-- After a turn a task has to wait. -/
theorem canStep_run (t : Task) : (t.run c buckets Engine.sectionsPerTurn).1.canStep c = false := by
  refine canStep_run_of_le c buckets _ ?_
  unfold sectionsLeft Engine.sectionsPerTurn
  split
  · omega
  · split <;> omega
  · split <;> omega
  · omega
  · omega
  · omega
  · omega

end Task

/-! ## Turns of a fetch -/

namespace Fetch

/-- How many turns of the fetch can still have an effect. -/
def turnsLeft (f : Fetch) : Nat :=
  if f.status.isSettled then 0 else f.response.batches.length + 1

/-- A fetch that cannot take a turn does not change in one. -/
theorem turn_of_not_canTurn {f : Fetch} (h : f.canTurn = false) : f.turn = f := by
  unfold canTurn at h
  unfold turn
  by_cases hsettled : f.status.isSettled = true
  · rw [if_pos hsettled]
  · rw [if_neg hsettled]
    simp only [hsettled, Bool.not_false, Bool.true_and, Bool.or_eq_false_iff,
      Bool.not_eq_false'] at h
    obtain ⟨⟨hcancelled, hbatches⟩, houtcome⟩ := h
    rw [List.isEmpty_iff] at hbatches
    rw [Option.isSome_eq_false_iff, Option.isNone_iff_eq_none] at houtcome
    simp [hcancelled, hbatches, houtcome]

/-- A fetch that has ended has no turns left. -/
theorem turnsLeft_settle (f : Fetch) {status : FetchStatus} (h : status.isSettled = true) :
    (f.settle status).turnsLeft = 0 := by
  unfold settle turnsLeft
  split
  · rfl
  · refine if_pos ?_
    by_cases hcancelled : f.cancelled = true
    · simp [hcancelled, FetchStatus.isSettled]
    · simp [hcancelled, h]

/-- Every turn that a fetch can take leaves it fewer. -/
theorem turnsLeft_turn {f : Fetch} (h : f.canTurn = true) : f.turn.turnsLeft < f.turnsLeft := by
  unfold canTurn at h
  rw [Bool.and_eq_true, Bool.not_eq_true'] at h
  obtain ⟨hrunning, hcan⟩ := h
  have hleft : f.turnsLeft = f.response.batches.length + 1 := by simp [turnsLeft, hrunning]
  unfold turn
  rw [hrunning, hleft]
  by_cases hcancelled : f.cancelled = true
  · have hcanceled : (f.settle .canceled).turnsLeft = 0 := turnsLeft_settle f rfl
    simp [hcancelled, hcanceled]
  · cases hbatches : f.response.batches with
    | cons batch rest =>
      have hpush : ∀ g : Fetch, (g.push batch).status = g.status ∧
          (g.push batch).response = g.response := by
        intro g
        unfold push
        split <;> exact ⟨rfl, rfl⟩
      simp [hcancelled, turnsLeft, hpush, hrunning]
    | nil =>
      cases houtcome : f.response.outcome with
      | none => simp [hcancelled, hbatches, houtcome] at hcan
      | some outcome =>
        simp [hcancelled, turnsLeft_settle f (isSettled_ofOutcome outcome)]

/-- No turn leaves a fetch more turns than before. -/
theorem turnsLeft_turn_le (f : Fetch) : f.turn.turnsLeft ≤ f.turnsLeft := by
  by_cases h : f.canTurn = true
  · exact Nat.le_of_lt (turnsLeft_turn h)
  · rw [turn_of_not_canTurn ((Bool.not_eq_true _).mp h)]

end Fetch

/-! ## Turns of everything -/

namespace Cache

/-- How many turns of fetches can still have an effect. -/
def turnsLeft (c : Cache) : Nat := (c.fetches.map Fetch.turnsLeft).sum

/-- A cache of which no fetch can take a turn does not change in one. -/
theorem turn_of_not_canTurn {c : Cache} (h : c.canTurn = false) : c.turn = c := by
  unfold canTurn at h
  rw [List.any_eq_false] at h
  have hsame : c.fetches.map Fetch.turn = c.fetches := by
    refine (List.map_congr_left fun f hf => ?_).trans (List.map_id _)
    exact Fetch.turn_of_not_canTurn ((Bool.not_eq_true _).mp (h f hf))
  unfold turn
  rw [hsame]

/-- Every turn with an effect leaves the fetches of a cache fewer turns. -/
theorem turnsLeft_turn {c : Cache} (h : c.canTurn = true) : c.turn.turnsLeft < c.turnsLeft := by
  unfold canTurn at h
  obtain ⟨f, hf, hcan⟩ := List.any_eq_true.1 h
  unfold turnsLeft turn
  rw [List.map_map]
  exact List.sum_lt_sum _ _ (fun g _ => g.turnsLeft_turn_le) ⟨f, hf, Fetch.turnsLeft_turn hcan⟩

end Cache

namespace Engine

/-- How many turns can still have an effect: those of the fetches, and one for the tasks. -/
def turnsLeft (e : Engine) : Nat :=
  e.cache.turnsLeft + if (e.tasks.any fun t => t.canStep e.cache) = true then 1 else 0

variable [Regex.Library] [Machine]

/-- Every turn with an effect leaves an engine fewer turns. -/
theorem turnsLeft_turn {e : Engine} (h : e.canTurn = true) : e.turn.turnsLeft < e.turnsLeft := by
  have hwait : (e.turn.tasks.any fun t => t.canStep e.turn.cache) = false := by
    simp [turn, runTasks, Task.canStep_run]
  have hturn : e.turn.turnsLeft = e.cache.turn.turnsLeft := by
    rw [turnsLeft, hwait]
    rfl
  rw [hturn]
  unfold turnsLeft
  unfold canTurn at h
  by_cases hcache : e.cache.canTurn = true
  · have hless := Cache.turnsLeft_turn hcache
    omega
  · rw [Cache.turn_of_not_canTurn ((Bool.not_eq_true _).mp hcache)]
    rw [(Bool.not_eq_true _).mp hcache, Bool.false_or] at h
    rw [if_pos h]
    omega

/-- Enough turns come to an end. -/
theorem canTurn_turns (fuel : Nat) {e : Engine} (h : e.turnsLeft ≤ fuel) :
    (turns fuel e).canTurn = false := by
  induction fuel generalizing e with
  | zero =>
    rw [turns]
    by_contra hcan
    have hless := turnsLeft_turn ((Bool.not_eq_false _).mp hcan)
    omega
  | succ fuel ih =>
    unfold turns
    split
    · next hcan =>
      have hless := turnsLeft_turn hcan
      exact ih (by omega)
    · next hcan => exact (Bool.not_eq_true _).mp hcan

omit [Regex.Library] [Machine] in
/-- The bound on turns is one. -/
theorem turnsLeft_le_turnBound (e : Engine) : e.turnsLeft ≤ e.turnBound := by
  have hsum : ∀ (fetches : List Fetch) (n : Nat),
      n + (fetches.map Fetch.turnsLeft).sum ≤
        fetches.foldl (fun n f => n + f.response.batches.length + 3) n := by
    intro fetches
    induction fetches with
    | nil => simp
    | cons f fetches ih =>
      intro n
      have hleft : f.turnsLeft ≤ f.response.batches.length + 1 := by
        unfold Fetch.turnsLeft
        split <;> omega
      have hrest := ih (n + f.response.batches.length + 3)
      rw [List.map_cons, List.sum_cons, List.foldl_cons]
      omega
  have hbound := hsum e.cache.fetches 3
  unfold turnsLeft turnBound Cache.turnsLeft
  split <;> omega

/-- The bound on turns is high enough: afterwards nothing can go on. -/
theorem canTurn_rest (e : Engine) : e.rest.canTurn = false :=
  canTurn_turns e.turnBound (turnsLeft_le_turnBound e)

end Engine

end LogSearch
