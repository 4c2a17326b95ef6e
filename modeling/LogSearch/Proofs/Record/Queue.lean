import LogSearch.Proofs.Record.Merging
import Mathlib.Data.List.Induction

/-!
# Merging many lists through a queue

The queue holds, for each list that is not used up, its next record. What comes out of it is what
merging the lists one into the other gives, whether they are sorted or not. So it does not matter
which of the ways is taken for how many lists.

* `Interleaves`: records are taken from the heads of lists until nothing is left.
* `MergeQueue.Holds`: the queue holds just what is left of the lists, in the order of leaving it.
* `MergeQueue.Holds.drain`, `MergeQueue.Holds.interleaves`: what draining such a queue gives.
* `mergeAllByTime_interleaves`: merging any number of lists, on every way.
-/

namespace LogSearch

/-! ## Interleavings -/

/-- Elements are taken from the heads of lists, one after the other, until all lists are empty. -/
inductive Interleaves {α : Type} : List (List α) → List α → Prop
  | done {lists : List (List α)} (hempty : ∀ rows ∈ lists, rows = []) : Interleaves lists []
  | take {lists : List (List α)} (i : Nat) {a : α} {rest out : List α}
      (hhead : lists[i]? = some (a :: rest)) (hout : Interleaves (lists.set i rest) out) :
      Interleaves lists (a :: out)

namespace Interleaves

variable {α : Type} {lists : List (List α)} {out : List α}

/-- Every element is taken exactly once. -/
theorem perm (h : Interleaves lists out) : out.Perm lists.flatten := by
  induction h with
  | done hempty => rw [List.flatten_eq_nil_iff.2 hempty]
  | @take lists i a rest out hhead _ ih =>
    obtain ⟨hi, hat⟩ := List.getElem?_eq_some_iff.1 hhead
    have hsplit : lists = lists.take i ++ (a :: rest) :: lists.drop (i + 1) := by
      rw [← hat, ← List.drop_eq_getElem_cons hi, List.take_append_drop]
    rw [List.set_eq_take_append_cons_drop, if_pos hi] at ih
    rw [hsplit]
    simp only [List.flatten_append, List.flatten_cons, List.cons_append] at ih ⊢
    exact (ih.cons a).trans List.perm_middle.symm

/-- The elements of each list keep their order. -/
theorem sublist (h : Interleaves lists out) {rows : List α} (hrows : rows ∈ lists) :
    rows.Sublist out := by
  have hat : ∀ j : Nat, ∀ rows, lists[j]? = some rows → rows.Sublist out := by
    clear hrows
    induction h with
    | done hempty =>
      intro j rows hj
      obtain rfl := hempty rows (List.mem_of_getElem? hj)
      exact List.nil_sublist _
    | @take lists i a rest out hhead _ ih =>
      intro j rows hj
      by_cases hij : i = j
      · subst hij
        obtain rfl := Option.some.inj (hj.symm.trans hhead)
        have hi := (List.getElem?_eq_some_iff.1 hhead).1
        exact (ih i rest (List.getElem?_set_self hi)).cons_cons a
      · exact (ih j rows ((List.getElem?_set_ne hij).trans hj)).cons a
  obtain ⟨j, hj⟩ := List.mem_iff_getElem?.1 hrows
  exact hat j rows hj

end Interleaves

/-! ## The order of leaving the queue -/

namespace Remainder

variable {a b c : Remainder}

/-- The later record precedes, and of two at one time the one of the first list. -/
theorem precedes_iff : a.precedes b = true ↔
    timeKey b.next < timeKey a.next ∨ timeKey a.next = timeKey b.next ∧ a.list < b.list := by
  simp [precedes]

/-- The order of remainders is transitive. -/
theorem precedes_trans (hab : a.precedes b = true) (hbc : b.precedes c = true) :
    a.precedes c = true := by
  rw [precedes_iff] at *
  omega

/-- Of what is left of two lists, one precedes the other. -/
theorem precedes_of_not (h : ¬a.precedes b = true) (hlist : a.list ≠ b.list) :
    b.precedes a = true := by
  rw [precedes_iff] at *
  omega

end Remainder

namespace MergeQueue

/-- A queue with one more remainder holds just that one besides. -/
theorem mem_push {r s : Remainder} {queue : MergeQueue} :
    s ∈ push r queue ↔ s = r ∨ s ∈ queue := by
  induction queue with
  | nil => simp [push]
  | cons other queue ih =>
    unfold push
    split
    · exact List.mem_cons
    · rw [List.mem_cons, ih, List.mem_cons, or_left_comm]

/-- What comes in finds its place. -/
theorem pairwise_push {r : Remainder} {queue : MergeQueue}
    (h : queue.Pairwise fun a b => a.precedes b = true) (hlist : ∀ s ∈ queue, s.list ≠ r.list) :
    (push r queue).Pairwise fun a b => a.precedes b = true := by
  induction queue with
  | nil => exact List.pairwise_singleton _ _
  | cons other queue ih =>
    have ⟨hother, hqueue⟩ := List.pairwise_cons.1 h
    have hne := hlist other List.mem_cons_self
    unfold push
    split
    · next hfirst =>
      refine List.pairwise_cons.2 ⟨fun s hs => ?_, h⟩
      rcases List.mem_cons.1 hs with rfl | hs
      · exact hfirst
      · exact Remainder.precedes_trans hfirst (hother s hs)
    · next hlater =>
      refine List.pairwise_cons.2
        ⟨fun s hs => ?_, ih hqueue fun s hs => hlist s (List.mem_cons_of_mem _ hs)⟩
      rcases mem_push.1 hs with rfl | hs
      · exact Remainder.precedes_of_not hlater hne.symm
      · exact hother s hs

/-! ## What the queue holds -/

/-- The queue holds what is left of the lists, each remainder before those that it precedes. -/
structure Holds (queue : MergeQueue) (lists : List (List Record)) : Prop where
  ordered : queue.Pairwise fun a b => a.precedes b = true
  mem_iff : ∀ r, r ∈ queue ↔ lists[r.list]? = some (r.next :: r.behind)

namespace Holds

variable {queue : MergeQueue} {lists : List (List Record)}

/-- A list that was used up gets new records. -/
theorem pushRows (h : queue.Holds lists) {i : Nat} (hi : lists[i]? = some []) (rows : List Record) :
    (queue.pushRows i rows).Holds (lists.set i rows) := by
  have hlist : ∀ s ∈ queue, s.list ≠ i := by
    intro s hs heq
    have hat := (h.mem_iff s).1 hs
    rw [heq, hi] at hat
    cases hat
  have hlt : i < lists.length := (List.getElem?_eq_some_iff.1 hi).1
  have hself : (lists.set i rows)[i]? = some rows := List.getElem?_set_self hlt
  cases rows with
  | nil =>
    refine ⟨h.ordered, fun r => ?_⟩
    by_cases hr : i = r.list
    · rw [← hr, hself]
      refine ⟨fun hmem => absurd hr.symm (hlist r hmem), fun hat => ?_⟩
      cases hat
    · rw [List.getElem?_set_ne hr]
      exact h.mem_iff r
  | cons next behind =>
    refine ⟨pairwise_push h.ordered hlist, fun r => mem_push.trans ?_⟩
    by_cases hr : i = r.list
    · rw [← hr, hself]
      constructor
      · rintro (rfl | hmem)
        · rfl
        · exact absurd hr.symm (hlist r hmem)
      · intro hat
        obtain ⟨rfl, rfl⟩ := List.cons.inj (Option.some.inj hat)
        exact .inl (by rw [hr])
    · rw [List.getElem?_set_ne hr, ← h.mem_iff r]
      exact or_iff_right fun heq => hr (heq ▸ rfl)

/-- The queue of all lists holds them. -/
theorem ofLists (lists : List (List Record)) : (MergeQueue.ofLists lists).Holds lists := by
  induction lists using List.reverseRecOn with
  | nil => exact ⟨List.Pairwise.nil, fun r => by simp [MergeQueue.ofLists]⟩
  | append_singleton lists rows ih =>
    have hmore : (MergeQueue.ofLists lists).Holds (lists ++ [[]]) := by
      refine ⟨ih.ordered, fun r => (ih.mem_iff r).trans ?_⟩
      by_cases hr : r.list < lists.length
      · rw [List.getElem?_append_left hr]
      · rw [List.getElem?_append_right (Nat.le_of_not_lt hr), List.getElem?_eq_none (by omega)]
        constructor
        · intro hat
          cases hat
        · intro hat
          rw [List.getElem?_singleton] at hat
          split at hat <;> cases hat
    have hpushed := hmore.pushRows List.getElem?_concat_length rows
    rw [List.set_append_right _ _ (Nat.le_refl _), Nat.sub_self, List.set_cons_zero] at hpushed
    have hlast : MergeQueue.ofLists (lists ++ [rows]) =
        (MergeQueue.ofLists lists).pushRows lists.length rows := by
      simp [MergeQueue.ofLists, List.zipIdx_append]
    rwa [hlast]

variable {r : Remainder}

/-- The remainder at the head is left of its list. -/
theorem head (h : MergeQueue.Holds (r :: queue) lists) :
    lists[r.list]? = some (r.next :: r.behind) := (h.mem_iff r).1 List.mem_cons_self

/-- The record at the head is one of the latest, and later than all of the lists before its own. -/
theorem latest (h : MergeQueue.Holds (r :: queue) lists) {j : Nat} {b : Record} {bs : List Record}
    (hj : lists[j]? = some (b :: bs)) :
    timeKey b ≤ timeKey r.next ∧ (j < r.list → timeKey b < timeKey r.next) := by
  rcases List.mem_cons.1 ((h.mem_iff ⟨j, b, bs⟩).2 hj) with rfl | hmem
  · exact ⟨Int.le_refl _, fun hlt => absurd hlt (Nat.lt_irrefl _)⟩
  · have hprecedes := Remainder.precedes_iff.1 (List.rel_of_pairwise_cons h.ordered hmem)
    dsimp only at hprecedes
    omega

/-- Once the record at the head has been taken out, the queue holds what is left. -/
theorem advance (h : MergeQueue.Holds (r :: queue) lists) :
    (MergeQueue.pushRows r.list r.behind queue).Holds (lists.set r.list r.behind) := by
  have hlt := (List.getElem?_eq_some_iff.1 h.head).1
  have ⟨hfirst, hordered⟩ := List.pairwise_cons.1 h.ordered
  have hrest : MergeQueue.Holds queue (lists.set r.list []) := by
    refine ⟨hordered, fun s => ?_⟩
    by_cases hs : r.list = s.list
    · rw [← hs, List.getElem?_set_self hlt]
      refine ⟨fun hmem => ?_, fun hat => by cases hat⟩
      have hat := (h.mem_iff s).1 (List.mem_cons_of_mem _ hmem)
      rw [← hs, h.head] at hat
      have hprecedes := Remainder.precedes_iff.1 (hfirst s hmem)
      rw [← hs, (List.cons.inj (Option.some.inj hat)).1] at hprecedes
      omega
    · rw [List.getElem?_set_ne hs, ← h.mem_iff s, List.mem_cons]
      exact (or_iff_right fun (heq : s = r) => hs (heq ▸ rfl)).symm
  have hpushed := hrest.pushRows (List.getElem?_set_self hlt) r.behind
  rwa [List.set_set] at hpushed

/-- If the queue is empty, so are the lists. -/
theorem eq_nil (h : MergeQueue.Holds [] lists) : ∀ rows ∈ lists, rows = [] := by
  intro rows hrows
  obtain ⟨j, hj⟩ := List.mem_iff_getElem?.1 hrows
  cases rows with
  | nil => rfl
  | cons b bs => exact absurd ((h.mem_iff ⟨j, b, bs⟩).2 hj) List.not_mem_nil

end Holds

end MergeQueue

/-! ## What comes out of the queue -/

/-- Nothing comes of merging empty lists. -/
theorem foldr_mergeByTime_of_empty {lists : List (List Record)} (h : ∀ rows ∈ lists, rows = []) :
    lists.foldr mergeByTime [] = [] := by
  induction lists with
  | nil => rfl
  | cons rows lists ih =>
    rw [List.foldr_cons, ih fun rows hrows => h rows (List.mem_cons_of_mem _ hrows),
      h rows List.mem_cons_self]
    exact List.merge_right []

/-- What comes first is first in one of the lists. -/
theorem head?_foldr_mergeByTime {lists : List (List Record)} {r : Record}
    (h : r ∈ (lists.foldr mergeByTime []).head?) :
    ∃ (j : Nat) (rows : List Record), lists[j]? = some (r :: rows) := by
  induction lists with
  | nil => cases h
  | cons rows lists ih =>
    rcases head?_mergeByTime h with hr | hr
    · obtain ⟨rest, rfl⟩ := List.head?_eq_some_iff.1 hr
      exact ⟨0, rest, rfl⟩
    · obtain ⟨j, rest, hj⟩ := ih hr
      exact ⟨j + 1, rest, hj⟩

/-- Merging lists one into the other takes first what is latest; of equal times what is in the
earliest list. -/
theorem foldr_mergeByTime_of_latest {lists : List (List Record)} {i : Nat} {a : Record}
    {rest : List Record} (hi : lists[i]? = some (a :: rest))
    (hlatest : ∀ (j : Nat) (b : Record) (bs : List Record), lists[j]? = some (b :: bs) →
      timeKey b ≤ timeKey a ∧ (j < i → timeKey b < timeKey a)) :
    lists.foldr mergeByTime [] = a :: (lists.set i rest).foldr mergeByTime [] := by
  induction lists generalizing i with
  | nil => cases hi
  | cons rows lists ih =>
    cases i with
    | zero =>
      obtain rfl := Option.some.inj hi
      refine mergeByTime_cons_left rest fun b hb => decide_eq_true ?_
      obtain ⟨j, bs, hj⟩ := head?_foldr_mergeByTime hb
      exact (hlatest (j + 1) b bs hj).1
    | succ i =>
      have hrest := ih hi fun j b bs hj =>
        ⟨(hlatest (j + 1) b bs hj).1, fun hlt => (hlatest (j + 1) b bs hj).2 (Nat.succ_lt_succ hlt)⟩
      rw [List.foldr_cons, hrest]
      refine mergeByTime_cons_right _ fun b hb => decide_eq_false ?_
      obtain ⟨bs, rfl⟩ := List.head?_eq_some_iff.1 hb
      exact Int.not_le.2 ((hlatest 0 b bs rfl).2 (Nat.succ_pos i))

namespace MergeQueue

/-- Draining the queue takes records from the heads of the lists. -/
theorem Holds.interleaves {queue : MergeQueue} {lists : List (List Record)}
    (h : queue.Holds lists) : Interleaves lists queue.drain := by
  induction queue using drain.induct generalizing lists with
  | case1 =>
    rw [drain]
    exact .done h.eq_nil
  | case2 r queue ih =>
    rw [drain]
    exact .take r.list h.head (ih h.advance)

/-- Draining the queue gives what merging the lists one into the other gives. -/
theorem Holds.drain {queue : MergeQueue} {lists : List (List Record)} (h : queue.Holds lists) :
    queue.drain = lists.foldr mergeByTime [] := by
  induction queue using drain.induct generalizing lists with
  | case1 => rw [MergeQueue.drain, foldr_mergeByTime_of_empty h.eq_nil]
  | case2 r queue ih =>
    rw [MergeQueue.drain, ih h.advance, foldr_mergeByTime_of_latest h.head fun _ _ _ => h.latest]

end MergeQueue

/-! ## Any number of lists -/

/-- Whatever the number of lists, they are merged one into the other. -/
theorem mergeAllByTime_eq_foldr (lists : List (List Record)) :
    mergeAllByTime lists = lists.foldr mergeByTime [] :=
  match lists with
  | [] => rfl
  | [rows] => (List.merge_right rows).symm
  | [as, bs] => congrArg (mergeByTime as) (List.merge_right bs).symm
  | as :: bs :: cs :: lists => (MergeQueue.Holds.ofLists (as :: bs :: cs :: lists)).drain

/-- Merging takes each record of each list once. -/
theorem mergeAllByTime_perm (lists : List (List Record)) :
    (mergeAllByTime lists).Perm lists.flatten := by
  have hqueue := MergeQueue.Holds.ofLists lists
  rw [mergeAllByTime_eq_foldr, ← hqueue.drain]
  exact hqueue.interleaves.perm

/-- Merging sorted lists is sorting them one behind the other. -/
theorem mergeAllByTime_sortByTime (lists : List (List Record)) :
    mergeAllByTime (lists.map sortByTime) = sortByTime lists.flatten := by
  rw [mergeAllByTime_eq_foldr, foldr_mergeByTime_sortByTime]

/-- A list with the latest record first is sorted already. -/
theorem sortByTime_eq_self {rows : List Record} (h : LatestFirst rows) : sortByTime rows = rows :=
  List.mergeSort_of_pairwise h

/-- Any number of lists are merged to an interleaving of them, the same on all ways: through the
queue, and merging two at a time from either end. It is the stable sort of the lists one behind the
other exactly if each of them has the latest first. -/
theorem mergeAllByTime_interleaves (lists : List (List Record)) :
    Interleaves lists (mergeAllByTime lists) ∧
    (MergeQueue.ofLists lists).drain = mergeAllByTime lists ∧
    lists.foldl mergeByTime [] = mergeAllByTime lists ∧
    lists.foldr mergeByTime [] = mergeAllByTime lists ∧
    (mergeAllByTime lists = sortByTime lists.flatten ↔ ∀ rows ∈ lists, LatestFirst rows) := by
  have hqueue := MergeQueue.Holds.ofLists lists
  have hdrain : (MergeQueue.ofLists lists).drain = mergeAllByTime lists := by
    rw [hqueue.drain, mergeAllByTime_eq_foldr]
  have hinterleaves : Interleaves lists (mergeAllByTime lists) := hdrain ▸ hqueue.interleaves
  refine ⟨hinterleaves, hdrain, ?_, (mergeAllByTime_eq_foldr lists).symm, fun heq rows hrows => ?_,
    fun hsorted => ?_⟩
  · rw [← foldr_mergeByTime, mergeAllByTime_eq_foldr]
  · have hsublist := hinterleaves.sublist hrows
    rw [heq] at hsublist
    exact (latestFirst_sortByTime lists.flatten).sublist hsublist
  · have hmap : lists.map sortByTime = lists := by
      conv => rhs; rw [← List.map_id lists]
      exact List.map_congr_left fun rows hrows => sortByTime_eq_self (hsorted rows hrows)
    rw [← mergeAllByTime_sortByTime, hmap]

end LogSearch
