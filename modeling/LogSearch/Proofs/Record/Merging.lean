import LogSearch.Proofs.Sorting
import LogSearch.Record

/-!
# Sorting and merging by time

Lists with the latest record first can differ only in the order of records of one time. Sorting keeps
that order, and merging takes the records of one time from the first list before those from the
second. So it does not matter where a list is cut before its parts are sorted and merged.

* `LatestFirst`, `atTime`: the order of time, and the records of one time.
* `LatestFirst.eq_of_atTime`: a list with the latest first is known from the records of each time.
* `mergeByTime_sortByTime`: merging two sorted lists is sorting them one behind the other.
* `foldr_mergeByTime_sortByTime`: so it is for any number of lists, merged one into the other.
* `mergeByTime_assoc`: in which order that is done does not matter, whether they are sorted or not.
-/

namespace LogSearch

/-- The order of records by time is transitive. -/
theorem notEarlier_trans (a b c : Record) (hab : notEarlier a b = true) (hbc : notEarlier b c = true) :
    notEarlier a c = true := by
  unfold notEarlier at *
  rw [decide_eq_true_eq] at *
  exact Int.le_trans hbc hab

/-- Of two records one is not earlier than the other. -/
theorem notEarlier_total (a b : Record) : (notEarlier a b || notEarlier b a) = true := by
  unfold notEarlier
  rw [Bool.or_eq_true, decide_eq_true_eq, decide_eq_true_eq]
  exact Int.le_total _ _

/-- No record stands before a later one. -/
def LatestFirst (rows : List Record) : Prop := rows.Pairwise fun a b => notEarlier a b = true

/-- The records of one time. -/
def atTime (time : Int) (rows : List Record) : List Record := rows.filter fun r => timeKey r = time

/-- The records of one time are taken from both parts. -/
theorem atTime_append (time : Int) (rows more : List Record) :
    atTime time (rows ++ more) = atTime time rows ++ atTime time more := List.filter_append ..

/-- The first record is one of its own time only. -/
theorem atTime_cons (time : Int) (r : Record) (rows : List Record) :
    atTime time (r :: rows) = (if timeKey r = time then [r] else []) ++ atTime time rows := by
  unfold atTime
  by_cases h : timeKey r = time <;> simp [h]

/-! ## Lists with the latest first -/

/-- The first record is one of the latest. -/
theorem LatestFirst.timeKey_le {a r : Record} {rows : List Record} (h : LatestFirst (a :: rows))
    (hr : r ∈ rows) : timeKey r ≤ timeKey a := of_decide_eq_true (List.rel_of_pairwise_cons h hr)

/-- Lists with the latest first are the same if the records of each time are. -/
theorem LatestFirst.eq_of_atTime {as bs : List Record} (ha : LatestFirst as) (hb : LatestFirst bs)
    (h : ∀ time, atTime time as = atTime time bs) : as = bs := by
  refine eq_of_filter_alike notEarlier_total ha hb fun a => ?_
  have halike : alike notEarlier a = fun r => decide (timeKey r = timeKey a) := by
    funext r
    rw [Bool.eq_iff_iff, alike_iff, decide_eq_true_iff]
    unfold notEarlier
    rw [decide_eq_true_iff, decide_eq_true_iff]
    omega
  rw [halike]
  exact h (timeKey a)

/-! ## Sorting -/

/-- Sorting leaves no record before a later one. -/
theorem latestFirst_sortByTime (rows : List Record) : LatestFirst (sortByTime rows) :=
  List.pairwise_mergeSort notEarlier_trans notEarlier_total rows

/-- Sorting leaves the records of one time in their order. -/
theorem atTime_sortByTime (time : Int) (rows : List Record) :
    atTime time (sortByTime rows) = atTime time rows := by
  refine filter_mergeSort notEarlier_trans notEarlier_total (fun a b ha hb => ?_) rows
  unfold notEarlier
  rw [of_decide_eq_true ha, of_decide_eq_true hb]
  exact decide_eq_true (Int.le_refl _)

/-! ## Merging -/

/-- Merging two such lists gives one. -/
theorem LatestFirst.mergeByTime {as bs : List Record} (ha : LatestFirst as) (hb : LatestFirst bs) :
    LatestFirst (mergeByTime as bs) :=
  List.pairwise_merge notEarlier_trans notEarlier_total as bs ha hb

/-- Of the records of one time, those of the first list come first. -/
theorem atTime_mergeByTime (time : Int) {as bs : List Record} (ha : LatestFirst as)
    (hb : LatestFirst bs) :
    atTime time (mergeByTime as bs) = atTime time as ++ atTime time bs := by
  unfold LogSearch.mergeByTime
  induction as generalizing bs with
  | nil => rw [List.nil_merge]; rfl
  | cons a as iha =>
    induction bs with
    | nil => rw [List.merge_right]; exact (List.append_nil _).symm
    | cons b bs ihb =>
      rw [List.cons_merge_cons]
      split
      · rw [atTime_cons, atTime_cons, iha (List.Pairwise.of_cons ha) hb, List.append_assoc]
      · next hlater =>
        rw [atTime_cons, atTime_cons time b, ihb (List.Pairwise.of_cons hb)]
        by_cases htime : timeKey b = time
        -- a record that overtakes the first list is later than all of it
        · have hnone : atTime time (a :: as) = [] := by
            refine List.filter_eq_nil_iff.2 fun r hr heq => hlater (decide_eq_true ?_)
            rw [htime, ← of_decide_eq_true heq]
            rcases List.mem_cons.1 hr with rfl | hr
            · exact Int.le_refl _
            · exact ha.timeKey_le hr
          rw [hnone, List.nil_append, List.nil_append]
        · rw [if_neg htime, List.nil_append, List.nil_append]

/-- Merging two sorted lists is sorting them one behind the other. -/
theorem mergeByTime_sortByTime (as bs : List Record) :
    mergeByTime (sortByTime as) (sortByTime bs) = sortByTime (as ++ bs) := by
  have ha := latestFirst_sortByTime as
  have hb := latestFirst_sortByTime bs
  refine (ha.mergeByTime hb).eq_of_atTime (latestFirst_sortByTime _) fun time => ?_
  rw [atTime_mergeByTime time ha hb, atTime_sortByTime, atTime_sortByTime, atTime_sortByTime,
    atTime_append]

/-- Merging sorted lists one into the other is sorting them one behind the other. -/
theorem foldr_mergeByTime_sortByTime (lists : List (List Record)) :
    (lists.map sortByTime).foldr mergeByTime [] = sortByTime lists.flatten := by
  induction lists with
  | nil => exact List.mergeSort_nil.symm
  | cons rows lists ih =>
    rw [List.map_cons, List.foldr_cons, ih, mergeByTime_sortByTime, List.flatten_cons]

/-! ## Merging lists in any order -/

/-- The first record of the left list comes first unless it is earlier. -/
theorem mergeByTime_cons_of_notEarlier {a b : Record} (as bs : List Record)
    (h : notEarlier a b = true) :
    mergeByTime (a :: as) (b :: bs) = a :: mergeByTime as (b :: bs) := by
  unfold mergeByTime
  rw [List.cons_merge_cons, if_pos h]

/-- The first record of the right list comes first if it is later. -/
theorem mergeByTime_cons_of_earlier {a b : Record} (as bs : List Record)
    (h : notEarlier a b = false) :
    mergeByTime (a :: as) (b :: bs) = b :: mergeByTime (a :: as) bs := by
  unfold mergeByTime
  rw [List.cons_merge_cons, if_neg (Bool.eq_false_iff.1 h)]

/-- The first record comes first if none of the other list is later. -/
theorem mergeByTime_cons_left {a : Record} (as : List Record) {bs : List Record}
    (h : ∀ b ∈ bs.head?, notEarlier a b = true) :
    mergeByTime (a :: as) bs = a :: mergeByTime as bs := by
  cases bs with
  | nil => rw [mergeByTime, mergeByTime, List.merge_right, List.merge_right]
  | cons b bs => exact mergeByTime_cons_of_notEarlier as bs (h b rfl)

/-- The first record of the second list comes first if it is later than the other list. -/
theorem mergeByTime_cons_right {as : List Record} {b : Record} (bs : List Record)
    (h : ∀ a ∈ as.head?, notEarlier a b = false) :
    mergeByTime as (b :: bs) = b :: mergeByTime as bs := by
  cases as with
  | nil => rw [mergeByTime, mergeByTime, List.nil_merge, List.nil_merge]
  | cons a as => exact mergeByTime_cons_of_earlier as bs (h a rfl)

/-- What comes first was first in one of the lists. -/
theorem head?_mergeByTime {as bs : List Record} {r : Record} (h : r ∈ (mergeByTime as bs).head?) :
    r ∈ as.head? ∨ r ∈ bs.head? := by
  unfold mergeByTime at h
  cases as with
  | nil => rw [List.nil_merge] at h; exact .inr h
  | cons a as =>
    cases bs with
    | nil => rw [List.merge_right] at h; exact .inl h
    | cons b bs =>
      rw [List.cons_merge_cons] at h
      split at h
      · exact .inl h
      · exact .inr h

/-- Of three lists it does not matter which two are merged first. -/
theorem mergeByTime_assoc (as bs cs : List Record) :
    mergeByTime (mergeByTime as bs) cs = mergeByTime as (mergeByTime bs cs) :=
  match as, bs, cs with
  | [], bs, cs => by simp only [mergeByTime, List.nil_merge]
  | a :: as, [], cs => by simp only [mergeByTime, List.nil_merge, List.merge_right]
  | a :: as, b :: bs, [] => by simp only [mergeByTime, List.merge_right]
  | a :: as, b :: bs, c :: cs => by
    by_cases hc : notEarlier a c = false ∧ notEarlier b c = false
    · have hfirst : ∀ r ∈ (mergeByTime (a :: as) (b :: bs)).head?, notEarlier r c = false := by
        intro r hr
        rcases head?_mergeByTime hr with hr | hr <;> cases hr
        · exact hc.1
        · exact hc.2
      rw [mergeByTime_cons_right cs hfirst, mergeByTime_assoc (a :: as) (b :: bs) cs,
        mergeByTime_cons_of_earlier bs cs hc.2, mergeByTime_cons_of_earlier as _ hc.1]
    by_cases hab : notEarlier a b = true
    · have hac : notEarlier a c = true := by
        cases hac : notEarlier a c with
        | true => rfl
        | false =>
          have hbc : notEarlier b c = true := by simpa [hac] using hc
          rw [← hac, notEarlier_trans a b c hab hbc]
      have hfirst : ∀ r ∈ (mergeByTime (b :: bs) (c :: cs)).head?, notEarlier a r = true := by
        intro r hr
        rcases head?_mergeByTime hr with hr | hr <;> cases hr
        · exact hab
        · exact hac
      rw [mergeByTime_cons_left as hfirst, ← mergeByTime_assoc as (b :: bs) (c :: cs),
        mergeByTime_cons_of_notEarlier as bs hab, mergeByTime_cons_of_notEarlier _ cs hac]
    · rw [Bool.not_eq_true] at hab
      have hba : notEarlier b a = true := by simpa [hab] using notEarlier_total a b
      have hbc : notEarlier b c = true := by
        cases hbc : notEarlier b c with
        | true => rfl
        | false =>
          have hac : notEarlier a c = true := by simpa [hbc] using hc
          rw [← hbc, notEarlier_trans b a c hba hac]
      rw [mergeByTime_cons_of_earlier as bs hab, mergeByTime_cons_of_notEarlier _ cs hbc,
        mergeByTime_assoc (a :: as) bs (c :: cs), mergeByTime_cons_of_notEarlier bs cs hbc,
        mergeByTime_cons_of_earlier as _ hab]
termination_by as.length + bs.length + cs.length

instance : Std.Associative mergeByTime := ⟨mergeByTime_assoc⟩

instance : Std.LawfulIdentity mergeByTime [] where
  left_id rows := List.nil_merge rows
  right_id rows := List.merge_right rows

/-- Merging lists one into the other from the last one on is merging them from the first one on. -/
theorem foldr_mergeByTime (lists : List (List Record)) :
    lists.foldr mergeByTime [] = lists.foldl mergeByTime [] := List.foldr_eq_foldl

end LogSearch
