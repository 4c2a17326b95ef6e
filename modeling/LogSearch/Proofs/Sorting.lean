import Mathlib.Data.List.Sort

/-!
# Stable sorting

A sort leaves items that it need not tell apart in their order. A list that is in order is known from
that: it is the only one in order in which the items that are alike stand as they do in it.

* `trans_decide`, `total_decide`: what a relation must be for its test to be sorted by.
* `filter_mergeSort`: items that need not be told apart keep their order.
* `eq_of_filter_alike`: lists in order are equal if what is alike stands in them in the same order.
* `mergeSort_eq_of_filter_alike`: so sorting is told by what it keeps.
* `mergeSort_filter`: leaving items out and sorting may be done in either order.
* `pairwise_mergeSort_of_alike`: what holds of items in their order holds behind a sort of those alike.
-/

namespace LogSearch

variable {α : Type} {le : α → α → Bool}

/-! ## Relations as tests -/

section

variable {r : α → α → Prop} [DecidableRel r]

/-- A transitive relation is so as a test. -/
theorem trans_decide (h : ∀ a b c, r a b → r b c → r a c) (a b c : α) (hab : decide (r a b) = true)
    (hbc : decide (r b c) = true) : decide (r a c) = true :=
  decide_eq_true (h a b c (of_decide_eq_true hab) (of_decide_eq_true hbc))

/-- A total relation is so as a test. -/
theorem total_decide (h : ∀ a b, r a b ∨ r b a) (a b : α) :
    (decide (r a b) || decide (r b a)) = true := by
  rw [Bool.or_eq_true, decide_eq_true_iff, decide_eq_true_iff]
  exact h a b

end

/-! ## What a sort keeps -/

/-- A sort leaves items that it need not tell apart in their order. -/
theorem filter_mergeSort (trans : ∀ a b c, le a b = true → le b c = true → le a c = true)
    (total : ∀ a b, (le a b || le b a) = true) {p : α → Bool}
    (hp : ∀ a b, p a = true → p b = true → le a b = true) (as : List α) :
    (as.mergeSort le).filter p = as.filter p := by
  have hsame : (as.filter p).Pairwise fun a b => le a b = true :=
    List.Pairwise.imp_of_mem (R := fun _ _ => True)
      (fun {a b} ha hb _ => hp a b (List.mem_filter.1 ha).2 (List.mem_filter.1 hb).2)
      (List.pairwise_of_forall fun _ _ => trivial)
  have hsublist : (as.filter p).Sublist (as.mergeSort le) :=
    List.sublist_mergeSort trans total hsame List.filter_sublist
  have hkept : (as.filter p).Sublist ((as.mergeSort le).filter p) := by
    simpa only [List.filter_filter, Bool.and_self] using hsublist.filter p
  exact (hkept.eq_of_length ((List.mergeSort_perm as le).filter p).length_eq.symm).symm

/-- Neither of two items has to stand before the other. -/
def alike (le : α → α → Bool) (a b : α) : Bool := le a b && le b a

/-- Items are alike if either may stand before the other. -/
theorem alike_iff {a b : α} : alike le a b = true ↔ le a b = true ∧ le b a = true :=
  Bool.and_eq_true_iff

/-- An item is like itself. -/
theorem alike_self (total : ∀ a b, (le a b || le b a) = true) (a : α) : alike le a a = true := by
  have hself : le a a = true := by simpa using total a a
  exact alike_iff.2 ⟨hself, hself⟩

/-- Lists with the same items alike to any have the same items. -/
theorem mem_of_filter_alike (total : ∀ a b, (le a b || le b a) = true) {as bs : List α}
    (h : ∀ a, as.filter (alike le a) = bs.filter (alike le a)) {a : α} (ha : a ∈ as) : a ∈ bs := by
  have hmem : a ∈ as.filter (alike le a) := List.mem_filter.2 ⟨ha, alike_self total a⟩
  rw [h] at hmem
  exact (List.mem_filter.1 hmem).1

/-- Lists in order are equal if what is alike stands in them in the same order. -/
theorem eq_of_filter_alike (total : ∀ a b, (le a b || le b a) = true) {as bs : List α}
    (has : as.Pairwise fun a b => le a b = true) (hbs : bs.Pairwise fun a b => le a b = true)
    (h : ∀ a, as.filter (alike le a) = bs.filter (alike le a)) : as = bs := by
  induction as generalizing bs with
  | nil =>
    cases bs with
    | nil => rfl
    | cons b bs =>
      exact absurd (mem_of_filter_alike total (fun a => (h a).symm) List.mem_cons_self) List.not_mem_nil
  | cons a as ih =>
    cases bs with
    | nil => exact absurd (mem_of_filter_alike total h List.mem_cons_self) List.not_mem_nil
    | cons b bs =>
      have hself : ∀ c, le c c = true := fun c => (alike_iff.1 (alike_self total c)).1
      -- The first item of each list stands before those of the other one, so that they are alike.
      have hab : le a b = true := by
        rcases List.mem_cons.1
          (mem_of_filter_alike total (fun c => (h c).symm) (List.mem_cons_self (a := b))) with rfl | hb
        · exact hself _
        · exact List.rel_of_pairwise_cons has hb
      have hba : le b a = true := by
        rcases List.mem_cons.1 (mem_of_filter_alike total h (List.mem_cons_self (a := a))) with rfl | ha
        · exact hself _
        · exact List.rel_of_pairwise_cons hbs ha
      have hfirst := h a
      rw [List.filter_cons_of_pos (alike_self total a), List.filter_cons_of_pos (alike_iff.2 ⟨hab, hba⟩)]
        at hfirst
      obtain rfl := (List.cons.inj hfirst).1
      refine congrArg (a :: ·) (ih has.of_cons hbs.of_cons fun c => ?_)
      have hboth := h c
      rw [List.filter_cons, List.filter_cons] at hboth
      split at hboth
      · exact (List.cons.inj hboth).2
      · exact hboth

/-- A sort leaves what is alike as it stands. -/
theorem filter_alike_mergeSort (trans : ∀ a b c, le a b = true → le b c = true → le a c = true)
    (total : ∀ a b, (le a b || le b a) = true) (a : α) (as : List α) :
    (as.mergeSort le).filter (alike le a) = as.filter (alike le a) := by
  apply filter_mergeSort trans total
  intro b c hb hc
  exact trans b a c (alike_iff.1 hb).2 (alike_iff.1 hc).1

/-- A list is sorted into the one in order in which what is alike stands as it did. -/
theorem mergeSort_eq_of_filter_alike
    (trans : ∀ a b c, le a b = true → le b c = true → le a c = true)
    (total : ∀ a b, (le a b || le b a) = true) {as bs : List α}
    (hbs : bs.Pairwise fun a b => le a b = true)
    (h : ∀ a, bs.filter (alike le a) = as.filter (alike le a)) : as.mergeSort le = bs := by
  apply eq_of_filter_alike total (List.pairwise_mergeSort trans total as) hbs
  intro a
  rw [filter_alike_mergeSort trans total, h a]

/-- Items may be left out before a sort or behind it. -/
theorem mergeSort_filter (trans : ∀ a b c, le a b = true → le b c = true → le a c = true)
    (total : ∀ a b, (le a b || le b a) = true) (keep : α → Bool) (as : List α) :
    (as.filter keep).mergeSort le = (as.mergeSort le).filter keep := by
  apply mergeSort_eq_of_filter_alike trans total
  · exact (List.pairwise_mergeSort trans total as).filter keep
  · intro a
    have hswap : ∀ bs : List α,
        (bs.filter keep).filter (alike le a) = (bs.filter (alike le a)).filter keep := by
      intro bs
      rw [List.filter_filter, List.filter_filter]
      apply List.filter_congr
      intro b _
      exact Bool.and_comm _ _
    rw [hswap, hswap, filter_alike_mergeSort trans total]

/-- What holds of any two items in their order holds behind a sort of two that are alike. -/
theorem pairwise_mergeSort_of_alike
    (trans : ∀ a b c, le a b = true → le b c = true → le a c = true)
    (total : ∀ a b, (le a b || le b a) = true) {as : List α} {r : α → α → Prop} (h : as.Pairwise r) :
    (as.mergeSort le).Pairwise fun a b => le b a = true → r a b := by
  rw [List.pairwise_iff_forall_sublist]
  intro a b hab hba
  have hle : le a b = true :=
    List.pairwise_iff_forall_sublist.1 (List.pairwise_mergeSort trans total as) hab
  have hboth : [a, b].filter (alike le a) = [a, b] := by
    apply List.filter_eq_self.2
    intro c hc
    rcases List.mem_pair.1 hc with rfl | rfl
    · exact alike_self total _
    · exact alike_iff.2 ⟨hle, hba⟩
  have hsublist := hab.filter (alike le a)
  rw [hboth, filter_alike_mergeSort trans total] at hsublist
  exact List.pairwise_iff_forall_sublist.1 h (hsublist.trans List.filter_sublist)

end LogSearch
