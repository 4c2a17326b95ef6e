import LogSearch.View.Page
import Mathlib.Data.List.Basic

/-!
# Going through a list by pages

A page ends where the next one starts, so who follows `next` from the first page sees each item once.
A page without room is left out of this: it ends where it starts, and is its own next page.

* `Page.data_slice`, `Page.next_slice_iff`, `Page.prev_slice_iff`: what a page shows, and where its
  links lead.
* `Page.Linked`: what a reader of pages can rely on at any offset and with any limit.
* `Page.Following`: the pages from an offset on, up to the one without a next page.
* `Page.pages_visit_once`: the links are such, and the pages together are the list.
-/

namespace LogSearch

namespace Page

variable {α : Type} {items : List α} {offset limit n p : Nat} {pages more : List (Page α)}

/-! ## A page -/

/-- A page shows the items that it names. -/
theorem data_slice (items : List α) (offset limit : Nat) :
    (slice items offset limit).data = (items.drop offset).take limit := by
  by_cases h : offset ≤ items.length
  · have hstart : min offset items.length = offset := Nat.min_eq_left h
    show (items.drop (min offset items.length)).take _ = _
    rw [hstart, List.take_eq_take_iff, List.length_drop]
    omega
  · have hbehind : items.drop offset = [] := List.drop_eq_nil_of_le (by omega)
    have hend : items.drop (min offset items.length) = [] := List.drop_eq_nil_of_le (by omega)
    show (items.drop (min offset items.length)).take _ = _
    rw [hbehind, hend, List.take_nil, List.take_nil]

/-- The next page starts where the room of a page ends, if the list goes on there. -/
theorem next_slice_iff :
    (slice items offset limit).next = some n ↔ offset + limit = n ∧ n < items.length := by
  show (if min (min offset items.length + limit) items.length < items.length then
    some (min (min offset items.length + limit) items.length) else none) = some n ↔ _
  split
  · rw [Option.some.injEq]
    omega
  · simp only [reduceCtorEq, false_iff]
    omega

/-- The page before starts so much earlier as a page has room, or at the start. -/
theorem prev_slice_iff : (slice items offset limit).prev = some p ↔
    min offset items.length - limit = p ∧ 0 < offset ∧ 0 < items.length := by
  show (if 0 < min offset items.length then some (min offset items.length - limit) else none) =
    some p ↔ _
  split
  · rw [Option.some.injEq]
    omega
  · simp only [reduceCtorEq, false_iff]
    omega

/-! ## Links -/

/-- What the page at an offset shows, and where its links lead. -/
structure Linked (items : List α) (offset limit : Nat) : Prop where
  data : (slice items offset limit).data = (items.drop offset).take limit
  total : (slice items offset limit).total = items.length
  /-- There is a next page exactly when items remain behind this one. -/
  next : (slice items offset limit).next.isSome ↔ items.drop (offset + limit) ≠ []
  /-- There is a page before exactly when items precede this one. -/
  prev : (slice items offset limit).prev.isSome ↔ items.take offset ≠ []
  /-- Links stay within the list, so a word that holds its length holds them. -/
  inside : ∀ n, (slice items offset limit).next = some n ∨ (slice items offset limit).prev = some n →
    n ≤ items.length
  /-- From the next page one comes back, unless a page without room stands at the start. -/
  back : ∀ n, (slice items offset limit).next = some n → 1 ≤ limit ∨ 1 ≤ offset →
    ∃ p, (slice items n limit).prev = some p ∧ slice items p limit = slice items offset limit
  /-- That page is its own next page, and nothing precedes it. -/
  still : limit = 0 → offset = 0 → (slice items offset limit).prev = none ∧
    ∀ n, (slice items offset limit).next = some n → n = offset

/-- The page at every offset is linked as it should be. -/
theorem linked (items : List α) (offset limit : Nat) : Linked items offset limit where
  data := data_slice items offset limit
  total := rfl
  next := by
    rw [Option.isSome_iff_exists, ne_eq, List.drop_eq_nil_iff]
    simp only [next_slice_iff]
    constructor
    · rintro ⟨n, rfl, hn⟩
      omega
    · intro h
      exact ⟨_, rfl, by omega⟩
  prev := by
    rw [Option.isSome_iff_exists, ne_eq, List.take_eq_nil_iff, ← List.length_eq_zero_iff]
    simp only [prev_slice_iff]
    constructor
    · rintro ⟨p, -, hoffset, hitems⟩
      omega
    · intro h
      exact ⟨_, rfl, by omega, by omega⟩
  inside n h := by
    rw [next_slice_iff, prev_slice_iff] at h
    omega
  back n h hroom := by
    obtain ⟨rfl, hn⟩ := next_slice_iff.1 h
    refine ⟨offset, prev_slice_iff.2 ⟨?_, ?_, ?_⟩, rfl⟩
    · rw [Nat.min_eq_left (Nat.le_of_lt hn), Nat.add_sub_cancel]
    · omega
    · omega
  still := by
    rintro rfl rfl
    refine ⟨?_, fun n hn => (next_slice_iff.1 hn).1.symm⟩
    rw [Option.eq_none_iff_forall_ne_some]
    intro p hp
    exact absurd (prev_slice_iff.1 hp).2.1 (Nat.lt_irrefl 0)

/-! ## All pages -/

/-- The pages from an offset on, up to the one without a next page. -/
inductive Following (items : List α) (limit : Nat) : Nat → List (Page α) → Prop
  | last {offset : Nat} : (slice items offset limit).next = none →
      Following items limit offset [slice items offset limit]
  | more {offset n : Nat} {pages : List (Page α)} : (slice items offset limit).next = some n →
      Following items limit n pages →
      Following items limit offset (slice items offset limit :: pages)

/-- There is no choice in following links. -/
theorem Following.unique (h : Following items limit offset pages)
    (h' : Following items limit offset more) : pages = more := by
  induction h generalizing more with
  | last hnone =>
    cases h' with
    | last => rfl
    | more hnext => exact absurd (hnone.symm.trans hnext) (by simp)
  | more hnext _ ih =>
    cases h' with
    | last hnone => exact absurd (hnone.symm.trans hnext) (by simp)
    | more hnext' hrest =>
      obtain rfl := Option.some.inj (hnext.symm.trans hnext')
      rw [ih hrest]

/-- The pages that one follows show all items from the offset on, in their order. -/
theorem Following.data (h : Following items limit offset pages) :
    pages.flatMap Page.data = items.drop offset := by
  induction h with
  | @last offset hnone =>
    have hdrop : items.drop (offset + limit) = [] := by
      by_contra hne
      rw [← ne_eq, ← (linked items offset limit).next, hnone] at hne
      simp at hne
    rw [List.flatMap_singleton, data_slice, ← List.take_append_drop limit (items.drop offset),
      List.drop_drop, hdrop, List.append_nil, List.take_take, Nat.min_self]
  | @more offset n pages hnext _ ih =>
    obtain ⟨rfl, -⟩ := next_slice_iff.1 hnext
    rw [List.flatMap_cons, ih, data_slice, ← List.drop_drop, List.take_append_drop]

/-- With room on each page the links come to an end: each leads further into the list. -/
theorem exists_following (hlimit : 1 ≤ limit) (items : List α) (offset : Nat) :
    ∃ pages, Following items limit offset pages := by
  induction hleft : items.length - offset using Nat.strongRecOn generalizing offset with
  | _ left ih =>
    cases hnext : (slice items offset limit).next with
    | none => exact ⟨_, .last hnext⟩
    | some n =>
      obtain ⟨hn, hlt⟩ := next_slice_iff.1 hnext
      obtain ⟨pages, hpages⟩ := ih (items.length - n) (by omega) n rfl
      exact ⟨_, .more hnext hpages⟩

/-- Whoever follows `next` from the start comes to an end and has seen each item once; and at any
offset a page shows what it names and links to the pages around it. -/
theorem pages_visit_once (items : List α) :
    (∀ limit, 1 ≤ limit → ∃ pages, (∀ more, Following items limit 0 more ↔ more = pages) ∧
      pages.flatMap Page.data = items) ∧
    ∀ offset limit, Linked items offset limit := by
  refine ⟨fun limit hlimit => ?_, linked items⟩
  obtain ⟨pages, hpages⟩ := exists_following hlimit items 0
  refine ⟨pages, fun more => ⟨fun h => h.unique hpages, ?_⟩, hpages.data⟩
  rintro rfl
  exact hpages

/-- Five items by two: three pages, and back from the second to the first. -/
theorem five_items_by_two :
    (∃ pages, (∀ more, Following [1, 2, 3, 4, 5] 2 0 more ↔ more = pages) ∧
      pages.flatMap Page.data = [1, 2, 3, 4, 5]) ∧
    ∃ p, (slice [1, 2, 3, 4, 5] 2 2).prev = some p ∧
      slice [1, 2, 3, 4, 5] p 2 = slice [1, 2, 3, 4, 5] 0 2 :=
  ⟨(pages_visit_once [1, 2, 3, 4, 5]).1 2 (by decide),
    ((pages_visit_once [1, 2, 3, 4, 5]).2 0 2).back 2 (by decide) (.inl (by decide))⟩

/-- From the empty page at the start one does not come back: it is its own next page, and there is
none before it. -/
theorem empty_page_leads_nowhere :
    ¬ ∀ (items : List Nat) (offset limit n : Nat), (slice items offset limit).next = some n →
      ∃ p, (slice items n limit).prev = some p ∧
        slice items p limit = slice items offset limit := by
  intro h
  obtain ⟨p, hp, -⟩ := h [7] 0 0 0 (by decide)
  exact absurd hp (by simp [slice])

end Page

end LogSearch
