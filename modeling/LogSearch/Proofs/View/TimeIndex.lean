import LogSearch.View.TimeIndex
import Mathlib.Data.List.Induction
import Mathlib.Data.List.Pairwise
import Mathlib.Data.List.TakeWhile

/-!
# What an index of instants holds

* `TimeIndex.mem_addEntry`: an instant that is there already keeps its position.
* `TimeIndex.mem_ofEvents`: the index of events holds each of their instants, with the position of
  the first event at it.
* `TimeIndex.closest_eq_none_iff`: an answer is found unless no event has a time;
  `TimeIndex.closest_ofEvents`: the answer names an event, and the instant of that event.
* `TimeIndex.NearestEntry`: the entry that stands nearest to an instant, of two the earlier one;
  `TimeIndex.closest_eq_some_iff`: it is the answer.
* `TimeIndex.closest_is_nearest`: among events, the answer is the first one at the nearest instant.
-/

namespace LogSearch

namespace TimeIndex

/-- Each instant is before all later ones. -/
def Ordered (entries : List (Int × Nat)) : Prop := entries.Pairwise fun a b => a.1 < b.1

/-- An entry is added only at an instant that has none. -/
theorem mem_addEntry {entries : List (Int × Nat)} (h : Ordered entries) (time : Int)
    (position : Nat) (entry : Int × Nat) :
    entry ∈ addEntry time position entries ↔
      entry ∈ entries ∨ (entry = (time, position) ∧ ∀ p, (time, p) ∉ entries) := by
  induction entries with
  | nil => simp [addEntry]
  | cons head rest ih =>
    obtain ⟨t, p⟩ := head
    have ⟨hhead, hrest⟩ := List.pairwise_cons.1 h
    unfold addEntry
    split
    · next heq =>
      subst heq
      refine ⟨.inl, ?_⟩
      rintro (hmem | ⟨-, hnone⟩)
      · exact hmem
      · exact absurd List.mem_cons_self (hnone p)
    · next hne =>
      split
      · next hlt =>
        -- all instants of the list are later
        have hnone : ∀ q, (time, q) ∉ (t, p) :: rest := by
          intro q hq
          rcases List.mem_cons.1 hq with heq | hq
          · exact hne (Prod.mk.inj heq).1
          · exact Int.lt_irrefl _ (Int.lt_trans hlt (hhead _ hq))
        simp only [List.mem_cons (b := (time, position)), or_comm, and_iff_left hnone]
      · have hothers : (∀ q, (time, q) ∉ (t, p) :: rest) ↔ ∀ q, (time, q) ∉ rest := by
          simp [hne]
        rw [List.mem_cons, List.mem_cons, ih hrest, hothers, or_assoc]

/-- Adding an entry keeps the order. -/
theorem ordered_addEntry {entries : List (Int × Nat)} (h : Ordered entries) (time : Int)
    (position : Nat) : Ordered (addEntry time position entries) := by
  induction entries with
  | nil => exact List.pairwise_singleton _ _
  | cons head rest ih =>
    obtain ⟨t, p⟩ := head
    have ⟨hhead, hrest⟩ := List.pairwise_cons.1 h
    unfold addEntry
    split
    · exact h
    · split
      · next hlt =>
        refine List.pairwise_cons.2 ⟨fun entry hentry => ?_, h⟩
        rcases List.mem_cons.1 hentry with rfl | hentry
        · exact hlt
        · exact Int.lt_trans hlt (hhead entry hentry)
      · next hne hge =>
        refine List.pairwise_cons.2 ⟨fun entry hentry => ?_, ih hrest⟩
        rcases (mem_addEntry hrest time position entry).1 hentry with hentry | ⟨rfl, -⟩
        · exact hhead entry hentry
        · omega

/-- One more event adds its entry, if it has a time. -/
theorem ofEvents_concat (events : List Record) (event : Record) :
    (ofEvents (events ++ [event])).entries =
      match event.time? with
      | some time => addEntry time events.length (ofEvents events).entries
      | none => (ofEvents events).entries := by
  rw [ofEvents, List.zipIdx_append, List.foldl_append, Nat.zero_add]
  rfl

/-- The entries of every index stand in order. -/
theorem ordered_ofEvents (events : List Record) : Ordered (ofEvents events).entries := by
  induction events using List.reverseRecOn with
  | nil => exact .nil
  | append_singleton events event ih =>
    rw [ofEvents_concat]
    split
    · exact ordered_addEntry ih _ _
    · exact ih

/-- The index of events holds each of their instants, with the position of the first event at it. -/
theorem mem_ofEvents {events : List Record} {time : Int} {position : Nat} :
    (time, position) ∈ (ofEvents events).entries ↔
      events.findIdx? (fun event => event.time? = some time) = some position := by
  induction events using List.reverseRecOn generalizing position with
  | nil => exact ⟨fun h => absurd h List.not_mem_nil, fun h => nomatch h⟩
  | append_singleton events event ih =>
    rw [ofEvents_concat, List.findIdx?_append]
    cases hevent : event.time? with
    | none => simp [hevent, ih]
    | some t =>
      have hnone : (∀ p, (time, p) ∉ (ofEvents events).entries) ↔
          events.findIdx? (fun event => event.time? = some time) = none := by
        simp only [ih, Option.eq_none_iff_forall_ne_some]
      dsimp only
      rw [mem_addEntry (ordered_ofEvents events), ih]
      by_cases ht : t = time
      · subst ht
        rw [hnone]
        cases events.findIdx? fun event => decide (event.time? = some t) with
        | none => simp [hevent, eq_comm]
        | some first => simp
      · simp [hevent, ht, Ne.symm ht]

/-- Every instant of an event is in the index. -/
theorem forall_mem_ofEvents {events : List Record} {p : Int → Prop} :
    (∀ entry ∈ (ofEvents events).entries, p entry.1) ↔
      ∀ event ∈ events, ∀ t, event.time? = some t → p t := by
  constructor
  · intro h event hevent t ht
    cases hfirst : events.findIdx? fun event => event.time? = some t with
    | none =>
      have hother := List.findIdx?_eq_none_iff.1 hfirst event hevent
      rw [decide_eq_true ht] at hother
      cases hother
    | some first => exact h (t, first) (mem_ofEvents.2 hfirst)
  · rintro h ⟨t, first⟩ hmem
    obtain ⟨hlt, htime, -⟩ := List.findIdx?_eq_some_iff_getElem.1 (mem_ofEvents.1 hmem)
    exact h _ (List.getElem_mem hlt) t (of_decide_eq_true htime)

/-! ## Looking up -/

/-- The closest entry is one of the index. -/
theorem mem_of_closest {x : TimeIndex} {time : Int} {entry : Int × Nat}
    (h : x.closest time = some entry) : entry ∈ x.entries := by
  have hbelow : ∀ low, (x.entries.takeWhile fun e => e.1 ≤ time).getLast? = some low →
      low ∈ x.entries := fun low hlow =>
    List.takeWhile_subset _ (List.mem_of_getLast? hlow)
  have habove : ∀ high, (x.entries.find? fun e => time ≤ e.1) = some high → high ∈ x.entries :=
    fun high hhigh => List.mem_of_find?_eq_some hhigh
  unfold closest at h
  dsimp only at h
  split at h
  · next low high hlow hhigh =>
    split at h
    · exact Option.some.inj h ▸ habove high hhigh
    · exact Option.some.inj h ▸ hbelow low hlow
  · next low hlow hhigh => exact Option.some.inj h ▸ hbelow low hlow
  · exact habove entry h

/-- There is an answer unless there are no entries. -/
theorem closest_eq_none_iff_entries {x : TimeIndex} {time : Int} :
    x.closest time = none ↔ x.entries = [] := by
  constructor
  · intro h
    unfold closest at h
    dsimp only at h
    split at h
    · split at h <;> cases h
    · cases h
    · next hlow =>
      -- the first entry is either not after the instant or not before it
      cases hentries : x.entries with
      | nil => rfl
      | cons head rest =>
        rw [hentries] at hlow h
        by_cases hle : head.1 ≤ time
        · simp [hle] at hlow
        · have hge : time ≤ head.1 := by omega
          simp [hge] at h
  · intro h
    unfold closest
    rw [h]
    rfl

/-! ## The nearest entry -/

/-- No entry stands nearer to an instant than this one, and no earlier one as near. -/
structure NearestEntry (entries : List (Int × Nat)) (time : Int) (entry : Int × Nat) : Prop where
  mem : entry ∈ entries
  nearest : ∀ other ∈ entries, (entry.1 - time).natAbs ≤ (other.1 - time).natAbs
  lowest : ∀ other ∈ entries, (other.1 - time).natAbs = (entry.1 - time).natAbs → entry.1 ≤ other.1

section

variable {entries : List (Int × Nat)} {time : Int} {low high : Int × Nat}

/-- There is one entry at an instant. -/
theorem Ordered.eq_of_fst_eq (h : Ordered entries) {a b : Int × Nat} (ha : a ∈ entries)
    (hb : b ∈ entries) (heq : a.1 = b.1) : a = b := by
  have hne : entries.Pairwise fun a b => a.1 ≠ b.1 := h.imp Int.ne_of_lt
  have : Std.Symm fun a b : Int × Nat => a.1 ≠ b.1 := ⟨fun _ _ => Ne.symm⟩
  by_contra hab
  exact hne.forall ha hb hab heq

/-- Entries that are not taken up to an instant stand behind it. -/
theorem Ordered.lt_of_mem_dropWhile (h : Ordered entries) {entry : Int × Nat}
    (hentry : entry ∈ entries.dropWhile fun e => e.1 ≤ time) : time < entry.1 := by
  have hrest : Ordered (entries.dropWhile fun e => e.1 ≤ time) :=
    h.sublist (List.dropWhile_sublist _)
  have hfirst := List.head?_dropWhile_not (fun e : Int × Nat => decide (e.1 ≤ time)) entries
  cases hdrop : entries.dropWhile fun e => e.1 ≤ time with
  | nil =>
    rw [hdrop] at hentry
    cases hentry
  | cons head rest =>
    rw [hdrop] at hentry hrest hfirst
    have hhead : time < head.1 := Int.not_le.1 (of_decide_eq_false hfirst)
    rcases List.mem_cons.1 hentry with rfl | hentry
    · exact hhead
    · exact Int.lt_trans hhead (List.rel_of_pairwise_cons hrest hentry)

/-- The first entries up to an instant are all those up to it. -/
theorem Ordered.mem_takeWhile_iff (h : Ordered entries) {entry : Int × Nat} :
    entry ∈ (entries.takeWhile fun e => e.1 ≤ time) ↔ entry ∈ entries ∧ entry.1 ≤ time := by
  constructor
  · intro hmem
    have hle := List.mem_takeWhile_imp hmem
    exact ⟨List.takeWhile_subset _ hmem, of_decide_eq_true hle⟩
  · rintro ⟨hmem, hle⟩
    rw [← List.takeWhile_append_dropWhile (p := fun e : Int × Nat => decide (e.1 ≤ time)) (l := entries),
      List.mem_append] at hmem
    exact hmem.resolve_right fun hdrop => Int.not_lt.2 hle (h.lt_of_mem_dropWhile hdrop)

/-- The last entry up to an instant is the latest of those. -/
theorem Ordered.below_of_getLast? (h : Ordered entries)
    (hlow : (entries.takeWhile fun e => e.1 ≤ time).getLast? = some low) :
    low ∈ entries ∧ low.1 ≤ time ∧ ∀ e ∈ entries, e.1 ≤ time → e.1 ≤ low.1 := by
  have hmem := h.mem_takeWhile_iff.1 (List.mem_of_getLast? hlow)
  refine ⟨hmem.1, hmem.2, fun e he hle => ?_⟩
  have htaken : Ordered (entries.takeWhile fun e => e.1 ≤ time) :=
    h.sublist (List.takeWhile_sublist _)
  have he := h.mem_takeWhile_iff.2 ⟨he, hle⟩
  obtain ⟨front, hfront⟩ := List.getLast?_eq_some_iff.1 hlow
  rw [hfront] at htaken he
  rcases List.mem_append.1 he with he | he
  · exact Int.le_of_lt ((List.pairwise_append.1 htaken).2.2 e he low List.mem_cons_self)
  · exact Int.le_of_eq (congrArg Prod.fst (List.mem_singleton.1 he))

/-- The first entry from an instant on is the earliest of those. -/
theorem Ordered.above_of_find? (h : Ordered entries)
    (hhigh : (entries.find? fun e => time ≤ e.1) = some high) :
    high ∈ entries ∧ time ≤ high.1 ∧ ∀ e ∈ entries, time ≤ e.1 → high.1 ≤ e.1 := by
  obtain ⟨hle, front, behind, rfl, hfront⟩ := List.find?_eq_some_iff_append.1 hhigh
  refine ⟨List.mem_append_right _ List.mem_cons_self, of_decide_eq_true hle, fun e he hge => ?_⟩
  rcases List.mem_append.1 he with he | he
  · have hnot := hfront e he
    rw [decide_eq_true hge] at hnot
    cases hnot
  · rcases List.mem_cons.1 he with rfl | he
    · exact Int.le_refl _
    · exact Int.le_of_lt (List.rel_of_pairwise_cons (List.pairwise_append.1 h).2.1 he)

end

/-- There is one nearest entry. -/
theorem NearestEntry.unique {entries : List (Int × Nat)} (h : Ordered entries) {time : Int}
    {a b : Int × Nat} (ha : NearestEntry entries time a) (hb : NearestEntry entries time b) :
    a = b := by
  have hdist := Nat.le_antisymm (ha.nearest b hb.mem) (hb.nearest a ha.mem)
  have htime := Int.le_antisymm (ha.lowest b hb.mem hdist.symm) (hb.lowest a ha.mem hdist)
  exact h.eq_of_fst_eq ha.mem hb.mem htime

/-- The answer is the nearest entry: the last one up to the instant is compared with the first one
from it on. -/
theorem nearestEntry_of_closest {x : TimeIndex} (h : Ordered x.entries) {time : Int}
    {entry : Int × Nat} (hentry : x.closest time = some entry) :
    NearestEntry x.entries time entry := by
  have hcompare : ∀ other ∈ x.entries, (entry.1 - time).natAbs ≤ (other.1 - time).natAbs ∧
      ((other.1 - time).natAbs = (entry.1 - time).natAbs → entry.1 ≤ other.1) := by
    intro other hother
    unfold closest at hentry
    dsimp only at hentry
    split at hentry
    · next low high hlow hhigh =>
      obtain ⟨-, hlow, hbelow⟩ := h.below_of_getLast? hlow
      obtain ⟨-, hhigh, habove⟩ := h.above_of_find? hhigh
      have hbelow := hbelow other hother
      have habove := habove other hother
      split at hentry <;> cases hentry <;> omega
    · next low hlow hhigh =>
      obtain ⟨-, hlow, hbelow⟩ := h.below_of_getLast? hlow
      have hbelow := hbelow other hother
      have hnone := List.find?_eq_none.1 hhigh other hother
      rw [decide_eq_true_iff] at hnone
      cases hentry
      omega
    · next hlow =>
      obtain ⟨-, hhigh, habove⟩ := h.above_of_find? hentry
      have habove := habove other hother
      have hnone : ¬ other.1 ≤ time := fun hle =>
        List.ne_nil_of_mem (h.mem_takeWhile_iff.2 ⟨hother, hle⟩) (List.getLast?_eq_none_iff.1 hlow)
      omega
  exact ⟨mem_of_closest hentry, fun other hother => (hcompare other hother).1,
    fun other hother => (hcompare other hother).2⟩

/-- The closest entry of an index in order is the nearest one. -/
theorem closest_eq_some_iff {x : TimeIndex} (h : Ordered x.entries) {time : Int}
    {entry : Int × Nat} : x.closest time = some entry ↔ NearestEntry x.entries time entry := by
  refine ⟨nearestEntry_of_closest h, fun hentry => ?_⟩
  cases hclosest : x.closest time with
  | none =>
    have hmem := hentry.mem
    rw [closest_eq_none_iff_entries.1 hclosest] at hmem
    cases hmem
  | some answer => rw [(nearestEntry_of_closest h hclosest).unique h hentry]

/-! ## The nearest event -/

/-- The closest entry names an event that has its instant. -/
theorem closest_ofEvents {events : List Record} {time : Int} {answer : Int × Nat}
    (h : (ofEvents events).closest time = some answer) :
    ∃ event, events[answer.2]? = some event ∧ event.time? = some answer.1 := by
  have hfirst := mem_ofEvents.1 (mem_of_closest h)
  obtain ⟨hlt, htime, -⟩ := List.findIdx?_eq_some_iff_getElem.1 hfirst
  exact ⟨_, List.getElem?_eq_getElem hlt, of_decide_eq_true htime⟩

/-- There is no closest entry exactly when no event has a time. -/
theorem closest_eq_none_iff {events : List Record} {time : Int} :
    (ofEvents events).closest time = none ↔ ∀ event ∈ events, event.time? = none := by
  rw [closest_eq_none_iff_entries, List.eq_nil_iff_forall_not_mem]
  simp only [Option.eq_none_iff_forall_ne_some]
  exact forall_mem_ofEvents (p := fun _ => False)

/-- The first event at its instant, which no timed event is nearer to a given one than, and no
earlier event as near to. -/
structure NearestEvent (events : List Record) (time : Int) (answer : Int × Nat) : Prop where
  at_position : (events[answer.2]?).bind Record.time? = some answer.1
  first : ∀ i < answer.2, (events[i]?).bind Record.time? ≠ some answer.1
  nearest : ∀ event ∈ events, ∀ t, event.time? = some t →
    (answer.1 - time).natAbs ≤ (t - time).natAbs
  lowest : ∀ event ∈ events, ∀ t, event.time? = some t →
    (t - time).natAbs = (answer.1 - time).natAbs → answer.1 ≤ t

/-- An instant with its first position is one at which an event stands and none before it. -/
theorem mem_ofEvents_iff_first {events : List Record} {answer : Int × Nat} :
    answer ∈ (ofEvents events).entries ↔ (events[answer.2]?).bind Record.time? = some answer.1 ∧
      ∀ i < answer.2, (events[i]?).bind Record.time? ≠ some answer.1 := by
  obtain ⟨t, position⟩ := answer
  rw [mem_ofEvents, List.findIdx?_eq_some_iff_getElem]
  constructor
  · rintro ⟨hlt, htime, hfirst⟩
    refine ⟨by simpa [hlt] using htime, fun i hi => ?_⟩
    have hi' : i < events.length := Nat.lt_trans hi hlt
    simpa [hi'] using hfirst i hi
  · rintro ⟨htime, hfirst⟩
    obtain ⟨event, hevent, htime⟩ := Option.bind_eq_some_iff.1 htime
    obtain ⟨hlt, rfl⟩ := List.getElem?_eq_some_iff.1 hevent
    refine ⟨hlt, decide_eq_true htime, fun i hi => ?_⟩
    have hi' : i < events.length := Nat.lt_trans hi hlt
    simpa [hi'] using hfirst i hi

/-- The nearest entry names the nearest event, and the first of those. -/
theorem nearestEntry_ofEvents_iff {events : List Record} {time : Int} {answer : Int × Nat} :
    NearestEntry (ofEvents events).entries time answer ↔ NearestEvent events time answer := by
  constructor
  · intro h
    obtain ⟨hat, hfirst⟩ := mem_ofEvents_iff_first.1 h.mem
    exact ⟨hat, hfirst, forall_mem_ofEvents.1 h.nearest, forall_mem_ofEvents.1 h.lowest⟩
  · intro h
    exact ⟨mem_ofEvents_iff_first.2 ⟨h.at_position, h.first⟩, forall_mem_ofEvents.2 h.nearest,
      forall_mem_ofEvents.2 h.lowest⟩

/-- There is an answer unless no event has a time, and the answer is the first event at the instant
nearest to the given one, of two instants as near the earlier one. -/
theorem closest_is_nearest (events : List Record) (time : Int) :
    ((ofEvents events).closest time = none ↔ ∀ event ∈ events, event.time? = none) ∧
      ∀ answer, (ofEvents events).closest time = some answer ↔ NearestEvent events time answer :=
  ⟨closest_eq_none_iff, fun _ =>
    (closest_eq_some_iff (ordered_ofEvents events)).trans nearestEntry_ofEvents_iff⟩

-- The distances of the outermost instants from one between them, of which one is no instant itself.
example : (TimeIndex.mk [(-9223372036854775808, 1), (9223372036854775807, 0)]).closest (-1) =
    some (-9223372036854775808, 1) := by decide

end TimeIndex

end LogSearch
