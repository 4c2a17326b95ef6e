import LogSearch.Pipeline.Run
import LogSearch.Proofs.Field.Order
import LogSearch.Proofs.Sorting

/-!
# The order of sorted rows

A sort stage puts rows in the order of its keys, the first key before the second one, and keeps the
order of rows that no key tells apart. That the natural order is a total preorder is all that this
takes, so it holds for keys in both directions and for any fields.

* `SortKey.compareBy`, `compareRows_append`: the order of rows, key by key.
* `InOrder`: what it says of two rows.
* `sortRows_sortRows`: of two sorts the later one counts first.
* `sort_is_stable`: the stage, alone and after another one.
-/

namespace LogSearch

/-! ## The order of the keys -/

/-- The order of two rows by one key; what is not there counts as null. -/
def SortKey.compareBy (key : SortKey) (a b : Record) : Ordering :=
  match key.direction with
  | .asc => (a.getD key.column).compareNatural (b.getD key.column)
  | .desc => (b.getD key.column).compareNatural (a.getD key.column)

/-- No key tells the rows apart. -/
def Record.Alike (keys : List SortKey) (a b : Record) : Prop :=
  ∀ key ∈ keys, (a.getD key.column).compareNatural (b.getD key.column) = .eq

instance (keys : List SortKey) (a b : Record) : Decidable (a.Alike keys b) :=
  inferInstanceAs (Decidable (∀ key ∈ keys, _))

/-- The key puts the first row before the second one: it is less there, or greater if the key
descends. -/
def SortKey.Before (key : SortKey) (a b : Record) : Prop :=
  (a.getD key.column).compareNatural (b.getD key.column) =
    match key.direction with
    | .asc => .lt
    | .desc => .gt

/-- The first row may stand before the second one: no key tells them apart, or the first key that does
puts it there. -/
def InOrder (keys : List SortKey) (a b : Record) : Prop :=
  a.Alike keys b ∨ ∃ front key back, keys = front ++ key :: back ∧ a.Alike front b ∧ key.Before a b

section

variable {keys : List SortKey} {a b : Record}

/-- Rows compare by the first key, and by the others where it does not tell them apart. -/
theorem compareRows_cons (key : SortKey) (keys : List SortKey) (a b : Record) :
    compareRows (key :: keys) a b = (key.compareBy a b).then (compareRows keys a b) := by
  obtain ⟨column, direction⟩ := key
  cases direction with
  | asc =>
    cases h : (a.getD column).compareNatural (b.getD column) <;>
      simp [compareRows, SortKey.compareBy, h]
  | desc =>
    cases h : (b.getD column).compareNatural (a.getD column) <;>
      simp [compareRows, SortKey.compareBy, h]

/-- Rows compare by the first keys, and by the others where these do not tell them apart. -/
theorem compareRows_append (keys more : List SortKey) (a b : Record) :
    compareRows (keys ++ more) a b = (compareRows keys a b).then (compareRows more a b) := by
  induction keys with
  | nil => rfl
  | cons key keys ih =>
    rw [List.cons_append, compareRows_cons, compareRows_cons, ih, Ordering.then_assoc]

instance (key : SortKey) : Std.TransCmp key.compareBy := by
  obtain ⟨column, direction⟩ := key
  have hcolumn : Std.TransCmp fun a b : Record => (a.getD column).compareNatural (b.getD column) :=
    { eq_swap := Field.compareNatural_swap _ _
      isLE_trans := (Field.composes_compareNatural _ _ _).isLE }
  cases direction with
  | asc => exact hcolumn
  | desc => exact @Std.TransCmp.opposite _ _ hcolumn

instance (keys : List SortKey) : Std.TransCmp (compareRows keys) := by
  induction keys with
  | nil => exact { eq_swap := rfl, isLE_trans := fun _ h => h }
  | cons key keys ih =>
    have hchain : compareRows (key :: keys) = compareLex key.compareBy (compareRows keys) := by
      funext a b
      exact compareRows_cons key keys a b
    rw [hchain]
    infer_instance

/-- A row comes out less by a key that puts it before the other. -/
theorem SortKey.compareBy_eq_lt_iff {key : SortKey} : key.compareBy a b = .lt ↔ key.Before a b := by
  obtain ⟨column, direction⟩ := key
  cases direction with
  | asc => exact Iff.rfl
  | desc => exact Std.OrientedCmp.gt_iff_lt.symm

/-- Rows come out equal by a key if their fields do. -/
theorem SortKey.compareBy_eq_eq_iff {key : SortKey} : key.compareBy a b = .eq ↔
    (a.getD key.column).compareNatural (b.getD key.column) = .eq := by
  obtain ⟨column, direction⟩ := key
  cases direction with
  | asc => exact Iff.rfl
  | desc => exact Std.OrientedCmp.eq_comm

/-- Rows come out equal if no key tells them apart. -/
theorem compareRows_eq_eq_iff : compareRows keys a b = .eq ↔ a.Alike keys b := by
  induction keys with
  | nil => exact iff_of_true rfl nofun
  | cons key keys ih =>
    rw [compareRows_cons, Ordering.then_eq_eq, SortKey.compareBy_eq_eq_iff, ih]
    exact (List.forall_mem_cons (p := fun key : SortKey =>
      (a.getD key.column).compareNatural (b.getD key.column) = .eq)).symm

/-- One row is before another one if the first key that tells them apart says so. -/
theorem compareRows_eq_lt_iff : compareRows keys a b = .lt ↔
    ∃ front key back, keys = front ++ key :: back ∧ a.Alike front b ∧ key.Before a b := by
  induction keys with
  | nil =>
    refine iff_of_false nofun ?_
    rintro ⟨front, key, back, hkeys, -⟩
    exact absurd hkeys.symm (List.append_ne_nil_of_right_ne_nil _ (List.cons_ne_nil _ _))
  | cons key keys ih =>
    rw [compareRows_cons, Ordering.then_eq_lt, SortKey.compareBy_eq_lt_iff,
      SortKey.compareBy_eq_eq_iff, ih]
    constructor
    · rintro (hbefore | ⟨heq, front, next, back, rfl, halike, hbefore⟩)
      · exact ⟨[], key, keys, rfl, nofun, hbefore⟩
      · exact ⟨key :: front, next, back, rfl, List.forall_mem_cons.2 ⟨heq, halike⟩, hbefore⟩
    · rintro ⟨front, next, back, hkeys, halike, hbefore⟩
      cases front with
      | nil =>
        obtain ⟨rfl, -⟩ := List.cons.inj hkeys
        exact .inl hbefore
      | cons first front =>
        obtain ⟨rfl, rfl⟩ := List.cons.inj hkeys
        obtain ⟨heq, halike⟩ := List.forall_mem_cons.1 halike
        exact .inr ⟨heq, front, next, back, rfl, halike, hbefore⟩

/-- A row may stand before another unless it comes out greater. -/
theorem inOrder_iff : InOrder keys a b ↔ compareRows keys a b ≠ .gt := by
  unfold InOrder
  rw [← compareRows_eq_eq_iff, ← compareRows_eq_lt_iff]
  cases compareRows keys a b <;> decide

end

/-! ## Sorted rows -/

/-- Whether the first row may stand before the second one. -/
def notAfter (keys : List SortKey) (a b : Record) : Bool := compareRows keys a b != .gt

section

variable (keys : List SortKey)

/-- The test of the order is the order. -/
theorem notAfter_iff {keys : List SortKey} {a b : Record} :
    notAfter keys a b = true ↔ InOrder keys a b := by
  rw [inOrder_iff]
  exact bne_iff_ne

/-- A row is not after another if it comes out less or equal. -/
theorem notAfter_eq (a b : Record) : notAfter keys a b = (compareRows keys a b).isLE := by
  unfold notAfter
  cases compareRows keys a b <;> rfl

/-- The order of rows is transitive. -/
theorem notAfter_trans (a b c : Record) (hab : notAfter keys a b = true)
    (hbc : notAfter keys b c = true) : notAfter keys a c = true := by
  rw [notAfter_eq] at *
  exact Std.TransCmp.isLE_trans hab hbc

/-- Of two rows one may stand before the other. -/
theorem notAfter_total (a b : Record) : (notAfter keys a b || notAfter keys b a) = true := by
  rw [notAfter_eq, notAfter_eq, @Std.OrientedCmp.eq_swap _ (compareRows keys) _ b]
  cases compareRows keys a b <;> rfl

/-- Rows are alike in the order if no key tells them apart. -/
theorem alike_notAfter (a b : Record) : alike (notAfter keys) a b = decide (a.Alike keys b) := by
  rw [alike, notAfter_eq, notAfter_eq, @Std.OrientedCmp.eq_swap _ (compareRows keys) _ b,
    Bool.eq_iff_iff, decide_eq_true_iff, ← compareRows_eq_eq_iff]
  cases compareRows keys a b <;> decide

/-- Sorted rows are in order. -/
theorem inOrder_sortRows (rows : List Record) : (sortRows keys rows).Pairwise (InOrder keys) :=
  (List.pairwise_mergeSort (notAfter_trans keys) (notAfter_total keys) rows).imp notAfter_iff.1

/-- Rows that are alike for these keys, and maybe for others, keep their order. -/
theorem filter_sortRows {keys more : List SortKey} (h : keys ⊆ more) (rows : List Record) (r : Record) :
    (sortRows keys rows).filter (fun s => r.Alike more s) = rows.filter fun s => r.Alike more s := by
  refine filter_mergeSort (notAfter_trans keys) (notAfter_total keys) (fun a b ha hb => ?_) rows
  have hra : compareRows keys r a = .eq :=
    compareRows_eq_eq_iff.2 fun key hkey => of_decide_eq_true ha key (h hkey)
  have hrb : compareRows keys r b = .eq :=
    compareRows_eq_eq_iff.2 fun key hkey => of_decide_eq_true hb key (h hkey)
  rw [notAfter_eq, ← Std.TransCmp.congr_left hra, hrb]
  rfl

/-- Rows are sorted into the list in order in which rows that are alike stand as they did. -/
theorem sortRows_eq {keys : List SortKey} {rows sorted : List Record}
    (horder : sorted.Pairwise (InOrder keys))
    (halike : ∀ r : Record,
      sorted.filter (fun s => r.Alike keys s) = rows.filter fun s => r.Alike keys s) :
    sortRows keys rows = sorted := by
  refine mergeSort_eq_of_filter_alike (notAfter_trans keys) (notAfter_total keys)
    (horder.imp notAfter_iff.2) fun r => ?_
  have hkeys : alike (notAfter keys) r = fun s => decide (r.Alike keys s) :=
    funext (alike_notAfter keys r)
  rw [hkeys]
  exact halike r

/-- Of two sorts the later one counts first. -/
theorem sortRows_sortRows (first second : List SortKey) (rows : List Record) :
    sortRows second (sortRows first rows) = sortRows (second ++ first) rows := by
  symm
  apply sortRows_eq
  · rw [List.pairwise_iff_forall_sublist]
    intro a b hab
    have hsecond := List.pairwise_iff_forall_sublist.1 (inOrder_sortRows second _) hab
    rw [inOrder_iff, compareRows_append]
    rw [inOrder_iff] at hsecond
    cases hcompare : compareRows second a b with
    | lt => exact nofun
    | gt => exact absurd hcompare hsecond
    | eq =>
      -- Rows that the later sort finds alike stand as the earlier one has put them.
      have hself : a.Alike second a := compareRows_eq_eq_iff.1 Std.ReflCmp.compare_self
      have halike : a.Alike second b := compareRows_eq_eq_iff.1 hcompare
      have hboth : [a, b].filter (fun s => a.Alike second s) = [a, b] := by
        simp [hself, halike]
      have hkept := hab.filter fun s => decide (a.Alike second s)
      rw [filter_sortRows (List.Subset.refl second), hboth] at hkept
      have hbefore : [a, b].Sublist (sortRows first rows) := hkept.trans List.filter_sublist
      exact inOrder_iff.1 (List.pairwise_iff_forall_sublist.1 (inOrder_sortRows first rows) hbefore)
  · intro r
    rw [filter_sortRows (List.subset_append_left second first),
      filter_sortRows (List.subset_append_right second first)]

end

/-! ## The stage -/

namespace Results

/-- The results with the rows that the next stage reads in the order of the keys, and no chart. -/
def sorted (r : Results) (keys : List SortKey) : Results :=
  { r.withRows (sortRows keys r.rows) with chart := none }

/-- Sorting sorts the rows that the next stage reads. -/
theorem rows_sorted (r : Results) (keys : List SortKey) :
    (r.sorted keys).rows = sortRows keys r.rows := by
  obtain ⟨events, table, chart⟩ := r
  cases table <;> rfl

/-- Sorting twice is sorting once, by the second keys first. -/
theorem sorted_sorted (r : Results) (first second : List SortKey) :
    (r.sorted first).sorted second = r.sorted (second ++ first) := by
  obtain ⟨events, table, chart⟩ := r
  cases table <;> simp [sorted, withRows, rows, sortRows_sortRows]

/-- What is sorted stays as it is when sorted again. -/
theorem sorted_self (r : Results) (keys : List SortKey) :
    (r.sorted keys).sorted keys = r.sorted keys := by
  have hsorted : sortRows keys (sortRows keys r.rows) = sortRows keys r.rows :=
    sortRows_eq (inOrder_sortRows keys r.rows) fun _ => rfl
  obtain ⟨events, table, chart⟩ := r
  cases table <;> simpa [sorted, withRows, rows] using hsorted

end Results

variable [Regex.Library]

/-- A sort stage gives the rows that it reads in the order of the keys, with rows that are alike for all
of them in the order in which they were, and leaves all else but the chart as it is. After it, a sort by
other keys is one sort by these and then by the first ones, and the same sort once more does nothing. -/
theorem sort_is_stable [Machine] (keys : List SortKey) (range : TimeRange) (before : Results) :
    ∃ after, (Stage.sort keys).apply range before = .ok after ∧
      after = { before.withRows after.rows with chart := none } ∧
      after.rows.Perm before.rows ∧
      after.rows.Pairwise (InOrder keys) ∧
      (∀ r : Record, after.rows.filter (fun s => r.Alike keys s) =
        before.rows.filter fun s => r.Alike keys s) ∧
      (∀ later, (Stage.sort later).apply range after =
        (Stage.sort (later ++ keys)).apply range before) ∧
      (Stage.sort keys).apply range after = .ok after := by
  have happly : ∀ keys r, (Stage.sort keys).apply range r = .ok (r.sorted keys) := fun _ _ => rfl
  refine ⟨before.sorted keys, happly keys before, ?_, ?_, ?_, fun r => ?_, fun later => ?_, ?_⟩
  · rw [before.rows_sorted]
    rfl
  · rw [before.rows_sorted]
    exact List.mergeSort_perm _ _
  · rw [before.rows_sorted]
    exact inOrder_sortRows keys before.rows
  · rw [before.rows_sorted]
    exact filter_sortRows (List.Subset.refl keys) before.rows r
  · rw [happly, happly, before.sorted_sorted]
  · rw [happly, before.sorted_self]

end LogSearch
