import LogSearch.Proofs.Number.Scientific
import LogSearch.Proofs.Pipeline.GroupRows
import LogSearch.Regex.Program

/-!
# Grouping a table of groups

The row of a group has the texts of the columns that its members have, and so the key of the group. No
two groups have one key: grouping the rows by the same columns once more, each of them is a group of
its own, and they stay in order.

* `groupsOf_of_nodup`: rows of which no two share a key are groups of one row.
* `keys_of_holdsValues`: the keys of the rows of groups are those of the groups.
* `regrouped_counts_one`: a count over a grouped table counts one row for each group, and the counts of the
  grouped table add up to the rows it was made of.
-/

namespace LogSearch

section

variable {calls : List AggregateCall} {columns : List String} {rows made : List Record}

/-! ## Rows with keys of their own -/

/-- Rows of which no two share a key are groups of one row. -/
theorem groupsOf_of_nodup (hcolumns : columns ≠ []) (h : (rows.map (groupKey columns)).Nodup) :
    groupsOf columns rows = rows.map fun r => [r] := by
  rw [groupsOf_of_ne_nil hcolumns, groupRows_eq, eraseDups_of_nodup h, List.map_map, List.map_map]
  apply List.map_congr_left
  intro r hr
  exact filter_key_eq h hr

/-! ## The rows of groups -/

/-- The row of a group shares its texts with the first member, where no aggregation has the name of
a column. -/
theorem HoldsValues.sameTexts [Machine] {members : List Record} {row : Record}
    (h : HoldsValues calls columns members row)
    (hdisjoint : ∀ c ∈ columns, c ∉ calls.map AggregateCall.outputName) {first : Record}
    (hfirst : members.head? = some first) : row.SameTexts columns first := by
  intro c hc
  obtain ⟨other, hother, hget⟩ := h.grouped c hc (hdisjoint c hc)
  obtain rfl : first = other := Option.some.inj (hfirst.symm.trans hother)
  rw [Record.display, hget]
  exact display_getD first c

/-- The rows of groups have the keys of the groups. -/
theorem keys_of_holdsValues [Machine] (hcolumns : columns ≠ [])
    (hdisjoint : ∀ c ∈ columns, c ∉ calls.map AggregateCall.outputName)
    (h : List.Forall₂ (HoldsValues calls columns) (groupsOf columns rows) made) :
    made.map (groupKey columns) = (rows.map (groupKey columns)).eraseDups := by
  rw [groupsOf_of_ne_nil hcolumns, List.forall₂_map_left_iff] at h
  have hmembers : ∀ g ∈ groupRows columns rows, ∀ r ∈ g.2, groupKey columns r = g.1 :=
    fun g hg r hr => ((mem_members_iff hg).1 hr).2
  have hkeys : List.Forall₂ (fun g row => groupKey columns row = g.1) (groupRows columns rows) made := by
    apply ((List.forall₂_and_left _ _).2 ⟨hmembers, h⟩).imp
    rintro g row ⟨hkey, hrow⟩
    obtain ⟨c, hc⟩ := List.exists_mem_of_ne_nil _ hcolumns
    obtain ⟨first, hfirst, -⟩ := hrow.grouped c hc (hdisjoint c hc)
    rw [groupKey_congr (hrow.sameTexts hdisjoint hfirst)]
    exact hkey first (List.mem_of_mem_head? hfirst)
  have hmap : made.map (groupKey columns) = (groupRows columns rows).map Prod.fst := by
    rw [← List.forall₂_eq_eq_eq, List.forall₂_map_left_iff, List.forall₂_map_right_iff]
    exact hkeys.flip
  rw [hmap, groupRows_eq, List.map_map]
  exact List.map_id _

/-- The rows of groups are groups of one row again. -/
theorem groupsOf_of_holdsValues [Machine]
    (hdisjoint : ∀ c ∈ columns, c ∉ calls.map AggregateCall.outputName)
    (h : List.Forall₂ (HoldsValues calls columns) (groupsOf columns rows) made) :
    groupsOf columns made = made.map fun r => [r] := by
  by_cases hcolumns : columns = []
  · -- All rows are one group, and there is one row of it.
    subst hcolumns
    obtain ⟨row, hnil⟩ : ∃ row, made = [row] := by
      obtain ⟨row, rest, -, hrest, rfl⟩ := List.forall₂_cons_left_iff.1 h
      exact ⟨row, congrArg _ (List.forall₂_nil_left_iff.1 hrest)⟩
    rw [hnil]
    rfl
  · apply groupsOf_of_nodup hcolumns
    rw [keys_of_holdsValues hcolumns hdisjoint h]
    exact nodup_eraseDups _

/-- The groups have as many members as there are rows. -/
theorem sum_length_groupsOf (columns : List String) (rows : List Record) :
    ((groupsOf columns rows).map List.length).sum = rows.length := by
  by_cases hcolumns : columns = []
  · subst hcolumns
    exact List.sum_singleton
  · rw [groupsOf_of_ne_nil hcolumns, ← List.length_flatten, ← List.flatMap_def]
    exact (rowsParted_groupRows columns rows).all.length_eq

/-! ## Counting groups -/

/-- The number of rows. -/
def countAll : AggregateCall := ⟨.count, none, none⟩

/-- Counting all rows gives their number. -/
theorem compute_count [Machine] {a : AggregateCall} (hfunction : a.function = .count)
    (hcolumn : a.column = none) (stage : String) (rows : List Record) :
    a.compute stage rows = .ok (.number (.ofInt rows.length)) := by
  unfold AggregateCall.compute
  rw [hcolumn, hfunction]

/-- Each group of the rows of groups can be counted: it is one row, with the texts of that row. -/
theorem exists_counted [Machine] (hdisjoint : ∀ c ∈ columns, c ∉ calls.map AggregateCall.outputName)
    (hfree : "count" ∉ columns)
    (h : List.Forall₂ (HoldsValues calls columns) (groupsOf columns rows) made) :
    ∃ counted, (groupsOf columns made).mapM (groupRow "stats" [countAll] columns) = .ok counted ∧
      List.Forall₂ (fun row row' => row'.SameTexts columns row ∧
        row'.get? "count" = some (.number (.ofInt 1))) made counted := by
  have hnames : ([countAll].map AggregateCall.outputName).Nodup := List.nodup_singleton _
  have hfree' : ∀ c ∈ columns, c ∉ [countAll].map AggregateCall.outputName := by
    intro c hc hname
    obtain rfl : c = "count" := List.mem_singleton.1 hname
    exact hfree hc
  obtain ⟨counted, hcounted⟩ : ∃ counted,
      (groupsOf columns made).mapM (groupRow "stats" [countAll] columns) = .ok counted := by
    apply exists_mapM
    intro members _
    apply exists_groupRow
    intro a ha
    rw [List.mem_singleton.1 ha]
    exact ⟨_, compute_count rfl rfl "stats" members⟩
  refine ⟨counted, hcounted, ?_⟩
  have hholds := holdsValues_of_mapM hnames hcounted
  rw [groupsOf_of_holdsValues hdisjoint h, List.forall₂_map_left_iff] at hholds
  apply hholds.imp
  intro row row' hrow
  obtain ⟨f, hf, hget⟩ := hrow.aggregated countAll List.mem_cons_self
  rw [compute_count rfl rfl] at hf
  exact ⟨hrow.sameTexts hfree' rfl, hget.trans (congrArg some (Except.ok.inj hf).symm)⟩

/-- A count over a grouped table finds one row for each group, in order and under the same texts; and
the counts of the grouped table are of as many rows in all as it was made of. Up to the fifty-third
power of two, which no list in memory comes near, a count is read off its double exactly. -/
theorem regrouped_counts_one [Regex.Library] [Machine]
    (hnames : (calls.map AggregateCall.outputName).Nodup)
    (hdisjoint : ∀ c ∈ columns, c ∉ calls.map AggregateCall.outputName) {a : AggregateCall}
    (ha : a ∈ calls) (hfunction : a.function = .count) (hcolumn : a.column = none)
    (hfree : "count" ∉ columns) {range : TimeRange} {before after : Results}
    (h : (Stage.stats calls columns).apply range before = .ok after) :
    ∃ t, after.table = some t ∧
      (∃ sizes : List Nat,
        t.rows.map (fun row => row.get? a.outputName) =
          sizes.map (fun n => some (.number (.ofInt n))) ∧
        sizes.sum = before.rows.length ∧
        (before.rows.length ≤ 2 ^ 53 → ∀ n ∈ sizes, Number.toInt64 (Double.ofInt n).toFloat = n)) ∧
      ∃ again t', (Stage.stats [countAll] columns).apply range after = .ok again ∧
        again.table = some t' ∧
        List.Forall₂ (fun row row' => row'.SameTexts columns row ∧
          row'.get? "count" = some (.number (.ofInt 1))) t.rows t'.rows := by
  obtain ⟨made, hmade, rfl⟩ := apply_stats_eq_ok_iff.1 h
  have hholds := holdsValues_of_mapM hnames hmade
  have hsum := sum_length_groupsOf columns before.rows
  obtain ⟨counted, hcounted, hrows⟩ := exists_counted hdisjoint hfree hholds
  refine ⟨_, rfl, ⟨(groupsOf columns before.rows).map List.length, ?_, hsum, ?_⟩,
    _, _, apply_stats_eq_ok_iff.2 ⟨counted, hcounted, rfl⟩, rfl, hrows⟩
  · rw [← List.forall₂_eq_eq_eq, List.map_map, List.forall₂_map_left_iff,
      List.forall₂_map_right_iff]
    apply hholds.flip.imp
    intro row members hrow
    obtain ⟨f, hf, hget⟩ := hrow.aggregated a ha
    rw [compute_count hfunction hcolumn] at hf
    exact hget.trans (congrArg some (Except.ok.inj hf).symm)
  · intro hbound n hn
    rw [Double.ofInt, Double.toFloat_ofFloat]
    apply Number.toInt64_ofInt
    calc n ≤ ((groupsOf columns before.rows).map List.length).sum := List.le_sum_of_mem hn
      _ = before.rows.length := hsum
      _ ≤ 2 ^ 53 := hbound

attribute [local instance] Regex.standard Machine.stopping

/-- Two groups, of which one lacks the host, are one row each when they are grouped again. -/
theorem hosts_regrouped :
    let calls : List AggregateCall := [⟨.count, none, some "n"⟩, ⟨.first, some "host", none⟩]
    let row (fields : List (String × Field)) : Record :=
      fields.foldl (fun r (name, f) => r.set name f) (Record.ofMessage "")
    let before := Results.ofEvents
      [row [("host", .string "a"), ("port", .number (.ofFloat 1.0))], row [("port", .number (.ofFloat 2.0))],
        row [("host", .string "a"), ("port", .string "1")]]
    (calls.map AggregateCall.outputName).Nodup ∧
    (∀ c ∈ ["host", "port"], c ∉ calls.map AggregateCall.outputName) ∧
    "count" ∉ ["host", "port"] ∧
    ∃ after t, (Stage.stats calls ["host", "port"]).apply ⟨0, 1000⟩ before = .ok after ∧
      after.table = some t ∧
      ∃ again t', (Stage.stats [countAll] ["host", "port"]).apply ⟨0, 1000⟩ after = .ok again ∧
        again.table = some t' ∧ t.rows.length = 2 ∧
        List.Forall₂ (fun row row' => row'.SameTexts ["host", "port"] row ∧
          row'.get? "count" = some (.number (.ofInt 1))) t.rows t'.rows := by
  intro calls row before
  have hnames : (calls.map AggregateCall.outputName).Nodup := by decide
  have hdisjoint : ∀ c ∈ ["host", "port"], c ∉ calls.map AggregateCall.outputName := by decide
  have hfree : "count" ∉ ["host", "port"] := by decide
  obtain ⟨after, happly, hlength⟩ : ∃ after,
      (Stage.stats calls ["host", "port"]).apply ⟨0, 1000⟩ before = .ok after ∧
      ∀ t, after.table = some t → t.rows.length = 2 := by
    refine ⟨_, rfl, ?_⟩
    rintro t ⟨⟩
    rfl
  obtain ⟨t, ht, -, again, t', hagain, ht', hrows⟩ :=
    regrouped_counts_one hnames hdisjoint List.mem_cons_self rfl rfl hfree happly
  exact ⟨hnames, hdisjoint, hfree, after, t, happly, ht, again, t', hagain, ht', hlength t ht, hrows⟩

end

end LogSearch
