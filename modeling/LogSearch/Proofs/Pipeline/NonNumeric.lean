import LogSearch.Proofs.Pipeline.GroupRows
import LogSearch.Proofs.Pipeline.Series
import LogSearch.Regex.Program

/-!
# When a value that is no number stops a stage

Grouped rows and charts are made by the same aggregations, over other parts of the rows: a table has a
row for each group, a chart has a cell for each group in each bucket. Each row of the input is in one of
the groups, so a table meets every misfit that there is; a chart leaves out the rows outside of its range
and the groups that it has no series for, and looks at nothing if it would have too many buckets.

* `failsFirst_stats`, `exists_misfit_stats_iff`: the fault of a table, and when there is one.
* `TimeChart.Plan.nonNumeric_of_draw_iff`: which rows a chart can meet a misfit in.
* `fails_at_first_misfit`: both stages.
-/

namespace LogSearch

/-! ## Tables -/

/-- A table of groups fails with the first misfit in the groups. -/
theorem failsFirst_stats [Regex.Library] [Machine] (calls : List AggregateCall)
    (columns : List String) (range : TimeRange) (before : Results) :
    FailsFirst ((Stage.stats calls columns).apply range before)
      ((misfits calls (groupsOf columns before.rows)).map (Misfit.fault "stats")) := by
  have hmisfits : (misfits calls (groupsOf columns before.rows)).map (Misfit.fault "stats") =
      (groupsOf columns before.rows).flatMap fun members =>
        (misfits calls [members]).map (Misfit.fault "stats") := by
    unfold misfits
    simp only [List.flatMap_singleton, List.map_flatMap]
  rw [hmisfits]
  have hrows := FailsFirst.mapM fun members (_ : members ∈ groupsOf columns before.rows) =>
    failsFirst_groupRow "stats" calls columns members
  have htable := hrows.map fun made =>
    (⟨columns ++ calls.map AggregateCall.outputName, made⟩ : Table)
  exact htable.map fun t => (⟨before.events, some t, none⟩ : Results)

/-- The members of the groups are all rows. -/
theorem mem_groupsOf_iff (columns : List String) {rows : List Record} {r : Record} :
    (∃ members ∈ groupsOf columns rows, r ∈ members) ↔ r ∈ rows := by
  by_cases hcolumns : columns = []
  · subst hcolumns
    show (∃ members ∈ [rows], r ∈ members) ↔ r ∈ rows
    simp
  · rw [groupsOf_of_ne_nil hcolumns]
    constructor
    · rintro ⟨members, hmembers, hr⟩
      obtain ⟨g, hg, rfl⟩ := List.mem_map.1 hmembers
      exact ((mem_members_iff hg).1 hr).1
    · intro hr
      have hown : Together columns rows r r := (together_iff hr hr).2 rfl
      obtain ⟨g, hg, hrg, -⟩ := hown
      exact ⟨g.2, List.mem_map_of_mem hg, hrg⟩

/-- There is a misfit in the groups exactly if an aggregation meets one in some row. -/
theorem exists_misfit_stats_iff {calls : List AggregateCall} (columns : List String)
    {rows : List Record} :
    (∃ m, m ∈ misfits calls (groupsOf columns rows)) ↔
      ∃ a ∈ calls, ∃ r ∈ rows, ∃ m, a.Meets r m := by
  simp only [mem_misfits_iff]
  constructor
  · rintro ⟨m, members, hmembers, a, ha, r, hr, hm⟩
    exact ⟨a, ha, r, (mem_groupsOf_iff columns).1 ⟨members, hmembers, hr⟩, m, hm⟩
  · rintro ⟨a, ha, r, hr, m, hm⟩
    obtain ⟨members, hmembers, hr⟩ := (mem_groupsOf_iff columns).2 hr
    exact ⟨m, members, hmembers, a, ha, r, hr, hm⟩

/-! ## Charts -/

namespace TimeChart.Plan

variable {p : Plan} {rows : List Record}

/-- The cells of a chart have the rows in its range of which it has the group. -/
theorem mem_cells_iff (hspan : 0 < p.span) {groups : List String} {r : Record} :
    (∃ cell ∈ (List.range p.buckets).flatMap fun i => groups.map fun key =>
        (((p.place rows).filter fun q => q.bucket = i).filter fun q => q.key = key).map Placed.row,
      r ∈ cell) ↔
      r ∈ rowsWithin p.timeColumn p.range rows ∧ groupKey p.groupBy r ∈ groups := by
  rw [← map_row_place]
  constructor
  · rintro ⟨cell, hcell, hr⟩
    obtain ⟨i, -, hcell⟩ := List.mem_flatMap.1 hcell
    obtain ⟨key, hkey, rfl⟩ := List.mem_map.1 hcell
    obtain ⟨q, hq, rfl⟩ := List.mem_map.1 hr
    obtain ⟨hq, hqkey⟩ := List.mem_filter.1 hq
    have hplace : q ∈ p.place rows := (List.mem_filter.1 hq).1
    refine ⟨List.mem_map_of_mem hplace, ?_⟩
    rw [← key_of_mem_place hplace, of_decide_eq_true hqkey]
    exact hkey
  · rintro ⟨hr, hkey⟩
    obtain ⟨q, hq, rfl⟩ := List.mem_map.1 hr
    rw [← key_of_mem_place hq] at hkey
    refine ⟨_, List.mem_flatMap.2 ⟨q.bucket, List.mem_range.2 (bucket_lt hspan hq),
      List.mem_map_of_mem hkey⟩, List.mem_map_of_mem ?_⟩
    exact List.mem_filter.2 ⟨List.mem_filter.2 ⟨hq, decide_eq_true rfl⟩, decide_eq_true rfl⟩

/-- A chart that splits no rows has all of them in one group. -/
theorem mem_groups_iff {r : Record} : groupKey p.groupBy r ∈ p.groups (p.place rows) ↔
    p.groupBy = [] ∨ groupKey p.groupBy r ∈
      largestGroups p.groupBy p.maxGroups (rowsWithin p.timeColumn p.range rows) := by
  by_cases hby : p.groupBy = []
  · apply iff_of_true _ (.inl hby)
    rw [groups, hby, List.isEmpty_nil, if_pos rfl]
    exact List.mem_singleton.2 rfl
  · rw [groups_place hby, or_iff_right hby]

/-- A chart with all of its buckets cannot be drawn if an aggregation meets a misfit in a row in the
range of which the chart has the group. -/
theorem nonNumeric_of_draw_iff [Machine] (hspan : 0 < p.span) (h : p.drawnBuckets = .ok p.buckets) :
    (∃ column text, p.draw rows = .error (.nonNumeric stageName column text)) ↔
      ∃ a ∈ p.calls, ∃ r ∈ rowsWithin p.timeColumn p.range rows,
        groupKey p.groupBy r ∈ p.groups (p.place rows) ∧ ∃ m, a.Meets r m := by
  have hfault := failsFirst_draw h rows
  generalize hcells : ((List.range p.buckets).flatMap fun i => (p.groups (p.place rows)).map fun key =>
    (((p.place rows).filter fun q => q.bucket = i).filter fun q => q.key = key).map Placed.row) =
      cells at hfault
  have hmem : ∀ r, (∃ cell ∈ cells, r ∈ cell) ↔ r ∈ rowsWithin p.timeColumn p.range rows ∧
      groupKey p.groupBy r ∈ p.groups (p.place rows) := by
    intro r
    rw [← hcells]
    exact mem_cells_iff hspan
  rw [FailsFirst.exists_nonNumeric_iff hfault]
  simp only [mem_misfits_iff]
  constructor
  · rintro ⟨m, cell, hcell, a, ha, r, hr, hmeets⟩
    obtain ⟨hrange, hgroup⟩ := (hmem r).1 ⟨cell, hcell, hr⟩
    exact ⟨a, ha, r, hrange, hgroup, m, hmeets⟩
  · rintro ⟨a, ha, r, hrange, hgroup, m, hmeets⟩
    obtain ⟨cell, hcell, hr⟩ := (hmem r).2 ⟨hrange, hgroup⟩
    exact ⟨m, cell, hcell, a, ha, r, hr, hmeets⟩

end TimeChart.Plan

/-! ## The stages -/

/-- A table fails if an aggregation that needs numbers meets a misfit in a row of the input, and only
then; the fault is the first one, group by group, in each of them aggregation by aggregation, and for
each of these row by row. A chart that has not too many buckets fails for such a value if it is in a row
in the range, of a group that the chart has. The range and a bucket have to fit in a word together. -/
theorem fails_at_first_misfit [Regex.Library] [Machine] (calls : List AggregateCall)
    (columns : List String) (span : Option TimeSpan) (timeColumn : Option String)
    (maxGroups : Option Nat) (range : TimeRange) (before : Results) :
    let width := max 1 ((span.map TimeSpan.millis).getD (autoSpan range.length))
    let buckets := ⌈((range.stop - range.start : ℤ) : ℚ) / width⌉.toNat
    let inRange := rowsWithin (timeColumn.getD timeField) range before.rows
    (∀ e, (Stage.stats calls columns).apply range before = .error e ↔
      ∃ m, (misfits calls (groupsOf columns before.rows)).head? = some m ∧
        e = .nonNumeric "stats" m.column m.value.display) ∧
    ((∃ e, (Stage.stats calls columns).apply range before = .error e) ↔
      ∃ a ∈ calls, ∃ r ∈ before.rows, ∃ m, a.Meets r m) ∧
    (Machine.Fits (range.stop - range.start) →
      range.stop - range.start + width ≤ Number.int64Max →
      ((∃ column text, (Stage.timeChart span timeColumn maxGroups calls columns).apply range before =
          .error (.nonNumeric "timechart" column text)) ↔
        buckets ≤ 10000 ∧ ∃ a ∈ calls, ∃ r ∈ inRange,
          (columns = [] ∨ groupKey columns r ∈ largestGroups columns (maxGroups.getD 10) inRange) ∧
          ∃ m, a.Meets r m)) := by
  intro width buckets inRange
  have hstats := failsFirst_stats calls columns range before
  refine ⟨fun e => hstats.eq_error_iff, ?_, fun hlength hfits => ?_⟩
  · exact hstats.exists_error_iff.trans (exists_misfit_stats_iff columns)
  · let p := TimeChart.planOf range width timeColumn maxGroups calls columns
    have hspan : 0 < p.span := Int.lt_of_lt_of_le Int.one_pos (Int.le_max_left _ _)
    have hbuckets : p.buckets = buckets := TimeRange.parts_eq_ceil range.length hspan
    have hsum : 0 < range.length → range.length + width ≤ Machine.greatestSum := fun _ =>
      Int.le_trans hfits Machine.le_greatestSum
    have hcounted := TimeChart.Plan.counted_of_fits (p := p) hspan hlength hsum
    have hwidth : TimeChart.width range span = .ok width := TimeChart.width_of_fits hlength hsum
    have happly : ∀ e, (Stage.timeChart span timeColumn maxGroups calls columns).apply range before =
        .error e ↔ p.draw before.rows = .error e := by
      intro e
      rw [apply_timeChart_eq_error_iff, hwidth]
      simp [p]
    simp only [happly]
    rcases Nat.lt_or_ge 10000 buckets with hmany | hfew
    · have hdraw : p.draw before.rows = .error _ := bind_eq_error.2
        (.inl (TimeChart.Plan.drawnBuckets_of_many hcounted (hbuckets.symm ▸ hmany)))
      rw [hdraw]
      exact iff_of_false nofun fun h => absurd h.1 (Nat.not_le.2 hmany)
    · rw [and_iff_right hfew]
      apply (TimeChart.Plan.nonNumeric_of_draw_iff hspan
        (TimeChart.Plan.drawnBuckets_of_few hcounted (hbuckets.symm ▸ hfew))).trans
      simp only [TimeChart.Plan.mem_groups_iff]
      rfl

attribute [local instance] Regex.standard Machine.stopping

/-- A chart that would have too many buckets is refused for that, with a misfit in its range as well. -/
theorem too_many_buckets_come_first :
    let call : AggregateCall := ⟨.sum, some "x", none⟩
    let r : Record := ((Record.ofMessage "").withTime 0).set "x" (.string "slow")
    let range : TimeRange := ⟨0, 20000000⟩
    let after := (Stage.timeChart (some ⟨1, .seconds⟩) none none [call] []).apply range
      (Results.ofEvents [r])
    after = .error (.tooManyBuckets "timechart" 1000 20000 10000) ∧
    ¬ ((∃ column text, after = .error (.nonNumeric "timechart" column text)) ↔
      ∃ a ∈ [call], ∃ r ∈ rowsWithin timeField range [r],
        (([] : List String) = [] ∨ groupKey [] r ∈ largestGroups [] 10 (rowsWithin timeField range [r])) ∧
        ∃ m, a.Meets r m) := by
  intro call r range after
  have hafter : after = .error (.tooManyBuckets "timechart" 1000 20000 10000) := rfl
  refine ⟨hafter, fun h => ?_⟩
  have hmeets : call.Meets r ⟨"x", .string "slow"⟩ := ⟨by decide, rfl, rfl, rfl, by decide⟩
  have hrange : r ∈ rowsWithin timeField range [r] := List.mem_singleton.2 rfl
  obtain ⟨column, text, hfault⟩ := h.2 ⟨call, List.mem_cons_self, r, hrange, .inl rfl, _, hmeets⟩
  rw [hafter] at hfault
  cases hfault

end LogSearch
