import LogSearch.Proofs.Pipeline.Series
import LogSearch.Regex.Program

/-!
# Which groups a chart keeps

A chart that splits rows counts the rows of each group, sorts the groups by how many there are and keeps
the first ones. The sort is stable and does not depend on how many are kept, so that all charts of the
same rows keep groups from the front of one list.

* `RanksGroups`: all groups by rank, which is one order (`RanksGroups.unique`).
* `ranksGroups_rankedGroups`: the sort brings them in this order.
* `RanksGroups.size_le`: which groups are dropped.
* `ChartsGroups`: that a chart shows some groups and nothing else; `chartsGroups_draw`: what is drawn
  does.
* `largest_groups_kept`: the groups of all charts of the same rows.
-/

namespace LogSearch

/-! ## Groups by rank -/

/-- How many rows are in the group of a key. -/
def groupSize (columns : List String) (rows : List Record) (key : String) : ℕ :=
  rows.countP fun r => groupKey columns r = key

/-- All groups of some rows by rank: one stands before another if it has more rows, or if it has as many
and appears before the other. -/
structure RanksGroups (columns : List String) (rows : List Record) (ranked : List String) : Prop where
  all : ∀ key, key ∈ ranked ↔ ∃ r ∈ rows, groupKey columns r = key
  ordered : ranked.Pairwise fun k l =>
    groupSize columns rows l < groupSize columns rows k ∨
      groupSize columns rows k = groupSize columns rows l ∧
        (rows.map (groupKey columns)).idxOf k < (rows.map (groupKey columns)).idxOf l

/-- The keys of all groups, sorted by how many rows there are. -/
def rankedGroups (columns : List String) (rows : List Record) : List String :=
  ((groupRows columns rows).mergeSort fun g h => h.2.length ≤ g.2.length).map Prod.fst

section

variable {columns : List String} {rows : List Record}

/-- The largest groups are the first ones by rank. -/
theorem largestGroups_eq (columns : List String) (most : ℕ) (rows : List Record) :
    largestGroups columns most rows = (rankedGroups columns rows).take most :=
  List.map_take

/-- A group has as many members as there are rows with its key. -/
theorem length_eq_groupSize {g : String × List Record} (hg : g ∈ groupRows columns rows) :
    g.2.length = groupSize columns rows g.1 := by
  rw [(mem_groupRows_iff.1 hg).2, groupSize, List.countP_eq_length_filter]

/-- Sorting by size ranks the groups, since it is stable. -/
theorem ranksGroups_rankedGroups (columns : List String) (rows : List Record) :
    RanksGroups columns rows (rankedGroups columns rows) where
  all := by
    intro key
    unfold rankedGroups
    rw [List.mem_map]
    constructor
    · rintro ⟨g, hg, rfl⟩
      exact (mem_groupRows_iff.1 (List.mem_mergeSort.1 hg)).1
    · intro hkey
      have hg : (key, rows.filter fun r => groupKey columns r = key) ∈ groupRows columns rows :=
        mem_groupRows_iff.2 ⟨hkey, rfl⟩
      exact ⟨_, List.mem_mergeSort.2 hg, rfl⟩
  ordered := by
    have htrans := trans_decide (r := fun g h : String × List Record => h.2.length ≤ g.2.length)
      fun _ _ _ hgh hhi => Nat.le_trans hhi hgh
    have htotal := total_decide (r := fun g h : String × List Record => h.2.length ≤ g.2.length)
      fun g h => Nat.le_total h.2.length g.2.length
    have hsorted := List.pairwise_mergeSort htrans htotal (groupRows columns rows)
    have hstable := pairwise_mergeSort_of_alike htrans htotal
      (rowsParted_groupRows columns rows).ordered
    apply List.pairwise_map.2
    apply List.Pairwise.imp_of_mem _ (hsorted.and hstable)
    rintro g h hg hh ⟨hle, htie⟩
    rw [← length_eq_groupSize (List.mem_mergeSort.1 hg), ← length_eq_groupSize (List.mem_mergeSort.1 hh)]
    rcases Nat.lt_or_eq_of_le (of_decide_eq_true hle) with hlt | heq
    · exact .inl hlt
    · exact .inr ⟨heq.symm, htie (decide_eq_true heq.symm.le)⟩

/-- There is one order of the groups by rank. -/
theorem RanksGroups.unique {ranked ranked' : List String} (h : RanksGroups columns rows ranked)
    (h' : RanksGroups columns rows ranked') : ranked = ranked' := by
  have hnodup : ∀ {keys}, RanksGroups columns rows keys → keys.Nodup := by
    intro keys hkeys
    apply hkeys.ordered.imp
    rintro k l hkl rfl
    omega
  apply List.Perm.eq_of_pairwise _ h.ordered h'.ordered
  · exact (List.perm_ext_iff_of_nodup (hnodup h) (hnodup h')).2 fun key =>
      (h.all key).trans (h'.all key).symm
  · intro k l _ _ hkl hlk
    omega

/-- A group behind the first ones is not larger than any of them. -/
theorem RanksGroups.size_le {ranked : List String} (h : RanksGroups columns rows ranked) {most : ℕ}
    {k l : String} (hk : k ∈ ranked.take most) (hl : l ∈ ranked) (hdropped : l ∉ ranked.take most) :
    groupSize columns rows l ≤ groupSize columns rows k := by
  have hsplit := List.take_append_drop most ranked
  have hl' : l ∈ ranked.drop most := by
    rw [← hsplit, List.mem_append] at hl
    exact hl.resolve_left hdropped
  have hordered := h.ordered
  rw [← hsplit, List.pairwise_append] at hordered
  rcases hordered.2.2 k hk l hl' with hlt | ⟨heq, -⟩
  · exact hlt.le
  · exact heq.symm.le

end

/-! ## The groups of a chart -/

/-- The name of the series of a group and an aggregation. -/
def seriesName (calls : List AggregateCall) (key : String) (a : AggregateCall) : String :=
  if 1 < calls.length then key ++ ": " ++ a.outputName else key

/-- A table and a chart show some groups and nothing else: their series are, for each group in turn, the
aggregations, and all that a bucket has are the values of these over the members of the groups. -/
structure ChartsGroups [Machine] (groups : List String) (calls : List AggregateCall) (buckets : ℕ)
    (start : ℕ → Int) (members : ℕ → String → List Record) (t : Table) (c : Chart) : Prop where
  series : c.series.map Series.name = groups.flatMap fun key => calls.map (seriesName calls key)
  columns : t.columns = "_time" :: c.series.map Series.name
  length : t.rows.length = buckets ∧ c.points.length = buckets
  values : ∀ i < buckets, ∃ values : List (String × Field),
    List.Forall₂ (fun q v => v.1 = seriesName calls q.1 q.2 ∧
      q.2.compute "timechart" (members i q.1) = .ok v.2) (groups ×ˢ calls) values ∧
    t.rows[i]? = some (TimeChart.Plan.bucketRow (start i) values) ∧
    c.points[i]? = some (TimeChart.Plan.bucketPoint (start i) values)

namespace TimeChart.Plan

variable {p : Plan} {rows : List Record}

/-- A plan names its series by group and aggregation. -/
theorem seriesName_eq (hby : p.groupBy ≠ []) (key : String) (a : AggregateCall) :
    p.seriesName key a = LogSearch.seriesName p.calls key a := by
  unfold seriesName LogSearch.seriesName
  rw [if_neg (by simpa using hby)]

/-- What is drawn shows the groups with the highest ranks. -/
theorem chartsGroups_draw [Machine] (hby : p.groupBy ≠ []) (hspan : 0 < p.span) {t : Table} {c : Chart}
    (h : p.draw rows = .ok (t, c)) :
    ChartsGroups
      ((rankedGroups p.groupBy (rowsWithin p.timeColumn p.range rows)).take p.maxGroups)
      p.calls t.rows.length p.bucketStart (p.cell rows) t c := by
  obtain ⟨drawn, -, hdrawn, rfl, hseries, hpoints⟩ := exists_drawn h
  rw [← largestGroups_eq, ← groups_place hby rows]
  have hname : p.seriesName = LogSearch.seriesName p.calls := by
    funext key a
    exact seriesName_eq hby key a
  refine ⟨?_, rfl, ⟨rfl, ?_⟩, fun i hi => ?_⟩
  · rw [hseries, series, hname, List.map_flatMap]
    simp only [List.map_map, Function.comp_def]
  · rw [hpoints, List.length_map, List.length_map]
  · rw [List.length_map] at hi
    obtain ⟨d, hd⟩ : ∃ d, drawn[i]? = some d := ⟨_, List.getElem?_eq_getElem hi⟩
    obtain ⟨values, hvalues, rfl⟩ := hdrawn i d hd
    refine ⟨values, ?_, ?_, ?_⟩
    · rw [← hname]
      exact forall₂_of_cell hspan hvalues
    · rw [List.getElem?_map, hd]
      rfl
    · rw [hpoints, List.getElem?_map, hd]
      rfl

end TimeChart.Plan

/-- A chart that splits rows keeps the first of all groups with a row in its range, as many as it may
have, in the order of their ranks: none that it drops has more rows than one that it keeps, and a chart
of the same rows that may have more groups has the same series and further ones behind them. It has as
many buckets as cover the range if the range and a bucket fit in a word together. -/
theorem largest_groups_kept [Regex.Library] [Machine] {groupBy : List String} (hby : groupBy ≠ [])
    (span : Option TimeSpan) (timeColumn : Option String) (calls : List AggregateCall)
    (range : TimeRange) (before : Results) :
    let stage (maxGroups : Option ℕ) := Stage.timeChart span timeColumn maxGroups calls groupBy
    let chosen := max 1 ((span.map TimeSpan.millis).getD (autoSpan range.length))
    let buckets := ⌈((range.stop - range.start : ℤ) : ℚ) / chosen⌉.toNat
    let inRange := rowsWithin (timeColumn.getD timeField) range before.rows
    (∃ ranked, RanksGroups groupBy inRange ranked) ∧
    ∀ ranked, RanksGroups groupBy inRange ranked →
      ∀ maxGroups after, (stage maxGroups).apply range before = .ok after →
        let kept := ranked.take (min (maxGroups.getD 10) ranked.length)
        ∃ width, TimeChart.width range span = .ok width ∧
        let start (i : ℕ) := range.start + i * width
        let members (i : ℕ) (key : String) := (rowsWithin (timeColumn.getD timeField)
          ⟨start i, min (range.start + (i + 1) * width) range.stop⟩ before.rows).filter
            fun r => groupKey groupBy r = key
        ∃ (t : Table) (c : Chart), after = ⟨before.events, some t, some c⟩ ∧
          ChartsGroups kept calls t.rows.length start members t c ∧
          (Machine.Fits (range.stop - range.start) →
            range.stop - range.start + chosen ≤ Number.int64Max →
              width = chosen ∧ t.rows.length = buckets) ∧
          (∀ k ∈ kept, ∀ l ∈ ranked, l ∉ kept →
            groupSize groupBy inRange l ≤ groupSize groupBy inRange k) ∧
          ∀ more after', maxGroups.getD 10 ≤ more.getD 10 →
            (stage more).apply range before = .ok after' →
            ∃ (t' : Table) (c' : Chart), after' = ⟨before.events, some t', some c'⟩ ∧
              c.series.map Series.name <+: c'.series.map Series.name := by
  intro stage chosen buckets inRange
  have hsorted := ranksGroups_rankedGroups groupBy inRange
  refine ⟨⟨_, hsorted⟩, fun ranked hranked maxGroups after h => ?_⟩
  obtain rfl := hsorted.unique hranked
  obtain ⟨width, hwidth, t, c, hdraw, rfl⟩ := apply_timeChart_eq_ok_iff.1 h
  have hspan := (TimeChart.width_bounds hwidth).1
  have hchart := TimeChart.Plan.chartsGroups_draw hby hspan hdraw
  dsimp only
  rw [← List.take_eq_take_min]
  refine ⟨width, hwidth, t, c, rfl, hchart, fun hlength hfits => ?_,
    fun k hk l hl hdropped => hranked.size_le hk hl hdropped, fun more after' hmore h' => ?_⟩
  · have hsum : 0 < range.length → range.length + _ ≤ _ := fun _ =>
      Int.le_trans hfits Machine.le_greatestSum
    obtain rfl := Except.ok.inj ((TimeChart.width_of_fits hlength hsum).symm.trans hwidth)
    refine ⟨rfl, ?_⟩
    have hcounted := TimeChart.Plan.counted_of_fits
      (p := TimeChart.planOf range _ timeColumn maxGroups calls groupBy) hspan hlength hsum
    exact (TimeChart.Plan.length_of_counted hcounted hdraw).trans
      (TimeRange.parts_eq_ceil range.length hspan)
  · obtain ⟨width', hwidth', t', c', hdraw', rfl⟩ := apply_timeChart_eq_ok_iff.1 h'
    have hchart' := TimeChart.Plan.chartsGroups_draw hby (TimeChart.width_bounds hwidth').1 hdraw'
    refine ⟨t', c', rfl, ?_⟩
    rw [hchart.series, hchart'.series]
    obtain ⟨further, hfurther⟩ := List.take_prefix_take_left (l := rankedGroups groupBy inRange) hmore
    change ((rankedGroups groupBy inRange).take (maxGroups.getD 10)).flatMap _ <+:
      ((rankedGroups groupBy inRange).take (more.getD 10)).flatMap _
    rw [← hfurther, List.flatMap_append]
    exact List.prefix_append _ _

attribute [local instance] Regex.standard Machine.stopping

/-- Of three hosts the two with the most rows, whatever the order in which they appear. -/
theorem two_busiest_hosts :
    let calls : List AggregateCall := [⟨.count, none, none⟩]
    let row (t : Int) (host : String) : Record :=
      ((Record.ofMessage "").withTime t).set "host" (.string host)
    let before := Results.ofEvents
      [row 1 "rare", row 2 "busy", row 3 "busy", row 4 "mid", row 5 "mid", row 6 "busy"]
    (["host"] : List String) ≠ [] ∧
    ∃ (t : Table) (c : Chart), (Stage.timeChart (some ⟨1, .minutes⟩) none (some 2) calls ["host"]).apply
        ⟨0, 60000⟩ before = .ok ⟨before.events, some t, some c⟩ ∧
      c.series.map Series.name = ["busy", "mid"] := by
  intro calls row before
  have hwithin : rowsWithin timeField ⟨0, 60000⟩ before.rows = before.rows := rfl
  have hkeys : before.rows.map (groupKey ["host"]) = ["rare", "busy", "busy", "mid", "mid", "busy"] := by
    decide +kernel
  have hranks : RanksGroups ["host"] before.rows ["busy", "mid", "rare"] := by
    refine ⟨fun key => ?_, by decide +kernel⟩
    rw [← List.mem_map, hkeys]
    grind
  let p : TimeChart.Plan := ⟨⟨0, 60000⟩, 60000, timeField, 2, calls, ["host"]⟩
  have hgroups : p.groups (p.place before.rows) = ["busy", "mid"] := by
    rw [TimeChart.Plan.groups_place (by decide), hwithin, largestGroups_eq,
      (ranksGroups_rankedGroups ["host"] before.rows).unique hranks]
    rfl
  obtain ⟨⟨t, c⟩, hdraw⟩ : ∃ drawn, p.draw before.rows = .ok drawn := by
    unfold TimeChart.Plan.draw
    simp only [hgroups]
    exact ⟨_, rfl⟩
  have happly : (Stage.timeChart (some ⟨1, .minutes⟩) none (some 2) calls ["host"]).apply ⟨0, 60000⟩
    before = .ok ⟨before.events, some t, some c⟩ :=
    apply_timeChart_eq_ok_iff.2 ⟨60000, rfl, t, c, hdraw, rfl⟩
  have hby : (["host"] : List String) ≠ [] := by decide
  obtain ⟨-, hkept⟩ := largest_groups_kept hby (some ⟨1, .minutes⟩) none calls ⟨0, 60000⟩ before
  obtain ⟨_, _, t', c', hafter, hchart, -⟩ :=
    hkept ["busy", "mid", "rare"] (hwithin ▸ hranks) (some 2) _ happly
  exact ⟨hby, t', c', happly.trans (congrArg Except.ok hafter), hchart.series⟩

end LogSearch
