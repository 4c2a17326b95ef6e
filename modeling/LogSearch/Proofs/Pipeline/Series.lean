import LogSearch.Proofs.Pipeline.Buckets
import LogSearch.Proofs.Pipeline.Groups
import LogSearch.Proofs.Query.WellFormed
import LogSearch.Regex.Program
import Mathlib.Data.List.ProdSigma

/-!
# The series of a chart that splits rows

Each of the largest groups has a series for each aggregation. The name of a series is the group, with
the aggregation behind it if there are several, and all values of a bucket are written under such
names, into one row, which has the start of the bucket under a name of its own. What is written last
under a name is what stays.

* `largestGroups`, `groups_place`: the groups of a chart.
* `eq_or_nested`, `nodup_names_iff`: which series have one name.
* `get?_bucketRow_of_mem`: what the row of a bucket has under a name.
* `KeepsSeries`: what one would read from the table and the chart, each value under its own name.
* `TimeChart.Plan.keepsSeries_of_words`: with several aggregations of a text this can be read.
* `series_kept_apart_iff`: all charts from which this can be read.
-/

namespace LogSearch

/-! ## The largest groups -/

/-- The keys of the groups with the most rows; of equal ones the first to appear comes first. -/
def largestGroups (columns : List String) (most : Nat) (rows : List Record) : List String :=
  (((groupRows columns rows).mergeSort fun g h => h.2.length ≤ g.2.length).take most).map Prod.fst

/-- The largest groups are different ones. -/
theorem nodup_largestGroups (columns : List String) (most : Nat) (rows : List Record) :
    (largestGroups columns most rows).Nodup := by
  have hkeys : ((groupRows columns rows).map Prod.fst).Nodup := by
    rw [groupRows_eq, List.map_map]
    exact (List.map_id _).symm ▸ nodup_eraseDups _
  have hsorted := ((List.mergeSort_perm (groupRows columns rows)
    fun g h => h.2.length ≤ g.2.length).map Prod.fst).nodup_iff.2 hkeys
  exact hsorted.sublist ((List.take_sublist _ _).map _)

namespace TimeChart.Plan

variable {p : Plan} {rows : List Record}

/-- A placed row stands under the key of its group. -/
theorem key_of_mem_place {q : Placed} (h : q ∈ p.place rows) : q.key = groupKey p.groupBy q.row := by
  obtain ⟨r, -, hq⟩ := List.mem_filterMap.1 h
  obtain ⟨t, -, -, rfl⟩ := placeOf?_eq_some_iff.1 hq
  rfl

/-- The keys of the rows that have a place. -/
theorem map_key_place (p : Plan) (rows : List Record) : (p.place rows).map Placed.key =
    (rowsWithin p.timeColumn p.range rows).map (groupKey p.groupBy) := by
  rw [← map_row_place, List.map_map]
  exact List.map_congr_left fun q hq => key_of_mem_place hq

/-- The rows under a key are those of its group. -/
theorem map_row_filter_key {placed : List Placed} (h : placed ⊆ p.place rows) (key : String) :
    (placed.filter fun q => q.key = key).map Placed.row =
      (placed.map Placed.row).filter fun r => groupKey p.groupBy r = key := by
  rw [List.filter_map]
  congr 1
  apply List.filter_congr
  intro q hq
  rw [key_of_mem_place (h hq)]
  rfl

/-- A chart that splits rows has the largest groups of the rows in its range. -/
theorem groups_place (hby : p.groupBy ≠ []) (rows : List Record) :
    p.groups (p.place rows) =
      largestGroups p.groupBy p.maxGroups (rowsWithin p.timeColumn p.range rows) := by
  have hsizes : (groupByKey ((p.place rows).map fun q => (q.key, ()))).map
      (fun g => (g.1, g.2.length)) =
      (groupRows p.groupBy (rowsWithin p.timeColumn p.range rows)).map
        fun g => (g.1, g.2.length) := by
    unfold groupByKey
    rw [groupRows_eq, ← map_key_place, List.map_map, List.map_map, List.map_map]
    apply List.map_congr_left
    intro key _
    have hlength := congrArg List.length (map_row_filter_key (List.Subset.refl _) key : _ =
      ((p.place rows).map Placed.row).filter fun r => groupKey p.groupBy r = key)
    rw [List.length_map, map_row_place] at hlength
    simp only [Function.comp_apply, List.filter_map, List.length_map]
    exact congrArg (Prod.mk key) hlength
  unfold groups largestGroups
  rw [if_neg (by simpa using hby)]
  dsimp only
  rw [hsizes, ← List.map_mergeSort (f := fun g : String × List Record => (g.1, g.2.length))
    (fun _ _ _ _ => rfl), ← List.map_take, List.map_map]
  rfl

end TimeChart.Plan

/-! ## Names of series -/

/-- What ends in a colon, a blank and a name in two ways has the one name inside the other. -/
theorem nested_rest {rest o o' : List Char} (h : ':' :: ' ' :: o = rest ++ ':' :: ' ' :: o') :
    rest = [] ∧ o = o' ∨ ∃ w, rest = ':' :: ' ' :: w ∧ o = w ++ ':' :: ' ' :: o' := by
  match rest, h with
  | [], h => exact .inl ⟨rfl, (List.cons.inj (List.cons.inj h).2).2⟩
  | [_], h => exact absurd (List.cons.inj (List.cons.inj h).2).1 (by decide)
  | c :: d :: w, h =>
    obtain ⟨hc, h⟩ := List.cons.inj h
    obtain ⟨hd, h⟩ := List.cons.inj h
    exact .inr ⟨w, by rw [hc, hd], h⟩

/-- Texts with a colon and a blank between them that come to one text have the same parts, or one of
the parts has a colon and a blank itself. -/
theorem eq_or_nested {k l o o' : String} (h : k ++ ": " ++ o = l ++ ": " ++ o') :
    k = l ∧ o = o' ∨ (∃ w, l = k ++ ": " ++ w ∧ o = w ++ ": " ++ o') ∨
      ∃ w, k = l ++ ": " ++ w ∧ o' = w ++ ": " ++ o := by
  have hcolon : ": ".toList = [':', ' '] := rfl
  have hchars := congrArg String.toList h
  simp only [String.toList_append, hcolon, List.append_assoc, List.cons_append,
    List.nil_append] at hchars
  rcases List.append_eq_append_iff.1 hchars with ⟨rest, hl, hrest⟩ | ⟨rest, hk, hrest⟩
  · rcases nested_rest hrest with ⟨rfl, ho⟩ | ⟨w, rfl, ho⟩
    · exact .inl ⟨String.toList_inj.1 (by simpa using hl.symm), String.toList_inj.1 ho⟩
    · exact .inr (.inl ⟨String.ofList w, String.toList_inj.1 (by simpa [hcolon] using hl),
        String.toList_inj.1 (by simpa [hcolon] using ho)⟩)
  · rcases nested_rest hrest with ⟨rfl, ho⟩ | ⟨w, rfl, ho⟩
    · exact .inl ⟨String.toList_inj.1 (by simpa using hk), String.toList_inj.1 ho.symm⟩
    · exact .inr (.inr ⟨String.ofList w, String.toList_inj.1 (by simpa [hcolon] using hk),
        String.toList_inj.1 (by simpa [hcolon] using ho)⟩)

/-- A colon and a blank between two texts take two characters. -/
theorem length_append_colon (s t : String) : (s ++ ": " ++ t).length = s.length + 2 + t.length := by
  rw [String.length_append, String.length_append]
  rfl

/-- A name with a colon and a blank is not that of the instant. -/
theorem append_colon_ne_time (k o : String) : k ++ ": " ++ o ≠ "_time" := by
  intro h
  have hmem : ' ' ∈ (k ++ ": " ++ o).toList := by simp
  rw [h] at hmem
  exact absurd hmem (by decide)

namespace TimeChart.Plan

variable {p : Plan} {groups : List String}

/-- The series are the pairs of a group and an aggregation, each with its name. -/
theorem series_eq (p : Plan) (groups : List String) :
    p.series groups = (groups ×ˢ p.calls).map fun q => (q.1, q.2, p.seriesName q.1 q.2) := by
  simp [series, SProd.sprod, List.product, List.map_flatMap, Function.comp_def]

/-- With several aggregations a series is named by its group and its aggregation. -/
theorem seriesName_of_many (hby : p.groupBy ≠ []) (h : 1 < p.calls.length) (key : String)
    (a : AggregateCall) : p.seriesName key a = key ++ ": " ++ a.outputName := by
  unfold seriesName
  rw [if_neg (by simpa using hby), if_pos h]

/-- With one aggregation a series is named by its group. -/
theorem seriesName_of_one (hby : p.groupBy ≠ []) (h : ¬ 1 < p.calls.length) (key : String)
    (a : AggregateCall) : p.seriesName key a = key := by
  unfold seriesName
  rw [if_neg (by simpa using hby), if_neg h]

/-- With one aggregation there are no two different ones. -/
theorem eq_of_one (h : ¬ 1 < p.calls.length) {a b : AggregateCall} (ha : a ∈ p.calls)
    (hb : b ∈ p.calls) : a = b := by
  obtain hlength | hlength : p.calls.length = 0 ∨ p.calls.length = 1 := by omega
  · rw [List.length_eq_zero_iff.1 hlength] at ha
    exact absurd ha List.not_mem_nil
  · obtain ⟨c, hc⟩ := List.length_eq_one_iff.1 hlength
    rw [hc, List.mem_singleton] at ha hb
    exact ha.trans hb.symm

/-- Series have different names unless a group and an aggregation come to the name of others. -/
theorem nodup_names_iff (hby : p.groupBy ≠ []) (hgroups : groups.Nodup)
    (hnames : (p.calls.map AggregateCall.outputName).Nodup) :
    ((groups ×ˢ p.calls).map fun q => p.seriesName q.1 q.2).Nodup ↔
      ∀ k ∈ groups, ∀ w, k ++ ": " ++ w ∈ groups → ∀ a ∈ p.calls, ∀ b ∈ p.calls,
        a.outputName ≠ w ++ ": " ++ b.outputName := by
  rw [List.nodup_map_iff_inj_on (hgroups.product (hnames.of_map _))]
  by_cases hmany : 1 < p.calls.length
  · simp only [seriesName_of_many hby hmany]
    constructor
    · intro hinj k hk w hw a ha b hb hname
      have hsame := hinj (k, a) (List.mem_product.2 ⟨hk, ha⟩) (k ++ ": " ++ w, b)
        (List.mem_product.2 ⟨hw, hb⟩) (by simp only [hname, String.append_assoc])
      have hlength := congrArg (fun q => q.1.length) hsame
      simp only [length_append_colon] at hlength
      omega
    · rintro hfree ⟨k, a⟩ hq ⟨l, b⟩ hr h
      obtain ⟨hk, ha⟩ := List.mem_product.1 hq
      obtain ⟨hl, hb⟩ := List.mem_product.1 hr
      rcases eq_or_nested h with ⟨hkey, hname⟩ | ⟨w, rfl, hname⟩ | ⟨w, rfl, hname⟩
      · exact Prod.ext hkey (List.inj_on_of_nodup_map hnames ha hb hname)
      · exact absurd hname (hfree k hk w hl a ha b hb)
      · exact absurd hname (hfree l hl w hk b hb a ha)
  · simp only [seriesName_of_one hby hmany]
    refine iff_of_true ?_ ?_
    · rintro ⟨k, a⟩ hq ⟨l, b⟩ hr h
      exact Prod.ext h (eq_of_one hmany (List.mem_product.1 hq).2 (List.mem_product.1 hr).2)
    · intro k _ w _ a ha b hb h
      have hlength := congrArg String.length h
      rw [length_append_colon, eq_of_one hmany ha hb] at hlength
      omega

/-- Only a group of this name makes a series `_time`, if it has one series. -/
theorem seriesName_eq_time_iff (hby : p.groupBy ≠ []) {key : String} {a : AggregateCall}
    (ha : a ∈ p.calls) : p.seriesName key a = "_time" ↔ p.calls = [a] ∧ key = "_time" := by
  by_cases hmany : 1 < p.calls.length
  · rw [seriesName_of_many hby hmany]
    refine iff_of_false (append_colon_ne_time key a.outputName) fun h => ?_
    rw [h.1] at hmany
    exact absurd hmany (Nat.lt_irrefl 1)
  · rw [seriesName_of_one hby hmany]
    refine (and_iff_right ?_).symm
    have hlength : p.calls.length = 1 := by
      have := List.length_pos_of_mem ha
      omega
    obtain ⟨c, hc⟩ := List.length_eq_one_iff.1 hlength
    rw [hc] at ha
    rw [hc, List.mem_singleton.1 ha]

end TimeChart.Plan

/-! ## The row of a bucket -/

/-- Values with different names are all there in the end, and nothing else is touched. -/
theorem get?_writeValues {values : List (String × Field)} (h : (values.map Prod.fst).Nodup)
    (r : Record) (name : String) :
    (∀ f, (name, f) ∈ values →
      (values.foldl (fun r (name, f) => r.set name f) r).get? name = some f) ∧
    (name ∉ values.map Prod.fst →
      (values.foldl (fun r (name, f) => r.set name f) r).get? name = r.get? name) := by
  induction values generalizing r with
  | nil => exact ⟨fun _ hf => absurd hf List.not_mem_nil, fun _ => rfl⟩
  | cons v values ih =>
    obtain ⟨hnew, hrest⟩ := List.nodup_cons.1 h
    obtain ⟨hin, hout⟩ := ih hrest (r.set v.1 v.2)
    constructor
    · intro f hf
      rcases List.mem_cons.1 hf with rfl | hf
      · exact (hout hnew).trans ((Record.get?_set ..).trans (if_pos rfl))
      · exact hin f hf
    · intro hname
      rw [List.map_cons, List.mem_cons, not_or] at hname
      exact (hout hname.2).trans ((Record.get?_set ..).trans (if_neg (Ne.symm hname.1)))

namespace TimeChart.Plan

variable {values : List (String × Field)} {start : Int} {name : String}

/-- Leaving out what is null leaves different names different. -/
theorem nodup_nonNull (h : (values.map Prod.fst).Nodup) :
    ((values.filter fun v => !v.2.isNull).map Prod.fst).Nodup :=
  h.sublist (List.filter_sublist.map _)

/-- A row that starts a bucket has its instant and nothing else. -/
theorem get?_bucketStart (start : Int) (name : String) :
    ((Record.ofMessage "").withTime start).get? name =
      if timeField = name then some (Field.date start) else none := Record.get?_set ..

/-- The row has each value that is not null under its name. -/
theorem get?_bucketRow_of_mem (h : (values.map Prod.fst).Nodup) {f : Field}
    (hf : (name, f) ∈ values) : (bucketRow start values).get? name =
      if f.isNull then (if timeField = name then some (Field.date start) else none)
      else some f := by
  obtain ⟨hin, hout⟩ := get?_writeValues (nodup_nonNull h) ((Record.ofMessage "").withTime start) name
  cases hnull : f.isNull with
  | false =>
    rw [if_neg Bool.false_ne_true]
    exact hin f (List.mem_filter.2 ⟨hf, by rw [hnull]; rfl⟩)
  | true =>
    rw [if_pos rfl, ← get?_bucketStart]
    apply hout
    intro hmem
    obtain ⟨v, hv, hname⟩ := List.mem_map.1 hmem
    obtain ⟨hv, hpresent⟩ := List.mem_filter.1 hv
    rw [List.inj_on_of_nodup_map h hv hf hname, hnull] at hpresent
    exact absurd hpresent (by decide)

/-- Where no value has this name the row has the start of the bucket. -/
theorem get?_bucketRow_time (h : (values.map Prod.fst).Nodup)
    (htime : timeField ∉ values.map Prod.fst) :
    (bucketRow start values).get? timeField = some (Field.date start) := by
  have hout := (get?_writeValues (nodup_nonNull h) ((Record.ofMessage "").withTime start) timeField).2
  rw [get?_bucketStart, if_pos rfl] at hout
  exact hout fun hmem => htime ((List.filter_sublist.map Prod.fst).subset hmem)

end TimeChart.Plan

/-! ## Reading series -/

/-- A row and a point show a bucket: the row has its start, and both have under the name of each
series the aggregation over the members of the group, the row unless it is null and the point if it is
a number. -/
structure ShowsBucket [Machine] (pairs : List (String × AggregateCall)) (names : List String)
    (start : Int) (members : String → List Record) (row : Record) (point : ChartPoint) : Prop where
  time : row.get? "_time" = some (Field.date start)
  timestamp : point.timestamp = start
  values : ∀ (n : ℕ) (q : String × AggregateCall) (name : String), pairs[n]? = some q →
    names[n]? = some name → ∃ f, q.2.compute "timechart" (members q.1) = .ok f ∧
      row.get? name = (if f.isNull then none else some f) ∧
      Dict.get? name point.values = f.asNumber?

/-- A table and a chart keep series apart: there is one for each pair of a group and an aggregation, no
two have the same name, and each bucket has a row and a point that show it. -/
structure KeepsSeries [Machine] (pairs : List (String × AggregateCall)) (buckets : ℕ)
    (start : ℕ → Int) (members : ℕ → String → List Record) (t : Table) (c : Chart) : Prop where
  columns : t.columns = "_time" :: c.series.map Series.name
  paired : c.series.length = pairs.length
  distinct : (c.series.map Series.name).Nodup
  rows : t.rows.length = buckets
  points : c.points.length = buckets
  shown : ∀ (i : ℕ) (row : Record) (point : ChartPoint), t.rows[i]? = some row →
    c.points[i]? = some point →
    ShowsBucket pairs (c.series.map Series.name) (start i) (members i) row point

namespace TimeChart.Plan

/-- What is drawn of a bucket shows it if what is written over its start, if anything, is its start. -/
theorem showsBucket_iff [Machine] {pairs : List (String × AggregateCall)}
    {name : String × AggregateCall → String} {members : String → List Record}
    {values : List (String × Field)}
    (hvalues : List.Forall₂
      (fun q v => v.1 = name q ∧ q.2.compute "timechart" (members q.1) = .ok v.2) pairs values)
    (hnames : (pairs.map name).Nodup) (start : Int) :
    ShowsBucket pairs (pairs.map name) start members (bucketRow start values)
        (bucketPoint start values) ↔
      ∀ q ∈ pairs, name q = "_time" →
        q.2.compute "timechart" (members q.1) = .ok (Field.date start) := by
  have hkeys : values.map Prod.fst = pairs.map name := by
    rw [← List.forall₂_eq_eq_eq, List.forall₂_map_left_iff, List.forall₂_map_right_iff]
    exact (hvalues.imp fun _ _ h => h.1).flip
  have hnodup : (values.map Prod.fst).Nodup := hkeys ▸ hnames
  have hvalue : ∀ q ∈ pairs, ∃ f, (name q, f) ∈ values ∧
      q.2.compute "timechart" (members q.1) = .ok f := by
    intro q hq
    obtain ⟨v, hv, hname, hf⟩ := exists_of_forall₂ hvalues hq
    exact ⟨v.2, hname ▸ hv, hf⟩
  constructor
  · intro h q hq htime
    obtain ⟨n, hn⟩ := List.mem_iff_getElem?.1 hq
    obtain ⟨f, hf, hget, -⟩ := h.values n q (name q) hn (by rw [List.getElem?_map, hn]; rfl)
    rw [htime, h.time] at hget
    split at hget
    · cases hget
    · rw [hf, Option.some.inj hget]
  · intro h
    refine ⟨?_, rfl, fun n q name' hq hname => ?_⟩
    · by_cases hmem : "_time" ∈ pairs.map name
      · obtain ⟨q, hq, htime⟩ := List.mem_map.1 hmem
        obtain ⟨f, hmem, hf⟩ := hvalue q hq
        rw [h q hq htime] at hf
        rw [htime, ← Except.ok.inj hf] at hmem
        exact get?_bucketRow_of_mem hnodup hmem
      · exact get?_bucketRow_time hnodup (hkeys ▸ hmem)
    · rw [List.getElem?_map, hq] at hname
      obtain rfl : name q = name' := Option.some.inj hname
      have hq := List.mem_of_getElem? hq
      obtain ⟨f, hmem, hf⟩ := hvalue q hq
      refine ⟨f, hf, ?_, get?_bucketPoint hnodup hmem⟩
      rw [get?_bucketRow_of_mem hnodup hmem]
      -- Under the name of the start only the start itself is written, which is not null.
      by_cases htime : timeField = name q
      · rw [h q hq htime.symm] at hf
        rw [← Except.ok.inj hf]
        rfl
      · rw [if_neg htime]

section

variable {p : Plan} {rows : List Record}

/-- The members of a group in a bucket. -/
def cell (p : Plan) (rows : List Record) (i : ℕ) (key : String) : List Record :=
  (rowsWithin p.timeColumn (p.range.bucket p.span i) rows).filter fun r =>
    groupKey p.groupBy r = key

/-- The values of a bucket are, series by series, the aggregations over the cells. -/
theorem forall₂_of_cell [Machine] (hspan : 0 < p.span) {i : ℕ} {groups : List String}
    {values : List (String × Field)}
    (h : bucketValues (p.series groups) ((p.place rows).filter fun q => q.bucket = i) =
      .ok values) :
    List.Forall₂ (fun q v => v.1 = p.seriesName q.1 q.2 ∧
      q.2.compute "timechart" (p.cell rows i q.1) = .ok v.2) (groups ×ˢ p.calls) values := by
  rw [series_eq] at h
  apply (List.forall₂_map_left_iff.1 (forall₂_of_bucketValues h)).imp
  rintro q v ⟨hname, hf⟩
  refine ⟨hname, ?_⟩
  rw [map_row_filter_key List.filter_sublist.subset, map_row_filter_place hspan] at hf
  exact hf

/-- A chart that is drawn keeps its series apart if its buckets are counted right, the names of the
series differ and the start of a bucket stays what it is. -/
theorem keepsSeries_iff [Machine] (hspan : 0 < p.span) {t : Table} {c : Chart}
    (h : p.draw rows = .ok (t, c)) :
    KeepsSeries (p.groups (p.place rows) ×ˢ p.calls) p.buckets p.bucketStart (p.cell rows) t c ↔
      p.range.counted? p.span = some (p.buckets : Int) ∧
      ((p.groups (p.place rows) ×ˢ p.calls).map fun q => p.seriesName q.1 q.2).Nodup ∧
      ∀ q ∈ p.groups (p.place rows) ×ˢ p.calls, p.seriesName q.1 q.2 = "_time" → ∀ i < p.buckets,
        q.2.compute "timechart" (p.cell rows i q.1) = .ok (Field.date (p.bucketStart i)) := by
  obtain ⟨drawn, hcount, hdrawn, rfl, hnames, hpoints⟩ := exists_drawn h
  have hlength : p.range.counted? p.span = some (p.buckets : Int) ↔ drawn.length = p.buckets := by
    rw [counted_of_drawnBuckets hcount, Option.some_inj, Nat.cast_inj]
  rw [hlength]
  generalize hpairs : p.groups (p.place rows) ×ˢ p.calls = pairs
  have hnames' : c.series.map Series.name = pairs.map fun q => p.seriesName q.1 q.2 := by
    rw [hnames, series_eq, hpairs, List.map_map]
    rfl
  have hbucket : drawn.length = p.buckets → ∀ i < p.buckets, ∃ row point,
      (drawn.map Prod.fst)[i]? = some row ∧ c.points[i]? = some point ∧
      ((pairs.map fun q => p.seriesName q.1 q.2).Nodup →
        (ShowsBucket pairs (c.series.map Series.name) (p.bucketStart i) (p.cell rows i) row point ↔
          ∀ q ∈ pairs, p.seriesName q.1 q.2 = "_time" →
            q.2.compute "timechart" (p.cell rows i q.1) = .ok (Field.date (p.bucketStart i)))) := by
    intro hlength i hi
    obtain ⟨d, hd⟩ : ∃ d, drawn[i]? = some d := ⟨_, List.getElem?_eq_getElem (hlength ▸ hi)⟩
    obtain ⟨values, hvalues, rfl⟩ := hdrawn i d hd
    refine ⟨_, _, by rw [List.getElem?_map, hd]; rfl, by rw [hpoints, List.getElem?_map, hd]; rfl,
      fun hnodup => ?_⟩
    have hcell := forall₂_of_cell hspan hvalues
    rw [hpairs] at hcell
    rw [hnames']
    exact showsBucket_iff hcell hnodup _
  constructor
  · intro h
    have hlength : drawn.length = p.buckets := by rw [← h.rows, List.length_map]
    have hnodup := hnames' ▸ h.distinct
    refine ⟨hlength, hnodup, fun q hq htime i hi => ?_⟩
    obtain ⟨row, point, hrow, hpoint, hshows⟩ := hbucket hlength i hi
    exact (hshows hnodup).1 (h.shown i row point hrow hpoint) q hq htime
  · rintro ⟨hlength, hnodup, htime⟩
    have hrows : (drawn.map Prod.fst).length = p.buckets := by rw [List.length_map, hlength]
    have hpaired := congrArg List.length hnames'
    rw [List.length_map, List.length_map] at hpaired
    refine ⟨rfl, hpaired, hnames' ▸ hnodup, hrows, by rw [hpoints, List.length_map, hlength],
      fun i row point hrow hpoint => ?_⟩
    have hi : i < p.buckets := hrows ▸ (List.getElem?_eq_some_iff.1 hrow).1
    obtain ⟨row', point', hrow', hpoint', hshows⟩ := hbucket hlength i hi
    obtain rfl : row' = row := Option.some.inj (hrow'.symm.trans hrow)
    obtain rfl : point' = point := Option.some.inj (hpoint'.symm.trans hpoint)
    exact (hshows hnodup).2 fun q hq hname => htime q hq hname i hi

end

end TimeChart.Plan

/-! ## Aggregations of a text -/

/-- A word has no blanks. -/
theorem Query.IsWord.isBlank_eq_false {s : Query.Segment} {w : List Char} (h : Query.IsWord s w) :
    ∀ c ∈ w, Text.isBlank c = false := by
  obtain ⟨-, hlength⟩ := h
  induction w with
  | nil => exact fun _ hc => absurd hc List.not_mem_nil
  | cons c w ih =>
    rw [Query.wordLength] at hlength
    split at hlength
    · next hc =>
      have hblank : Text.isBlank c = false := by
        unfold Query.continuesWord at hc
        simp_all
      exact List.forall_mem_cons.2 ⟨hblank, ih (Nat.succ.inj hlength)⟩
    · cases hlength

/-- The name of a well-formed aggregation holds no blank. -/
theorem AggregateCall.WellFormed.blank_notMem {s : Query.Segment} {a : AggregateCall}
    (h : a.WellFormed s) : ' ' ∉ a.outputName.toList := by
  have hname : ∀ {name}, IsName s name → ' ' ∉ name.toList := fun hname hmem =>
    absurd (hname.word.isBlank_eq_false _ hmem) (by decide)
  obtain ⟨function, column, newName⟩ := a
  cases newName with
  | some name => exact hname (h.newName name rfl)
  | none =>
    have hfunction : ' ' ∉ function.name.toList := by cases function <;> decide
    cases column with
    | none => exact hfunction
    | some column =>
      have hcolumn := hname (h.column column rfl)
      simp [AggregateCall.outputName, hfunction, hcolumn]

/-- A chart of several aggregations whose names are words, as those of a text are, keeps its series
apart, whatever the groups, if its buckets are counted right. -/
theorem TimeChart.Plan.keepsSeries_of_words [Machine] {p : TimeChart.Plan} {rows : List Record}
    {s : Query.Segment} (hspan : 0 < p.span) (hby : p.groupBy ≠ []) (hmany : 1 < p.calls.length)
    (hnames : (p.calls.map AggregateCall.outputName).Nodup) (hwords : ∀ a ∈ p.calls, a.WellFormed s)
    (hcounted : p.range.counted? p.span = some (p.buckets : Int)) {t : Table} {c : Chart}
    (h : p.draw rows = .ok (t, c)) :
    KeepsSeries (p.groups (p.place rows) ×ˢ p.calls) p.buckets p.bucketStart (p.cell rows) t c := by
  refine (keepsSeries_iff hspan h).2 ⟨hcounted, ?_, fun q hq htime => ?_⟩
  · refine (nodup_names_iff hby ?_ hnames).2 fun key _ w _ a ha b _ hname => ?_
    · rw [groups_place hby]
      exact nodup_largestGroups _ _ _
    · apply (hwords a ha).blank_notMem
      rw [hname]
      simp
  · have hone := ((seriesName_eq_time_iff hby (List.mem_product.1 hq).2).1 htime).1
    rw [hone] at hmany
    exact absurd hmany (Nat.lt_irrefl 1)

/-! ## The series of a stage -/

/-- A chart that splits rows keeps its series apart just where its buckets are counted right and no
names clash. They clash where a group with an aggregation `w: name` stands beside the group that goes on
with `: w` and has an aggregation `name`; and, where a series is named after its group alone, if a group
is called `_time` and its series has in some bucket anything but the start of the bucket, which has that
name already. The buckets are counted right if the length of the range and that of a bucket fit in a word
together, and of a range between two words hardly ever else. -/
theorem series_kept_apart_iff [Regex.Library] [Machine] {calls : List AggregateCall}
    {groupBy : List String} (hnames : (calls.map AggregateCall.outputName).Nodup) (hby : groupBy ≠ [])
    (span : Option TimeSpan) (timeColumn : Option String) (maxGroups : Option Nat)
    (range : TimeRange) (before : Results) {after : Results}
    (h : (Stage.timeChart span timeColumn maxGroups calls groupBy).apply range before = .ok after) :
    ∃ width, TimeChart.width range span = .ok width ∧
    let buckets := ⌈((range.stop - range.start : ℤ) : ℚ) / width⌉.toNat
    let start (i : ℕ) := range.start + i * width
    let groups := largestGroups groupBy (maxGroups.getD 10)
      (rowsWithin (timeColumn.getD timeField) range before.rows)
    let members (i : ℕ) (key : String) := (rowsWithin (timeColumn.getD timeField)
      ⟨start i, min (range.start + (i + 1) * width) range.stop⟩ before.rows).filter
        fun r => groupKey groupBy r = key
    (∃ (t : Table) (c : Chart), after = ⟨before.events, some t, some c⟩ ∧
      (KeepsSeries (groups ×ˢ calls) buckets start members t c ↔
        range.counted? width = some (buckets : ℤ) ∧
        (∀ key ∈ groups, ∀ w, key ++ ": " ++ w ∈ groups → ∀ a ∈ calls, ∀ b ∈ calls,
          a.outputName ≠ w ++ ": " ++ b.outputName) ∧
        ∀ a, calls = [a] → "_time" ∈ groups → ∀ i < buckets,
          a.compute "timechart" (members i "_time") = .ok (Field.date (start i)))) ∧
    (Machine.Fits range.start → Machine.Fits range.stop → range.start < range.stop →
      (range.counted? width = some (buckets : ℤ) ↔ Machine.Fits (range.stop - range.start) ∧
        range.stop - range.start + width ≤ Machine.greatestSum)) ∧
    let chosen := max 1 ((span.map TimeSpan.millis).getD (autoSpan range.length))
    Machine.Fits (range.stop - range.start) →
      range.stop - range.start + chosen ≤ Number.int64Max →
        width = chosen ∧ range.counted? width = some (buckets : ℤ) := by
  obtain ⟨width, hwidth, t, c, hdraw, rfl⟩ := apply_timeChart_eq_ok_iff.1 h
  obtain ⟨hspan, hspan'⟩ := TimeChart.width_bounds hwidth
  have hbuckets : TimeRange.parts range.length width =
      ⌈((range.stop - range.start : ℤ) : ℚ) / width⌉.toNat := TimeRange.parts_eq_ceil range.length hspan
  refine ⟨width, hwidth, ?_⟩
  dsimp only
  rw [← hbuckets]
  refine ⟨⟨t, c, rfl, ?_⟩, fun hstart hstop hrange => ?_, fun hlength hfits => ?_⟩
  · let p := TimeChart.planOf range width timeColumn maxGroups calls groupBy
    have hgroups : p.groups (p.place before.rows) = _ := TimeChart.Plan.groups_place hby _
    have hkeeps := TimeChart.Plan.keepsSeries_iff (p := p) hspan hdraw
    rw [hgroups, TimeChart.Plan.nodup_names_iff hby (nodup_largestGroups ..) hnames] at hkeeps
    refine hkeeps.trans (and_congr_right fun _ => and_congr_right fun _ =>
      ⟨fun htime a ha hmem => ?_, fun htime q hq hname => ?_⟩)
    · have ha' : a ∈ p.calls := by
        show a ∈ calls
        rw [ha]
        exact List.mem_singleton_self a
      exact htime ("_time", a) (List.mem_product.2 ⟨hmem, ha'⟩)
        ((TimeChart.Plan.seriesName_eq_time_iff hby ha').2 ⟨ha, rfl⟩)
    · obtain ⟨hkey, ha⟩ := List.mem_product.1 hq
      obtain ⟨hcalls, htext⟩ := (TimeChart.Plan.seriesName_eq_time_iff hby ha).1 hname
      rw [htext] at hkey ⊢
      exact htime q.2 hcalls hkey
  · exact TimeRange.counted?_eq_iff hspan hspan' hstart hstop hrange
  · have hsum : 0 < range.length → _ := fun _ => Int.le_trans hfits Machine.le_greatestSum
    have hexact := TimeChart.width_of_fits hlength hsum
    obtain rfl := Except.ok.inj (hexact.symm.trans hwidth)
    exact ⟨rfl, TimeRange.counted?_of_fits hspan hlength hsum⟩

attribute [local instance] Regex.standard Machine.stopping

/-- Two hosts with two aggregations over two seconds, one of which has no row of the second host. -/
theorem hosts_keep_series :
    let calls : List AggregateCall := [⟨.count, none, none⟩, ⟨.first, some "status", none⟩]
    let row (t : Int) (host status : String) : Record :=
      (((Record.ofMessage "").withTime t).set "host" (.string host)).set "status" (.string status)
    let before := Results.ofEvents [row 0 "a" "new", row 500 "b" "new", row 1500 "a" "old"]
    let members (i : ℕ) (key : String) := (rowsWithin timeField
      ⟨0 + i * 1000, min (0 + (i + 1) * 1000) 2000⟩ before.rows).filter
        fun r => groupKey ["host"] r = key
    (calls.map AggregateCall.outputName).Nodup ∧
    ∃ (t : Table) (c : Chart), (Stage.timeChart (some ⟨1, .seconds⟩) none none calls ["host"]).apply
        ⟨0, 2000⟩ before = .ok ⟨before.events, some t, some c⟩ ∧
      KeepsSeries (["a", "b"] ×ˢ calls) 2 (fun i => 0 + i * 1000) members t c := by
  intro calls row before members
  have hnames : (calls.map AggregateCall.outputName).Nodup := by decide
  have hbuckets : ⌈((2000 - 0 : ℤ) : ℚ) / (1000 : ℤ)⌉.toNat = 2 := by
    norm_num
    rfl
  have hgroups : largestGroups ["host"] 10 (rowsWithin timeField ⟨0, 2000⟩ before.rows) =
      ["a", "b"] := by
    have hsorted : (groupRows ["host"] (rowsWithin timeField ⟨0, 2000⟩ before.rows)).Pairwise
        fun g h => decide (h.2.length ≤ g.2.length) = true := by decide +kernel
    unfold largestGroups
    rw [List.mergeSort_of_pairwise hsorted]
    rfl
  let p : TimeChart.Plan := ⟨⟨0, 2000⟩, 1000, timeField, 10, calls, ["host"]⟩
  have hwidth : TimeChart.width ⟨0, 2000⟩ (some ⟨1, .seconds⟩) = .ok 1000 := rfl
  obtain ⟨drawn, hdraw⟩ : ∃ drawn, p.draw before.rows = .ok drawn := by
    unfold TimeChart.Plan.draw
    simp only [TimeChart.Plan.groups_place (p := p) (by decide), hgroups, p]
    exact ⟨_, rfl⟩
  have happly : (Stage.timeChart (some ⟨1, .seconds⟩) none none calls ["host"]).apply ⟨0, 2000⟩
      before = .ok ⟨before.events, some drawn.1, some drawn.2⟩ :=
    apply_timeChart_eq_ok_iff.2 ⟨1000, hwidth, drawn.1, drawn.2, hdraw, rfl⟩
  obtain ⟨width, htaken, ⟨t, c, hafter, hkeeps⟩, -⟩ := series_kept_apart_iff hnames (by decide)
    (some ⟨1, .seconds⟩) none none ⟨0, 2000⟩ before happly
  obtain rfl := Except.ok.inj (hwidth.symm.trans htaken)
  rw [hbuckets, Option.getD_none, Option.getD_none, hgroups] at hkeeps
  refine ⟨hnames, t, c, happly.trans (congrArg Except.ok hafter),
    hkeeps.2 ⟨by decide, fun key _ w hmem => ?_, ?_⟩⟩
  · have hshort : ∀ text ∈ ["a", "b"], text.length = 1 := by decide
    have hlength := hshort _ hmem
    rw [length_append_colon] at hlength
    omega
  · exact fun a ha => nomatch (List.cons.inj ha).2

/-- The count of the rows of a host named `_time` stands where the start of the bucket should. -/
theorem host_time_hides_start :
    let calls : List AggregateCall := [⟨.count, none, none⟩]
    let r : Record := ((Record.ofMessage "").withTime 0).set "host" (.string "_time")
    let before := Results.ofEvents [r]
    let members (i : ℕ) (key : String) := (rowsWithin timeField
      ⟨0 + i * 1000, min (0 + (i + 1) * 1000) 1000⟩ before.rows).filter
        fun r => groupKey ["host"] r = key
    (calls.map AggregateCall.outputName).Nodup ∧
    ∃ (t : Table) (c : Chart), (Stage.timeChart (some ⟨1, .seconds⟩) none none calls ["host"]).apply
        ⟨0, 1000⟩ before = .ok ⟨[r], some t, some c⟩ ∧
      t = ⟨["_time", "_time"], [(Record.ofMessage "").set "_time" (.number (.ofInt 1))]⟩ ∧
      ¬ KeepsSeries (["_time"] ×ˢ calls) 1 (fun i => 0 + i * 1000) members t c := by
  intro calls r before members
  let p : TimeChart.Plan := ⟨⟨0, 1000⟩, 1000, timeField, 10, calls, ["host"]⟩
  have hgroups : p.groups (p.place [r]) = ["_time"] := by decide +kernel
  have hdraw : ∃ c, p.draw [r] = .ok (⟨["_time", "_time"],
      [(Record.ofMessage "").set "_time" (.number (.ofInt 1))]⟩, c) := by
    unfold TimeChart.Plan.draw
    simp only [hgroups]
    exact ⟨_, rfl⟩
  obtain ⟨c, hdraw⟩ := hdraw
  refine ⟨by decide, _, c, apply_timeChart_eq_ok_iff.2 ⟨1000, rfl, _, c, hdraw, rfl⟩, rfl, fun h => ?_⟩
  obtain ⟨point, hpoint⟩ : ∃ point, c.points[0]? = some point :=
    ⟨_, List.getElem?_eq_getElem (h.points ▸ Nat.one_pos)⟩
  have htime := (h.shown 0 _ point rfl hpoint).time
  cases htime

end LogSearch
