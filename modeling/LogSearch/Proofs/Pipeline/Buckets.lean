import LogSearch.Proofs.Partition
import LogSearch.Proofs.Pipeline.ChartPlans
import LogSearch.Proofs.Pipeline.Misfits
import LogSearch.Regex.Program
import Mathlib.Data.List.Induction

/-!
# What the buckets of a chart hold

How many buckets there are, in which one a row belongs and when each of them starts is computed in
three places. They agree: the buckets part the range, the last one ends with it, and each row with an
instant in the range is in just one of them.

* `map_row_filter_place`, `flatMap_buckets_perm`: the rows of a bucket, and of all of them.
* `drawn_points`, `failsFirst_draw`: what is drawn of the buckets, and why nothing is.
* `time_buckets_lose_nothing`: the parts together, for a chart that is not split.
-/

namespace LogSearch

/-! ## The rows of a bucket -/

/-- The rows with an instant of the range in a column. -/
def rowsWithin (column : String) (range : TimeRange) (rows : List Record) : List Record :=
  rows.filter fun r => ((r.get? column).bind Field.asDate?).any range.contains

namespace TimeChart.Plan

/-- Where a row belongs, if it has an instant in the range. -/
def placeOf? (p : Plan) (r : Record) : Option Placed :=
  ((r.get? p.timeColumn).bind Field.asDate?).bind fun t =>
    if p.range.contains t then
      some ⟨((t - p.range.start) / p.span).toNat, groupKey p.groupBy r, r⟩
    else none

section

variable {p : Plan} {rows : List Record}

/-- The rows of a chart are those that have a place, each in its place. -/
theorem place_eq (p : Plan) (rows : List Record) : p.place rows = rows.filterMap p.placeOf? := rfl

/-- A row has a place if its instant lies in the range: the bucket of the instant, and its group. -/
theorem placeOf?_eq_some_iff {r : Record} {q : Placed} : p.placeOf? r = some q ↔
    ∃ t, (r.get? p.timeColumn).bind Field.asDate? = some t ∧ p.range.contains t = true ∧
      q = ⟨((t - p.range.start) / p.span).toNat, groupKey p.groupBy r, r⟩ := by
  unfold placeOf?
  rw [Option.bind_eq_some_iff]
  constructor
  · rintro ⟨t, ht, h⟩
    split at h
    · next hcontains => exact ⟨t, ht, hcontains, (Option.some.inj h).symm⟩
    · cases h
  · rintro ⟨t, ht, hcontains, rfl⟩
    exact ⟨t, ht, if_pos hcontains⟩

/-- All rows in the range have a place. -/
theorem map_row_place (p : Plan) (rows : List Record) :
    (p.place rows).map Placed.row = rowsWithin p.timeColumn p.range rows := by
  rw [place_eq, List.map_filterMap, rowsWithin, ← List.filterMap_eq_filter]
  apply List.filterMap_congr
  intro r _
  show _ = if ((r.get? p.timeColumn).bind Field.asDate?).any p.range.contains then some r else none
  unfold placeOf?
  cases (r.get? p.timeColumn).bind Field.asDate? with
  | none => rfl
  | some t =>
    show Option.map _ (if p.range.contains t = true then _ else _) = if p.range.contains t then _ else _
    split <;> rfl

/-- The rows in a bucket are those in its range. -/
theorem map_row_filter_place (hspan : 0 < p.span) (rows : List Record) (i : Nat) :
    ((p.place rows).filter fun q => q.bucket = i).map Placed.row =
      rowsWithin p.timeColumn (p.range.bucket p.span i) rows := by
  rw [place_eq, List.filter_filterMap, List.map_filterMap, rowsWithin, ← List.filterMap_eq_filter]
  apply List.filterMap_congr
  intro r _
  show _ = if ((r.get? p.timeColumn).bind Field.asDate?).any (p.range.bucket p.span i).contains then
    some r else none
  unfold placeOf?
  cases (r.get? p.timeColumn).bind Field.asDate? with
  | none => rfl
  | some t =>
    have hbucket := p.range.contains_bucket_iff hspan i t
    rw [Option.any_some, Option.bind_some]
    by_cases h : p.range.contains t = true
    · rw [if_pos h, Option.filter_some]
      by_cases hi : ((t - p.range.start) / p.span).toNat = i
      · rw [if_pos (decide_eq_true hi), if_pos (hbucket.2 ⟨h, hi⟩)]
        rfl
      · rw [if_neg (by simpa using hi), if_neg fun hin => hi (hbucket.1 hin).2]
        rfl
    · rw [if_neg h, if_neg fun hin => h (hbucket.1 hin).1]
      rfl

/-- The bucket of a row in the range is one of those that cover the range. -/
theorem bucket_lt (hspan : 0 < p.span) {q : Placed} (h : q ∈ p.place rows) : q.bucket < p.buckets := by
  obtain ⟨r, -, hq⟩ := List.mem_filterMap.1 h
  obtain ⟨t, -, hcontains, rfl⟩ := placeOf?_eq_some_iff.1 hq
  exact TimeRange.toNat_lt_parts hspan hcontains

/-- The buckets hold the rows in the range, each of them once. -/
theorem flatMap_buckets_perm (hspan : 0 < p.span) (rows : List Record) :
    ((List.range p.buckets).flatMap fun i =>
      rowsWithin p.timeColumn (p.range.bucket p.span i) rows).Perm
      (rowsWithin p.timeColumn p.range rows) := by
  have hall : ∀ q ∈ p.place rows, decide (q.bucket ∈ List.range p.buckets) = true :=
    fun q hq => decide_eq_true (List.mem_range.2 (bucket_lt hspan hq))
  have hperm := flatMap_filter_perm Placed.bucket (List.nodup_range (n := p.buckets)) (p.place rows)
  rw [List.filter_eq_self.2 hall] at hperm
  have hrows := hperm.map Placed.row
  rw [List.map_flatMap, map_row_place] at hrows
  simp only [map_row_filter_place hspan] at hrows
  exact hrows

end

end TimeChart.Plan

/-! ## The point of a bucket -/

/-- Of pairs with different keys none overwrites another one. -/
theorem Dict.get?_ofList_eq_some_iff {α : Type} {pairs : List (String × α)}
    (h : (pairs.map Prod.fst).Nodup) {key : String} {value : α} :
    get? key (ofList pairs) = some value ↔ (key, value) ∈ pairs := by
  -- On the right, where the last pair is the one that is written last.
  induction pairs using List.reverseRecOn with
  | nil => exact iff_of_false nofun List.not_mem_nil
  | append_singleton pairs p ih =>
    rw [List.map_append, List.nodup_append] at h
    have hnew : p.1 ∉ pairs.map Prod.fst := fun hmem => h.2.2 _ hmem _ List.mem_cons_self rfl
    have hlast : ofList (pairs ++ [p]) = insert p.1 p.2 (ofList pairs) := List.foldl_append
    rw [hlast, get?_insert, List.mem_append, List.mem_singleton]
    by_cases heq : p.1 = key
    · have hold : (key, value) ∉ pairs := fun hmem => hnew (heq ▸ List.mem_map_of_mem hmem)
      rw [if_pos heq, or_iff_right hold, Option.some_inj, eq_comm, Prod.ext_iff]
      exact (and_iff_right heq.symm).symm
    · have hother : (key, value) ≠ p := fun hp => heq (congrArg Prod.fst hp).symm
      rw [if_neg heq, ih h.1, or_iff_left hother]

namespace TimeChart.Plan

/-- The numbers among values, each with its name. -/
def numbersOf (values : List (String × Field)) : List (String × Double) :=
  values.filterMap fun v => v.2.asNumber?.map (v.1, ·)

/-- The numbers among values keep the order of their names. -/
theorem sublist_numbersOf (values : List (String × Field)) :
    ((numbersOf values).map Prod.fst).Sublist (values.map Prod.fst) := by
  unfold numbersOf
  induction values with
  | nil => exact List.Sublist.slnil
  | cons v values ih =>
    rw [List.filterMap_cons]
    cases v.2.asNumber? with
    | none => exact ih.cons _
    | some x => exact ih.cons_cons _

/-- The point has each value that is a number under its name. -/
theorem get?_bucketPoint {start : Int} {values : List (String × Field)}
    (h : (values.map Prod.fst).Nodup) {name : String} {f : Field} (hf : (name, f) ∈ values) :
    Dict.get? name (bucketPoint start values).values = f.asNumber? := by
  apply Option.ext
  intro x
  show Dict.get? name (Dict.ofList (numbersOf values)) = some x ↔ f.asNumber? = some x
  rw [Dict.get?_ofList_eq_some_iff (h.sublist (sublist_numbersOf values)), numbersOf,
    List.mem_filterMap]
  constructor
  · rintro ⟨v, hv, hx⟩
    obtain ⟨y, hy, hx⟩ := Option.map_eq_some_iff.1 hx
    obtain ⟨hname, rfl⟩ := Prod.mk.inj hx
    rw [List.inj_on_of_nodup_map h hv hf hname] at hy
    exact hy
  · intro hx
    refine ⟨(name, f), hf, ?_⟩
    rw [hx]
    rfl

section

variable {p : Plan} {rows : List Record}

/-- A chart that is not split has a series for each aggregation. -/
theorem series_of_not_split (h : p.groupBy = []) (placed : List Placed) :
    p.series (p.groups placed) = p.calls.map fun a => ("", a, a.outputName) := by
  unfold series groups seriesName
  rw [h, List.isEmpty_nil, if_pos rfl, List.flatMap_singleton]
  rfl

/-- In a chart that does not split rows all keys are empty. -/
theorem key_of_not_split (h : p.groupBy = []) {q : Placed} (hq : q ∈ p.place rows) : q.key = "" := by
  obtain ⟨r, -, hq⟩ := List.mem_filterMap.1 hq
  obtain ⟨t, -, -, rfl⟩ := placeOf?_eq_some_iff.1 hq
  show groupKey p.groupBy r = ""
  rw [h]
  rfl

/-- The values of a bucket are those of the aggregations over the members of the groups. -/
theorem forall₂_of_bucketValues [Machine] {series : List (String × AggregateCall × String)}
    {members : List Placed} {values : List (String × Field)}
    (h : bucketValues series members = .ok values) :
    List.Forall₂ (fun s v => v.1 = s.2.2 ∧ s.2.1.compute stageName
      ((members.filter fun q => q.key = s.1).map Placed.row) = .ok v.2) series values := by
  apply (forall₂_of_mapM h).imp
  intro s v hv
  obtain ⟨f, hf, hv⟩ := bind_eq_ok.1 hv
  cases hv
  exact ⟨rfl, hf⟩

/-- Where rows are not split, these are the rows in the range of the bucket. -/
theorem values_of_bucket [Machine] (hby : p.groupBy = []) (hspan : 0 < p.span)
    {placed : List Placed} {i : Nat} {values : List (String × Field)}
    (h : bucketValues (p.series (p.groups placed)) ((p.place rows).filter fun q => q.bucket = i) =
      .ok values) :
    List.Forall₂ (fun a v => v.1 = a.outputName ∧ a.compute stageName
      (rowsWithin p.timeColumn (p.range.bucket p.span i) rows) = .ok v.2) p.calls values := by
  rw [series_of_not_split hby] at h
  have hvalues := List.forall₂_map_left_iff.1 (forall₂_of_bucketValues h)
  apply hvalues.imp
  rintro a v ⟨hname, hf⟩
  refine ⟨hname, ?_⟩
  have hkeys : ∀ q ∈ (p.place rows).filter fun q => q.bucket = i, decide (q.key = "") = true :=
    fun q hq => decide_eq_true (key_of_not_split hby (List.mem_filter.1 hq).1)
  rw [List.filter_eq_self.2 hkeys, map_row_filter_place hspan] at hf
  exact hf

/-! ## What is drawn -/

variable [Machine]

/-- A chart that is drawn has a row and a point for each bucket that the machine counts, and a series
for each name. -/
theorem exists_drawn {t : Table} {c : Chart} (h : p.draw rows = .ok (t, c)) :
    ∃ drawn : List (Record × ChartPoint), p.drawnBuckets = .ok drawn.length ∧
      (∀ (i : ℕ) (d : Record × ChartPoint), drawn[i]? = some d →
        ∃ values, bucketValues (p.series (p.groups (p.place rows)))
            ((p.place rows).filter fun q => q.bucket = i) = .ok values ∧
          d = (bucketRow (p.bucketStart i) values, bucketPoint (p.bucketStart i) values)) ∧
      t = ⟨timeField :: c.series.map Series.name, drawn.map Prod.fst⟩ ∧
      c.series.map Series.name = (p.series (p.groups (p.place rows))).map (fun s => s.2.2) ∧
      c.points = drawn.map Prod.snd := by
  obtain ⟨count, hcount, h⟩ := bind_eq_ok.1 h
  obtain ⟨drawn, hdrawn, h⟩ := bind_eq_ok.1 h
  cases h
  have hbuckets := forall₂_of_mapM hdrawn
  have hlength : drawn.length = count := by rw [← hbuckets.length_eq, List.length_range]
  have hnames : ∀ names : List String, (names.zipIdx.map fun n =>
      (⟨n.1, palette.getD (n.2 % palette.length) ""⟩ : Series)).map Series.name = names := by
    intro names
    rw [List.map_map]
    exact List.zipIdx_map_fst 0 names
  refine ⟨drawn, hlength ▸ hcount, fun i d hd => ?_, ?_, ?_, rfl⟩
  · obtain ⟨hi, rfl⟩ := List.getElem?_eq_some_iff.1 hd
    have hrange : i < (List.range count).length := hbuckets.length_eq ▸ hi
    have hbucket := hbuckets.get hrange hi
    simp only [List.get_eq_getElem, List.getElem_range] at hbucket
    obtain ⟨values, hvalues, hbucket⟩ := bind_eq_ok.1 hbucket
    exact ⟨values, hvalues, (Except.ok.inj hbucket).symm⟩
  · exact congrArg (fun names => (⟨timeField :: names, drawn.map Prod.fst⟩ : Table))
      (hnames _).symm
  · exact hnames _

/-- A chart of which the buckets are counted right has a row for each of them. -/
theorem length_of_counted (hcounted : p.range.counted? p.span = some (p.buckets : Int)) {t : Table}
    {c : Chart} (h : p.draw rows = .ok (t, c)) : t.rows.length = p.buckets := by
  obtain ⟨drawn, hcount, -, rfl, -⟩ := exists_drawn h
  rw [counted_of_drawnBuckets hcount] at hcounted
  rw [List.length_map]
  exact Nat.cast_inj.1 (Option.some.inj hcounted)

/-- A chart that is drawn has a point for each bucket. -/
theorem drawn_points {t : Table} {c : Chart} (h : p.draw rows = .ok (t, c)) :
    p.drawnBuckets = .ok c.points.length ∧ ∀ (i : ℕ) (point : ChartPoint), c.points[i]? = some point →
      ∃ values, bucketValues (p.series (p.groups (p.place rows)))
          ((p.place rows).filter fun q => q.bucket = i) = .ok values ∧
        point = bucketPoint (p.bucketStart i) values := by
  obtain ⟨drawn, hlength, hdrawn, -, -, hpoints⟩ := exists_drawn h
  rw [hpoints]
  refine ⟨by rw [List.length_map, hlength], fun i point hpoint => ?_⟩
  rw [List.getElem?_map, Option.map_eq_some_iff] at hpoint
  obtain ⟨d, hd, rfl⟩ := hpoint
  obtain ⟨values, hvalues, rfl⟩ := hdrawn i d hd
  exact ⟨values, hvalues, rfl⟩

end

end TimeChart.Plan

/-! ## Why nothing is drawn -/

namespace TimeChart.Plan

variable [Machine]

/-- The values of a bucket cannot be computed if an aggregation meets a misfit in a group. -/
theorem failsFirst_bucketValues (p : Plan) (groups : List String) (members : List Placed) :
    FailsFirst (bucketValues (p.series groups) members)
      ((misfits p.calls (groups.map fun key =>
        (members.filter fun q => q.key = key).map Placed.row)).map (Misfit.fault stageName)) := by
  have hfaults : (misfits p.calls (groups.map fun key =>
      (members.filter fun q => q.key = key).map Placed.row)).map (Misfit.fault stageName) =
      (p.series groups).flatMap fun s =>
        (((members.filter fun q => q.key = s.1).map Placed.row).filterMap s.2.1.misfit?).map
          (Misfit.fault stageName) := by
    unfold misfits series
    simp only [List.flatMap_map, List.map_flatMap, List.flatMap_assoc]
  rw [hfaults]
  apply FailsFirst.mapM
  rintro ⟨key, a, name⟩ _
  exact (failsFirst_compute a stageName _).map (name, ·)

/-- With a number of buckets nothing is drawn if an aggregation meets a misfit in a group of one. -/
theorem failsFirst_draw {p : Plan} {count : ℕ} (h : p.drawnBuckets = .ok count) (rows : List Record) :
    FailsFirst (p.draw rows)
      ((misfits p.calls ((List.range count).flatMap fun i =>
        (p.groups (p.place rows)).map fun key =>
          (((p.place rows).filter fun q => q.bucket = i).filter fun q => q.key = key).map
            Placed.row)).map (Misfit.fault stageName)) := by
  rw [misfits_flatMap, List.map_flatMap]
  rw [draw, h]
  show FailsFirst ((List.range count).mapM _ >>= _) _
  apply FailsFirst.map
  apply FailsFirst.mapM
  intro i _
  apply FailsFirst.map
  exact failsFirst_bucketValues p _ _

/-- Nothing is drawn without a number of buckets, or for a value that is no number. -/
theorem fault_of_draw {p : Plan} {rows : List Record} {e : StageFault} (h : p.draw rows = .error e) :
    p.drawnBuckets = .error e ∨ ∃ column text, e = .nonNumeric stageName column text := by
  cases hcount : p.drawnBuckets with
  | error e' =>
    rw [draw, hcount] at h
    exact .inl (congrArg Except.error (Except.error.inj h))
  | ok count =>
    obtain ⟨m, -, rfl⟩ := (failsFirst_draw hcount rows).eq_error_iff.1 h
    exact .inr ⟨m.column, m.value.display, rfl⟩

end TimeChart.Plan

/-! ## The points of a chart -/

/-- The point starts a bucket and has the aggregations over its rows where they are numbers. One that
counts rows says how many there are. -/
structure ChartPoint.Shows [Machine] (calls : List AggregateCall) (start : Int) (members : List Record)
    (point : ChartPoint) : Prop where
  timestamp : point.timestamp = start
  aggregated : ∀ a ∈ calls, ∃ f, a.compute "timechart" members = .ok f ∧
    Dict.get? a.outputName point.values = f.asNumber?
  counted : ∀ a ∈ calls, a.function = .count → a.column = none →
    Dict.get? a.outputName point.values = some (.ofInt members.length)

/-- The point of a bucket shows the aggregations of the bucket, where they are numbers. -/
theorem ChartPoint.shows_bucketPoint [Machine] {calls : List AggregateCall}
    (hnames : (calls.map AggregateCall.outputName).Nodup) (start : Int) {members : List Record}
    {values : List (String × Field)}
    (h : List.Forall₂ (fun a v => v.1 = a.outputName ∧ a.compute "timechart" members = .ok v.2)
      calls values) :
    (TimeChart.Plan.bucketPoint start values).Shows calls start members := by
  have hkeys : values.map Prod.fst = calls.map AggregateCall.outputName := by
    clear hnames
    induction h with
    | nil => rfl
    | cons hv _ ih => rw [List.map_cons, List.map_cons, hv.1, ih]
  have haggregated : ∀ a ∈ calls, ∃ f, a.compute "timechart" members = .ok f ∧
      Dict.get? a.outputName (TimeChart.Plan.bucketPoint start values).values = f.asNumber? := by
    intro a ha
    obtain ⟨v, hv, hname, hf⟩ := exists_of_forall₂ h ha
    refine ⟨v.2, hf, ?_⟩
    rw [← hname]
    exact TimeChart.Plan.get?_bucketPoint (hkeys ▸ hnames) hv
  refine ⟨rfl, haggregated, fun a ha hfunction hcolumn => ?_⟩
  obtain ⟨f, hf, hget⟩ := haggregated a ha
  unfold AggregateCall.compute at hf
  simp only [hcolumn, hfunction] at hf
  rw [hget, ← Except.ok.inj hf]
  rfl

open Number (int64Max)

/-- A chart that is not split has too many buckets if the range divided by the length of a bucket comes
to more than ten thousand. Otherwise, unless a value is no number, it has a point for each bucket, with
the aggregations over the rows with an instant in the range of the bucket; and these are all rows with
an instant in the range of the chart, each of them in one bucket. The range and a bucket have to fit in
a word together. -/
theorem time_buckets_lose_nothing [Regex.Library] [Machine] {calls : List AggregateCall}
    (hnames : (calls.map AggregateCall.outputName).Nodup) (span : Option TimeSpan)
    (timeColumn : Option String) (maxGroups : Option Nat) (range : TimeRange) (before : Results)
    (hlength : Machine.Fits (range.stop - range.start))
    (hfits : range.stop - range.start +
      max 1 ((span.map TimeSpan.millis).getD (autoSpan range.length)) ≤ int64Max) :
    let stage := Stage.timeChart span timeColumn maxGroups calls []
    let width := max 1 ((span.map TimeSpan.millis).getD (autoSpan range.length))
    let buckets := ⌈((range.stop - range.start : ℤ) : ℚ) / width⌉.toNat
    let members (i : ℕ) := rowsWithin (timeColumn.getD timeField)
      ⟨range.start + i * width, min (range.start + (i + 1) * width) range.stop⟩ before.rows
    let inRange := rowsWithin (timeColumn.getD timeField) range before.rows
    ((∃ span n most, stage.apply range before = .error (.tooManyBuckets "timechart" span n most)) ↔
      10000 < buckets) ∧
    (buckets ≤ 10000 →
      (∀ column text, stage.apply range before ≠ .error (.nonNumeric "timechart" column text)) →
      ∃ (t : Table) (c : Chart), stage.apply range before = .ok ⟨before.events, some t, some c⟩ ∧
        c.points.length = buckets ∧
        ∀ (i : ℕ) (point : ChartPoint), c.points[i]? = some point →
          point.Shows calls (range.start + i * width) (members i)) ∧
    ((List.range buckets).flatMap members).Perm inRange ∧
    ((List.range buckets).map fun i => (members i).length).sum = inRange.length := by
  intro stage width buckets members inRange
  let p := TimeChart.planOf range width timeColumn maxGroups calls []
  have hspan : 0 < p.span := Int.lt_of_lt_of_le Int.one_pos (Int.le_max_left _ _)
  have hsum : 0 < range.length → range.length + width ≤ Machine.greatestSum := fun _ =>
    Int.le_trans hfits Machine.le_greatestSum
  have hwidth : TimeChart.width range span = .ok width := TimeChart.width_of_fits hlength hsum
  have hbuckets : p.buckets = buckets := TimeRange.parts_eq_ceil range.length hspan
  have hcounted := TimeChart.Plan.counted_of_fits (p := p) hspan hlength hsum
  have hfew : buckets ≤ 10000 → p.drawnBuckets = .ok buckets := fun h =>
    hbuckets ▸ TimeChart.Plan.drawnBuckets_of_few hcounted (hbuckets ▸ h)
  have hperm : ((List.range buckets).flatMap members).Perm inRange := by
    rw [← hbuckets]
    exact TimeChart.Plan.flatMap_buckets_perm hspan before.rows
  have hnonNumeric : buckets ≤ 10000 → ∀ e, stage.apply range before = .error e →
      ∃ column text, e = .nonNumeric "timechart" column text := by
    intro h e he
    rcases apply_timeChart_eq_error_iff.1 he with hfault | ⟨taken, htaken, hdraw⟩
    · rw [hwidth] at hfault
      cases hfault
    · obtain rfl := Except.ok.inj (hwidth.symm.trans htaken)
      refine (TimeChart.Plan.fault_of_draw hdraw).resolve_left fun hfault => ?_
      rw [show _ = Except.ok _ from hfew h] at hfault
      cases hfault
  refine ⟨⟨fun ⟨_, _, _, h⟩ => ?_, fun h => ?_⟩, fun h hnumeric => ?_, hperm, ?_⟩
  · by_contra hle
    obtain ⟨_, _, hfault⟩ := hnonNumeric (Nat.not_lt.1 hle) _ h
    cases hfault
  · have hmany := TimeChart.Plan.drawnBuckets_of_many hcounted (hbuckets.symm ▸ h)
    refine ⟨width, p.buckets, TimeChart.mostBuckets,
      apply_timeChart_eq_error_iff.2 (.inr ⟨width, hwidth, ?_⟩)⟩
    exact bind_eq_error.2 (.inl hmany)
  · cases happly : stage.apply range before with
    | error e =>
      obtain ⟨column, text, rfl⟩ := hnonNumeric h e happly
      exact absurd happly (hnumeric column text)
    | ok after =>
      obtain ⟨taken, htaken, t, c, hdraw, rfl⟩ := apply_timeChart_eq_ok_iff.1 happly
      obtain rfl := Except.ok.inj (hwidth.symm.trans htaken)
      obtain ⟨hcount, hpoints⟩ := TimeChart.Plan.drawn_points hdraw
      refine ⟨t, c, rfl, Except.ok.inj (hcount.symm.trans (hfew h)), fun i point hpoint => ?_⟩
      obtain ⟨values, hvalues, rfl⟩ := hpoints i point hpoint
      exact ChartPoint.shows_bucketPoint hnames _ (TimeChart.Plan.values_of_bucket rfl hspan hvalues)
  · rw [← List.length_flatMap]
    exact hperm.length_eq

attribute [local instance] Regex.standard Machine.stopping

/-- Two seconds and a half are three buckets, with rows on their bounds. -/
theorem seconds_hold_rows :
    let calls : List AggregateCall := [⟨.count, none, none⟩]
    let row (t : Int) : Record := (Record.ofMessage "").withTime t
    let before := Results.ofEvents [row (-1), row 0, row 999, row 1000, row 2499, row 2500]
    (calls.map AggregateCall.outputName).Nodup ∧ Machine.Fits (2500 - 0) ∧
      2500 - 0 + max 1 (((some ⟨1, .seconds⟩ : Option TimeSpan).map TimeSpan.millis).getD
        (autoSpan (TimeRange.length ⟨0, 2500⟩))) ≤ int64Max ∧
    ∃ (t : Table) (c : Chart), (Stage.timeChart (some ⟨1, .seconds⟩) none none calls []).apply
        ⟨0, 2500⟩ before = .ok ⟨before.events, some t, some c⟩ ∧ c.points.length = 3 := by
  intro calls row before
  have hnames : (calls.map AggregateCall.outputName).Nodup := by decide
  have hlength : Machine.Fits (2500 - 0) := by decide
  have hwidth : max 1 (((some ⟨1, .seconds⟩ : Option TimeSpan).map TimeSpan.millis).getD
      (autoSpan (TimeRange.length ⟨0, 2500⟩))) = 1000 := by decide
  have hfits : 2500 - 0 + max 1 (((some ⟨1, .seconds⟩ : Option TimeSpan).map TimeSpan.millis).getD
      (autoSpan (TimeRange.length ⟨0, 2500⟩))) ≤ int64Max := by
    rw [hwidth]
    decide
  have hbuckets : ⌈((2500 - 0 : ℤ) : ℚ) / (1000 : ℤ)⌉.toNat = 3 := by
    norm_num
    rfl
  obtain ⟨-, hdrawn, -⟩ := time_buckets_lose_nothing hnames (some ⟨1, .seconds⟩) none none
    ⟨0, 2500⟩ before hlength hfits
  rw [hwidth, hbuckets] at hdrawn
  obtain ⟨t, c, hok, hpoints, -⟩ := hdrawn (by decide) fun column text h => nomatch h
  exact ⟨hnames, hlength, hfits, t, c, hok, hpoints⟩

end LogSearch
