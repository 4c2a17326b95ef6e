import LogSearch.Pipeline.Run
import LogSearch.Proofs.Failing
import LogSearch.Proofs.Time.Counting

/-!
# Plans of charts

A chart stage takes a length for its buckets, counts how many of them cover its range, and draws them.
The first two are done in words, and depend on the range and the span alone: no row has a part in them.
As long as the length of the range and that of a bucket fit in a word together, the buckets are those
that there are.

* `apply_timeChart_eq_ok_iff`, `apply_timeChart_eq_error_iff`: what a chart stage gives.
* `TimeChart.width_of_fits`: the length of a bucket.
* `TimeChart.Plan.counted_of_fits`, `TimeChart.Plan.drawnBuckets_of_few`: how many buckets are drawn.
-/

namespace LogSearch

/-! ## The stage -/

section

variable [Regex.Library] [Machine] {span : Option TimeSpan} {timeColumn : Option String}
  {maxGroups : Option Nat} {calls : List AggregateCall} {groupBy : List String} {range : TimeRange}
  {before : Results}

/-- The plan of a chart stage, with buckets of a length. -/
def TimeChart.planOf (range : TimeRange) (width : Int) (timeColumn : Option String)
    (maxGroups : Option Nat) (calls : List AggregateCall) (groupBy : List String) : TimeChart.Plan :=
  ⟨range, width, timeColumn.getD timeField, maxGroups.getD TimeChart.defaultGroups, calls, groupBy⟩

/-- A chart stage takes a length for the buckets and draws its plan. -/
theorem apply_timeChart_eq :
    (Stage.timeChart span timeColumn maxGroups calls groupBy).apply range before =
      TimeChart.width range span >>= fun width =>
        ((TimeChart.planOf range width timeColumn maxGroups calls groupBy).draw before.rows).map
          fun drawn => ⟨before.events, some drawn.1, some drawn.2⟩ := by
  rw [Stage.apply]
  congr 1

/-- A chart stage shows what is drawn of its plan. -/
theorem apply_timeChart_eq_ok_iff {after : Results} :
    (Stage.timeChart span timeColumn maxGroups calls groupBy).apply range before = .ok after ↔
      ∃ width, TimeChart.width range span = .ok width ∧ ∃ t c,
        (TimeChart.planOf range width timeColumn maxGroups calls groupBy).draw before.rows =
          .ok (t, c) ∧ after = ⟨before.events, some t, some c⟩ := by
  rw [apply_timeChart_eq, bind_eq_ok]
  refine exists_congr fun width => and_congr_right fun _ => ?_
  cases (TimeChart.planOf range width timeColumn maxGroups calls groupBy).draw before.rows with
  | error e => exact iff_of_false nofun nofun
  | ok drawn =>
    constructor
    · intro h
      exact ⟨drawn.1, drawn.2, rfl, (Except.ok.inj h).symm⟩
    · rintro ⟨t, c, hdraw, rfl⟩
      cases hdraw
      rfl

/-- A chart stage has the faults of taking a length and of drawing. -/
theorem apply_timeChart_eq_error_iff {e : StageFault} :
    (Stage.timeChart span timeColumn maxGroups calls groupBy).apply range before = .error e ↔
      TimeChart.width range span = .error e ∨ ∃ width, TimeChart.width range span = .ok width ∧
        (TimeChart.planOf range width timeColumn maxGroups calls groupBy).draw before.rows =
          .error e := by
  rw [apply_timeChart_eq, bind_eq_error]
  refine or_congr_right (exists_congr fun width => and_congr_right fun _ => ?_)
  cases (TimeChart.planOf range width timeColumn maxGroups calls groupBy).draw before.rows with
  | error e' =>
    exact ⟨fun h => congrArg _ (Except.error.inj h), fun h => congrArg _ (Except.error.inj h)⟩
  | ok drawn => exact iff_of_false nofun nofun

end

/-! ## The length of a bucket -/

/-- A search that asks in words finds the same as one that asks in integers, if the answers up to there
are the same. -/
theorem findM?_eq_find? {f : Int → Option Bool} {p : Int → Bool} {default : Int} {l : List Int}
    (hordered : l.Pairwise (· < ·)) (hdefault : ∀ s ∈ l, s ≤ default)
    (h : ∀ s ∈ l, s ≤ (l.find? p).getD default → f s = some (p s)) :
    l.findM? f = some (l.find? p) := by
  induction l with
  | nil => rfl
  | cons s rest ih =>
    obtain ⟨hfirst, hrest⟩ := List.pairwise_cons.1 hordered
    rw [List.findM?, List.find?_cons]
    cases hs : p s with
    | true =>
      rw [h s List.mem_cons_self (by rw [List.find?_cons_of_pos hs]; exact le_rfl), hs]
      rfl
    | false =>
      have hfind : (s :: rest).find? p = rest.find? p := List.find?_cons_of_neg (by simp [hs])
      have hle : s ≤ (rest.find? p).getD default := by
        cases hfound : rest.find? p with
        | none => exact hdefault s List.mem_cons_self
        | some t => exact (hfirst t (List.mem_of_find?_eq_some hfound)).le
      rw [h s List.mem_cons_self (hfind ▸ hle), hs]
      exact ih hrest (fun t ht => hdefault t (List.mem_cons_of_mem _ ht)) fun t ht hle' =>
        h t (List.mem_cons_of_mem _ ht) (hfind ▸ hle')

/-- What is found is in the list. -/
theorem mem_of_findM? {f : Int → Option Bool} {l : List Int} {s : Int}
    (h : l.findM? f = some (some s)) : s ∈ l := by
  induction l with
  | nil => cases h
  | cons t rest ih =>
    obtain ⟨found, -, h⟩ := Option.bind_eq_some_iff.1 h
    cases found with
    | true =>
      obtain rfl : t = s := Option.some.inj (Option.some.inj h)
      exact List.mem_cons_self
    | false => exact List.mem_cons_of_mem _ (ih h)

namespace TimeChart

variable [Machine] {range : TimeRange} {span : Option TimeSpan}

/-- The length of a bucket, as it is in integers. -/
def exactWidth (range : TimeRange) (span : Option TimeSpan) : Int :=
  max 1 ((span.map TimeSpan.millis).getD (autoSpan range.length))

/-- A chosen length is one to choose from. -/
theorem mem_of_autoSpan? {length n : Int} (h : autoSpan? length = some n) : n ∈ spanChoices := by
  obtain ⟨found, hfound, h⟩ := Option.bind_eq_some_iff.1 h
  obtain rfl : found.getD longestSpan = n := Option.some.inj h
  cases found with
  | none => exact (by decide : longestSpan ∈ spanChoices)
  | some s => exact mem_of_findM? hfound

/-- A length is chosen as in integers if it fits in a word with that of the range. -/
theorem autoSpan?_of_fits {length : Int}
    (h : 0 < length → length + autoSpan length ≤ Machine.greatestSum) :
    autoSpan? length = some (autoSpan length) := by
  have hpos : ∀ s ∈ spanChoices, 0 < s := by decide
  have hchoice : spanChoices.findM? (fun span => do
      return decide ((← TimeRange.parts? length span) ≤ mostAutoBuckets)) =
        some (spanChoices.find? fun span => TimeRange.parts length span ≤ mostAutoBuckets) := by
    refine @findM?_eq_find? _ _ longestSpan _ (by decide) (by decide) ?_
    intro s hs hle
    have hle : s ≤ autoSpan length := hle
    rw [TimeRange.parts?_of_le (hpos s hs) fun hlength => by have := h hlength; omega]
    exact congrArg some (decide_eq_decide.2 Nat.cast_le)
  rw [autoSpan?, hchoice]
  rfl

/-- The length of a bucket is as in integers if it fits in a word with that of the range. -/
theorem width_of_fits (hlength : Machine.Fits range.length)
    (h : 0 < range.length → range.length + exactWidth range span ≤ Machine.greatestSum) :
    width range span = .ok (exactWidth range span) := by
  cases span with
  | some s => rfl
  | none =>
    have hle : autoSpan range.length ≤ exactWidth range none := Int.le_max_right ..
    have hchosen : (Machine.word range.length >>= autoSpan?) = some (autoSpan range.length) := by
      rw [Machine.word_of_fits hlength]
      exact autoSpan?_of_fits fun hpos => by have := h hpos; omega
    rw [width, hchosen]
    rfl

/-- A bucket is at least one long, and its length fits in a word. -/
theorem width_bounds {n : Int} (h : width range span = .ok n) : 0 < n ∧ n ≤ Number.int64Max := by
  cases span with
  | some s =>
    obtain rfl : max 1 s.millis = n := Except.ok.inj h
    have hmillis : s.millis ≤ Number.int64Max := by
      unfold TimeSpan.millis Number.clamp64 Number.clamp
      exact max_le (by decide) (min_le_left ..)
    exact ⟨by omega, max_le (by decide) hmillis⟩
  | none =>
    rw [width] at h
    split at h
    · next length hchosen =>
      obtain rfl : max 1 length = n := Except.ok.inj h
      obtain ⟨_, -, hchosen⟩ := Option.bind_eq_some_iff.1 hchosen
      have hchoices : ∀ s ∈ spanChoices, 0 < max 1 s ∧ max 1 s ≤ Number.int64Max := by decide
      exact hchoices _ (mem_of_autoSpan? hchosen)
    · cases h

/-! ## The number of buckets -/

namespace Plan

variable {p : Plan}

/-- As many buckets are drawn as the machine counts. -/
theorem counted_of_drawnBuckets {count : Nat} (h : p.drawnBuckets = .ok count) :
    p.range.counted? p.span = some (count : Int) := by
  unfold drawnBuckets at h
  cases hcounted : p.range.counted? p.span with
  | none => rw [hcounted] at h; cases h
  | some n =>
    simp only [hcounted] at h
    split at h
    · cases h
    · cases hcapacity : Machine.capacity cellsSize n with
      | none => simp only [hcapacity] at h; cases h
      | some k =>
        simp only [hcapacity] at h
        obtain rfl : k = count := Except.ok.inj h
        rw [(Machine.capacity_eq_some_iff.1 hcapacity).1]

/-- Buckets that are counted right are drawn if they are not too many, -/
theorem drawnBuckets_of_few (h : p.range.counted? p.span = some (p.buckets : Int))
    (hfew : p.buckets ≤ mostBuckets) : p.drawnBuckets = .ok p.buckets := by
  have hroom : Machine.capacity cellsSize p.buckets = some p.buckets := by
    refine Machine.capacity_eq_some_iff.2 ⟨rfl, ?_⟩
    simp only [mostBuckets, cellsSize, Number.int64Max] at *
    omega
  unfold drawnBuckets
  simp only [h, Nat.cast_lt, if_neg (Nat.not_lt.2 hfew), hroom]
  rfl

/-- and are refused if they are. -/
theorem drawnBuckets_of_many (h : p.range.counted? p.span = some (p.buckets : Int))
    (hmany : mostBuckets < p.buckets) :
    p.drawnBuckets = .error (.tooManyBuckets stageName p.span p.buckets mostBuckets) := by
  unfold drawnBuckets
  simp only [h, Nat.cast_lt, if_pos hmany]
  rfl

/-- Buckets are counted right if their length fits in a word with that of the range. -/
theorem counted_of_fits (hspan : 0 < p.span) (hlength : Machine.Fits p.range.length)
    (h : 0 < p.range.length → p.range.length + p.span ≤ Machine.greatestSum) :
    p.range.counted? p.span = some (p.buckets : Int) :=
  TimeRange.counted?_of_fits hspan hlength h

end Plan

end TimeChart

end LogSearch
