import LogSearch.Proofs.Partition
import LogSearch.Proofs.Time.Counting
import LogSearch.View.Histogram

/-!
# What a histogram counts

Two divisions that round up decide how long a bucket is and how many buckets there are. Each is the
least that will do, so that every instant of the range is in a bucket, and no bucket starts behind it.
Both are done in words: the first one adds the number of buckets to the length of the range, and the
second one the length of a bucket, which is much more where few buckets are asked for.

* `Histogram.width`: the length of a bucket; `Histogram.ofEvents?_eq`: the buckets of that length.
* `Histogram.Counts`: buckets that share out a range, with the events in each.
* `Histogram.counts_drawn`: buckets of that length are such.
* `Histogram.ofEvents?_of_le`, `Histogram.buckets_of_gt`: where they are counted right, and beyond.
* `Histogram.conserves_events_iff`: the histograms that are.
-/

namespace LogSearch

namespace Histogram

/-- The length of a bucket: the least with which so many buckets cover the range. -/
def width (range : TimeRange) (most : Nat) : Int := TimeRange.parts range.length most

/-- Buckets that share out a range, at most so many, with the number of events in each. -/
structure Counts (events : List Record) (range : TimeRange) (most : Nat) (h : Histogram) : Prop where
  scale_pos : 1 ≤ h.scale
  length_pos : 1 ≤ h.buckets.length
  length_le : h.buckets.length ≤ most
  /-- Each bucket starts where the one before it ends. -/
  starts : ∀ (i : Nat) b, h.buckets[i]? = some b → b.start = range.start + i * h.scale
  inside : ∀ b ∈ h.buckets, b.start < range.stop
  covers : ∀ t, range.contains t = true → ∃ b ∈ h.buckets, b.start ≤ t ∧ t < b.start + h.scale
  counts : ∀ b ∈ h.buckets, b.count = events.countP fun e =>
    e.time?.any fun t => range.contains t && (b.start ≤ t && t < b.start + h.scale)
  total : (h.buckets.map HistogramBucket.count).sum = events.countP fun e => e.time?.any range.contains

variable {events : List Record} {range : TimeRange} {most : Nat}

/-! ## The buckets -/

section

variable (hrange : range.start < range.stop) (hmost : 1 ≤ most)

include hrange

/-- A range that ends after it starts has a length. -/
theorem length_pos_of_lt : 0 < range.length := Int.sub_pos_of_lt hrange

include hmost

/-- So have its buckets. -/
theorem width_pos : 0 < width range most := by
  have hspan : (0 : Int) < most := by omega
  have hparts : 0 < TimeRange.parts range.length most :=
    (TimeRange.lt_parts_iff hspan).2 (by simpa using length_pos_of_lt hrange)
  unfold width
  omega

/-- A bucket is no longer than the range and the number of buckets together. -/
theorem width_le (hfits : range.stop - range.start + most ≤ Number.int64Max) :
    width range most ≤ Number.int64Max := by
  have hspan : (0 : Int) < most := by omega
  have hlength := length_pos_of_lt hrange
  have hle : TimeRange.parts range.length most ≤ range.length.toNat := by
    rw [TimeRange.parts_le_iff hspan, Int.toNat_of_nonneg hlength.le]
    exact le_mul_of_one_le_right hlength.le (by omega)
  have hdef : range.length = range.stop - range.start := rfl
  unfold width
  omega

/-- The least length with which so many buckets do gives no more buckets than that. -/
theorem parts_width_le : TimeRange.parts range.length (width range most) ≤ most := by
  have hspan : (0 : Int) < most := by omega
  rw [TimeRange.parts_le_iff (width_pos hrange hmost), Int.mul_comm]
  exact (TimeRange.parts_le_iff hspan).1 (Nat.le_refl _)

end

/-- The instants of the events in the range. -/
def timesWithin (range : TimeRange) (events : List Record) : List Int :=
  (events.filterMap Record.time?).filter range.contains

/-- The instants with a property are as many as the events within the range that have it. -/
theorem countP_timesWithin (p : Int → Bool) : (timesWithin range events).countP p =
    events.countP fun e => e.time?.any fun t => range.contains t && p t := by
  induction events with
  | nil => rfl
  | cons event events ih =>
    unfold timesWithin at ih ⊢
    cases ht : event.time? with
    | none => rw [List.filterMap_cons_none ht, List.countP_cons_of_neg (by simp [ht]), ih]
    | some t =>
      rw [List.filterMap_cons_some ht]
      by_cases hin : range.contains t = true
      · rw [List.filter_cons_of_pos hin, List.countP_cons, List.countP_cons, ih]
        simp [ht, hin]
      · rw [List.filter_cons_of_neg hin, List.countP_cons_of_neg (by simp [ht, hin]), ih]

/-- The bucket with a number, and the events in it. -/
def bucketAt (events : List Record) (range : TimeRange) (scale : Int) (i : Nat) : HistogramBucket :=
  ⟨range.start + i * scale, (timesWithin range events).countP fun t => (t - range.start) / scale = i⟩

/-- A histogram of so many buckets of a length. -/
def drawn (events : List Record) (range : TimeRange) (scale : Int) (count : Nat) : Histogram :=
  ⟨scale, (List.range count).map (bucketAt events range scale)⟩

/-- Whether there is a histogram does not depend on the events. -/
theorem ofEvents?_eq_none_iff [Machine] :
    ofEvents? events range most = none ↔ grid? range most = none := by
  unfold ofEvents?
  cases grid? range most with
  | none => exact iff_of_true rfl rfl
  | some grid => exact iff_of_false nofun nofun

/-- A length that fits into a word is taken as it is. -/
theorem clamp64_eq_self {n : Int} (h : Machine.Fits n) : Number.clamp64 n = n := by
  obtain ⟨hlow, hhigh⟩ := h
  unfold Number.clamp64 Number.clamp
  omega

/-- Where the range and the number of buckets are no greater than a word together, the first division is
right, and the second one decides. -/
theorem ofEvents?_eq [Machine] (hrange : range.start < range.stop) (hmost : 1 ≤ most)
    (hfits : range.stop - range.start + most ≤ Number.int64Max) :
    ofEvents? events range most =
      ((TimeRange.parts? range.length (width range most)).bind (Machine.capacity bucketSize)).map
        (drawn events range (width range most)) := by
  have hpos := length_pos_of_lt hrange
  have hwidth := width_pos hrange hmost
  have hlength : range.length = range.stop - range.start := rfl
  have hmin : Number.int64Min < 0 := by decide
  have hmost' : (0 : Int) < most := by omega
  have hparts : TimeRange.parts? range.length most = some (width range most) :=
    TimeRange.parts?_of_le hmost' fun _ => le_trans (by omega) Machine.le_greatestSum
  unfold ofEvents? grid?
  rw [clamp64_eq_self ⟨by omega, by omega⟩, Machine.wrap_of_fits ⟨by omega, by omega⟩,
    if_neg (by omega), hparts]
  have hmax : max 1 (width range most) = width range most := max_eq_right hwidth
  simp only [Option.bind_eq_bind, Option.bind_some, hmax]
  cases TimeRange.parts? range.length (width range most) with
  | none => rfl
  | some n =>
    rw [Option.bind_some, Option.bind_some]
    cases Machine.capacity bucketSize n <;> rfl

/-! ## The events in them -/

section

variable {scale : Int} (hscale : 0 < scale)

include hscale

/-- The number of an instant is that of the bucket it is in. -/
theorem ediv_eq_iff (t : Int) (i : Nat) : (t - range.start) / scale = i ↔
    range.start + i * scale ≤ t ∧ t < range.start + i * scale + scale := by
  have hlow : (i : Int) ≤ (t - range.start) / scale ↔ i * scale ≤ t - range.start :=
    Int.le_ediv_iff_mul_le hscale
  have hhigh : (t - range.start) / scale < i + 1 ↔ t - range.start < (i + 1) * scale :=
    Int.ediv_lt_iff_lt_mul hscale
  rw [Int.add_mul, Int.one_mul] at hhigh
  omega

/-- A bucket counts the events of the range from its start on and before its end. -/
theorem count_bucketAt (i : Nat) : (bucketAt events range scale i).count =
    events.countP fun e => e.time?.any fun t => range.contains t &&
      ((bucketAt events range scale i).start ≤ t && t < (bucketAt events range scale i).start + scale) := by
  have hnumber : (fun t => decide ((t - range.start) / scale = i)) =
      fun t => decide (range.start + i * scale ≤ t) && decide (t < range.start + i * scale + scale) := by
    funext t
    rw [← Bool.decide_and]
    exact decide_eq_decide.2 (ediv_eq_iff hscale t i)
  show (timesWithin range events).countP _ = _
  rw [hnumber, countP_timesWithin]
  rfl

/-- Each event of the range is in one of the buckets. -/
theorem sum_count_bucketAt :
    ((List.range (TimeRange.parts range.length scale)).map fun i =>
      (bucketAt events range scale i).count).sum = (timesWithin range events).length := by
  have hin : ∀ t ∈ timesWithin range events,
      ((t - range.start) / scale).toNat ∈ List.range (TimeRange.parts range.length scale) := by
    intro t ht
    exact List.mem_range.2 (TimeRange.toNat_lt_parts hscale (List.mem_filter.1 ht).2)
  have hnumber : ∀ i, (bucketAt events range scale i).count =
      ((timesWithin range events).filter fun t => ((t - range.start) / scale).toNat = i).length := by
    intro i
    rw [← List.countP_eq_length_filter]
    apply List.countP_congr
    intro t ht
    have hstart := (TimeRange.contains_iff.1 (List.mem_filter.1 ht).2).1
    have hnonneg : 0 ≤ (t - range.start) / scale := Int.ediv_nonneg (by omega) hscale.le
    rw [decide_eq_true_iff, decide_eq_true_iff]
    omega
  have hperm := flatMap_filter_perm (fun t => ((t - range.start) / scale).toNat)
    (List.nodup_range (n := TimeRange.parts range.length scale)) (timesWithin range events)
  rw [List.filter_eq_self.2 fun t ht => decide_eq_true (hin t ht)] at hperm
  rw [← hperm.length_eq, List.length_flatMap]
  exact congrArg List.sum (List.map_congr_left fun i _ => hnumber i)

end

/-- Buckets of the least length that will do, as many as cover the range, count each event of the range
once: in the bucket of its instant. -/
theorem counts_drawn (events : List Record) (hrange : range.start < range.stop) (hmost : 1 ≤ most) :
    Counts events range most (drawn events range (width range most)
      (TimeRange.parts range.length (width range most))) := by
  have hscale := width_pos hrange hmost
  have hlength : range.length = range.stop - range.start := rfl
  generalize hwidth : width range most = scale at hscale
  have hbucket : ∀ b ∈ (List.range (TimeRange.parts range.length scale)).map
      (bucketAt events range scale),
      ∃ i < TimeRange.parts range.length scale, bucketAt events range scale i = b := by
    intro b hb
    obtain ⟨i, hi, rfl⟩ := List.mem_map.1 hb
    exact ⟨i, List.mem_range.1 hi, rfl⟩
  constructor
  case scale_pos => exact hscale
  case length_pos =>
    rw [drawn, List.length_map, List.length_range]
    exact (TimeRange.lt_parts_iff hscale).2 (by simpa using length_pos_of_lt hrange)
  case length_le =>
    rw [drawn, List.length_map, List.length_range, ← hwidth]
    exact parts_width_le hrange hmost
  case starts =>
    intro i b hb
    rw [drawn, List.getElem?_map] at hb
    obtain ⟨j, hj, rfl⟩ := Option.map_eq_some_iff.1 hb
    obtain ⟨hi, rfl⟩ := List.getElem?_eq_some_iff.1 hj
    rw [List.getElem_range]
    rfl
  case inside =>
    intro b hb
    obtain ⟨i, hi, rfl⟩ := hbucket b hb
    have hlt := (TimeRange.lt_parts_iff hscale).1 hi
    show range.start + i * scale < range.stop
    omega
  case covers =>
    intro t ht
    have hlt := TimeRange.toNat_lt_parts hscale ht
    have hstart := (TimeRange.contains_iff.1 ht).1
    have hnonneg : 0 ≤ (t - range.start) / scale := Int.ediv_nonneg (by omega) hscale.le
    exact ⟨_, List.mem_map_of_mem (List.mem_range.2 hlt),
      (ediv_eq_iff hscale t _).1 (Int.toNat_of_nonneg hnonneg).symm⟩
  case counts =>
    intro b hb
    obtain ⟨i, -, rfl⟩ := hbucket b hb
    exact count_bucketAt hscale i
  case total =>
    rw [drawn, List.map_map]
    refine (sum_count_bucketAt hscale).trans ?_
    have hall : (timesWithin range events).countP (fun _ => true) = _ := countP_timesWithin _
    simpa using hall

/-- If the range and a bucket are no greater than a word together, as many buckets are drawn as cover the
range, if there is room for them. -/
theorem ofEvents?_of_le [Machine] (hrange : range.start < range.stop) (hmost : 1 ≤ most)
    (hfits : range.stop - range.start + most ≤ Number.int64Max)
    (hsum : range.stop - range.start + width range most ≤ Machine.greatestSum) :
    ofEvents? events range most =
      (Machine.capacity bucketSize (TimeRange.parts range.length (width range most))).map
        (drawn events range (width range most)) := by
  have hparts : TimeRange.parts? range.length (width range most) =
      some (TimeRange.parts range.length (width range most) : Int) :=
    TimeRange.parts?_of_le (width_pos hrange hmost) fun _ => hsum
  rw [ofEvents?_eq hrange hmost hfits, hparts, Option.bind_some]

/-- If they are greater, no bucket is drawn. -/
theorem buckets_of_gt [Machine] (hrange : range.start < range.stop) (hmost : 1 ≤ most)
    (hfits : range.stop - range.start + most ≤ Number.int64Max)
    (hsum : Machine.greatestSum < range.stop - range.start + width range most) {h : Histogram}
    (hdrawn : ofEvents? events range most = some h) : h.buckets = [] := by
  rw [ofEvents?_eq hrange hmost hfits] at hdrawn
  obtain ⟨count, hcount, rfl⟩ := Option.map_eq_some_iff.1 hdrawn
  obtain ⟨n, hn, hcount⟩ := Option.bind_eq_some_iff.1 hcount
  have hlength : range.length ≤ Number.int64Max := by
    show range.stop - range.start ≤ _
    omega
  have hnonpos : n ≤ 0 := TimeRange.parts?_nonpos (width_pos hrange hmost) hlength
    (width_le hrange hmost hfits) hsum n hn
  obtain ⟨rfl, -⟩ := Machine.capacity_eq_some_iff.1 hcount
  obtain rfl : count = 0 := by omega
  rfl

/-- A histogram conserves the events of a range if and only if the range and a bucket are no greater than
a word together, which is more than asking for it of the range and the number of buckets, and if there is
room for the buckets. Any other histogram has no buckets at all, or counting them stops the program. -/
theorem conserves_events_iff [Machine] (events : List Record) {range : TimeRange} {most : Nat}
    (hrange : range.start < range.stop) (hmost : 1 ≤ most)
    (hfits : range.stop - range.start + most ≤ Number.int64Max) :
    let scale := ⌈((range.stop - range.start : ℤ) : ℚ) / most⌉
    let buckets := ⌈((range.stop - range.start : ℤ) : ℚ) / scale⌉
    ((∃ h, ofEvents? events range most = some h ∧ Counts events range most h) ↔
      range.stop - range.start + scale ≤ Machine.greatestSum ∧ 16 * buckets ≤ Number.int64Max) ∧
    ∀ h, ofEvents? events range most = some h → Counts events range most h ∨ h.buckets = [] := by
  intro scale buckets
  have hlength := length_pos_of_lt hrange
  have hwidth := width_pos hrange hmost
  have hscale : scale = width range most := by
    rw [width, TimeRange.natCast_parts hlength.le (by omega), Int.cast_natCast]
    rfl
  have hbuckets : buckets = (TimeRange.parts range.length (width range most) : Int) := by
    rw [TimeRange.natCast_parts hlength.le hwidth, ← hscale]
    rfl
  rw [hscale, hbuckets]
  by_cases hsum : range.stop - range.start + width range most ≤ Machine.greatestSum
  · rw [ofEvents?_of_le hrange hmost hfits hsum, and_iff_right hsum]
    by_cases hroom : 16 * (TimeRange.parts range.length (width range most) : Int) ≤ Number.int64Max
    · have hcounts := counts_drawn events hrange hmost
      have hcapacity : Machine.capacity bucketSize (TimeRange.parts range.length (width range most)) =
          some (TimeRange.parts range.length (width range most)) :=
        Machine.capacity_eq_some_iff.2 ⟨rfl, hroom⟩
      rw [hcapacity, Option.map_some]
      exact ⟨iff_of_true ⟨_, rfl, hcounts⟩ hroom, fun h hh => .inl (Option.some.inj hh ▸ hcounts)⟩
    · have hnone :
          Machine.capacity bucketSize (TimeRange.parts range.length (width range most)) = none :=
        Option.eq_none_iff_forall_not_mem.2 fun n hn => hroom (Machine.capacity_eq_some_iff.1 hn).2
      rw [hnone]
      exact ⟨iff_of_false nofun hroom, nofun⟩
  · have hempty : ∀ h, ofEvents? events range most = some h → h.buckets = [] := fun h hh =>
      buckets_of_gt hrange hmost hfits (Int.not_le.1 hsum) hh
    refine ⟨iff_of_false ?_ fun h => hsum h.1, fun h hh => .inr (hempty h hh)⟩
    -- a histogram that conserves the events has a bucket
    rintro ⟨h, hh, hcounts⟩
    have hpos := hcounts.length_pos
    rw [hempty h hh] at hpos
    exact absurd hpos (by decide)

/-- Events at the ends of a range and around them, and one without a time. -/
def eventsAround (range : TimeRange) : List Record :=
  Record.ofMessage "" :: [range.stop, range.stop - 1, range.start, range.start - 1].map
    (Record.ofMessage "").withTime

attribute [local instance] Machine.stopping

/-- Of six buckets asked for five do, and the last one reaches beyond the range. -/
theorem five_of_six_buckets :
    ((-3 : Int) < 10 ∧ 1 ≤ 6 ∧ (10 - -3 + (6 : Nat) : Int) ≤ Number.int64Max) ∧
      ofEvents? (eventsAround ⟨-3, 10⟩) ⟨-3, 10⟩ 6 =
        some ⟨3, [⟨-3, 1⟩, ⟨0, 0⟩, ⟨3, 0⟩, ⟨6, 0⟩, ⟨9, 1⟩]⟩ ∧
      ∃ h, ofEvents? (eventsAround ⟨-3, 10⟩) ⟨-3, 10⟩ 6 = some h ∧
        Counts (eventsAround ⟨-3, 10⟩) ⟨-3, 10⟩ 6 h := by
  obtain ⟨hiff, -⟩ := @conserves_events_iff _ (eventsAround ⟨-3, 10⟩) ⟨-3, 10⟩ 6 (by decide)
    (by decide) (by decide)
  have hscale : ⌈((10 - -3 : ℤ) : ℚ) / (6 : ℕ)⌉ = 3 := by
    norm_num
  have hbuckets : ⌈((10 - -3 : ℤ) : ℚ) / (3 : ℤ)⌉ = 5 := by
    norm_num
  rw [hscale, hbuckets] at hiff
  exact ⟨by decide, by decide, hiff.2 (by decide)⟩

/-- One bucket of half of the words: the range and the number of buckets fit in a word together, but not
the range and the bucket. -/
theorem half_of_words_not_counted :
    ((0 : Int) < 4611686018427387914 ∧ 1 ≤ 1 ∧
      (4611686018427387914 - 0 + (1 : Nat) : Int) ≤ Number.int64Max) ∧
    ofEvents? [] ⟨0, 4611686018427387914⟩ 1 = none ∧
    ¬ ∃ h, ofEvents? [] ⟨0, 4611686018427387914⟩ 1 = some h ∧
      Counts [] ⟨0, 4611686018427387914⟩ 1 h := by
  have hnone : ofEvents? [] ⟨0, 4611686018427387914⟩ 1 = none := by decide
  exact ⟨by decide, hnone, fun ⟨h, hsome, _⟩ => nomatch hnone.symm.trans hsome⟩

end Histogram

end LogSearch
