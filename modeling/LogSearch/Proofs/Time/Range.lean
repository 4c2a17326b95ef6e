import LogSearch.Time.Range
import Mathlib.Data.Rat.Floor

/-!
# Ranges in parts of equal length

Spans of one length part a range: the last one may reach beyond its end, and is cut short there.

* `TimeRange.parts_le_iff`, `TimeRange.parts_eq_ceil`: how many spans cover a length.
* `TimeRange.bucket`, `TimeRange.contains_bucket_iff`: a part of a range, and what is in it.
* `TimeRange.toNat_lt_parts`: each instant of a range is in one of its parts.
-/

namespace LogSearch

namespace TimeRange

/-- A number of spans covers a length if together they are as long; no fewer do. -/
theorem parts_le_iff {length span : Int} (h : 0 < span) {n : Nat} :
    parts length span ≤ n ↔ length ≤ n * span := by
  unfold parts
  split
  · next hempty =>
    have hnonneg : 0 ≤ (n : Int) * span := Int.mul_nonneg (Int.natCast_nonneg n) h.le
    exact iff_of_true (Nat.zero_le n) (Int.le_trans hempty hnonneg)
  · rw [Int.toNat_le, ← Int.lt_add_one_iff, Int.ediv_lt_iff_lt_mul h, Int.add_mul, Int.one_mul]
    omega

/-- There is one more span if those before it leave something of the length. -/
theorem lt_parts_iff {length span : Int} (h : 0 < span) {n : Nat} :
    n < parts length span ↔ n * span < length := by
  rw [← Nat.not_le, parts_le_iff h, Int.not_le]

/-- So many spans cover a length as it has in it, rounded up. -/
theorem parts_eq_ceil (length : Int) {span : Int} (h : 0 < span) :
    parts length span = ⌈(length : ℚ) / span⌉.toNat := by
  have hpos : (0 : ℚ) < span := by exact_mod_cast h
  refine eq_of_forall_ge_iff fun n => ?_
  rw [parts_le_iff h, Int.toNat_le, Int.ceil_le, div_le_iff₀ hpos]
  exact_mod_cast Iff.rfl

/-- The same as integers, for a length that is not negative. -/
theorem natCast_parts {length span : Int} (hlength : 0 ≤ length) (h : 0 < span) :
    (parts length span : Int) = ⌈(length : ℚ) / span⌉ := by
  have hquotient : (0 : ℚ) ≤ length / span := by positivity
  rw [parts_eq_ceil length h, Int.toNat_of_nonneg (Int.ceil_nonneg hquotient)]

/-! ## The parts of a range -/

/-- The range of a bucket; the last one ends with the whole range. -/
def bucket (r : TimeRange) (width : Int) (i : Nat) : TimeRange :=
  ⟨r.start + i * width, min (r.start + (i + 1) * width) r.stop⟩

/-- A range contains its start and not its end. -/
theorem contains_iff {r : TimeRange} {t : Int} : r.contains t = true ↔ r.start ≤ t ∧ t < r.stop := by
  unfold contains
  rw [Bool.and_eq_true, decide_eq_true_iff, decide_eq_true_iff]

/-- An instant is in a bucket if it is in the range and has the number of the bucket. -/
theorem contains_bucket_iff {r : TimeRange} {width : Int} (hwidth : 0 < width) (i : Nat) (t : Int) :
    (r.bucket width i).contains t = true ↔
      r.contains t = true ∧ ((t - r.start) / width).toNat = i := by
  rw [contains_iff, contains_iff]
  show r.start + i * width ≤ t ∧ t < min (r.start + (i + 1) * width) r.stop ↔ _
  rw [lt_min_iff]
  constructor
  · -- The quotient lies between the number of the bucket and the next one.
    rintro ⟨hlow, hhigh, hstop⟩
    have hstart : 0 ≤ (i : Int) * width := Int.mul_nonneg (Int.natCast_nonneg i) hwidth.le
    have hle : (i : Int) ≤ (t - r.start) / width := (Int.le_ediv_iff_mul_le hwidth).2 (by omega)
    have hlt : (t - r.start) / width < i + 1 := (Int.ediv_lt_iff_lt_mul hwidth).2 (by omega)
    exact ⟨⟨by omega, hstop⟩, by omega⟩
  · rintro ⟨⟨hstart, hstop⟩, hnumber⟩
    have hnonneg : 0 ≤ (t - r.start) / width := Int.ediv_nonneg (by omega) hwidth.le
    have hi : (i : Int) = (t - r.start) / width := by omega
    have hlow := Int.ediv_mul_le (t - r.start) hwidth.ne'
    have hhigh := Int.lt_ediv_add_one_mul_self (t - r.start) hwidth
    rw [← hi] at hlow hhigh
    exact ⟨by omega, by omega, hstop⟩

/-- The number of an instant of the range is that of a bucket. -/
theorem toNat_lt_parts {r : TimeRange} {width : Int} (hwidth : 0 < width) {t : Int}
    (h : r.contains t = true) : ((t - r.start) / width).toNat < parts r.length width := by
  obtain ⟨hstart, hstop⟩ := contains_iff.1 h
  have hlength : r.length = r.stop - r.start := rfl
  have hnonneg : 0 ≤ (t - r.start) / width := Int.ediv_nonneg (by omega) hwidth.le
  have hlow := Int.ediv_mul_le (t - r.start) hwidth.ne'
  apply Nat.lt_of_not_le
  rw [parts_le_iff hwidth, Int.toNat_of_nonneg hnonneg]
  omega

end TimeRange

end LogSearch
