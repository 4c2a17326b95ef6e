import LogSearch.Number.Shortest
import LogSearch.Proofs.Number.Rounding
import Mathlib.Tactic.Ring

/-!
# The shortest decimal is rounded back

* `Interval.coarsest_meets`: the search finds a grid point of the interval when there is one among
  the grids that it looks at.
* `ten_zpow_le_two_zpow`: powers of ten below powers of two.
* `rounds_of_meets`: the interval of a double holds only what is rounded to it.
* `shortest_rounds`: the shortest decimal is rounded to its double.
-/

namespace LogSearch.Number

variable {i : Interval} {tie : Tie} {t : Int} {n : Nat} {v : Finite}

/-! ## Grids -/

/-- Whether a multiple of `10 ^ t` lies in the interval. -/
def Interval.Meets (i : Interval) (t : Int) (n : Nat) : Prop :=
  i.holds (Nat.pow 10 (-t).toNat) (i.unit * Nat.pow 10 t.toNat) n = true

/-- What is found on the grid of a power of ten is a multiple of it in the interval. -/
theorem Interval.meets_of_onGrid? (h : i.onGrid? tie t = some n) : i.Meets t n := by
  unfold Interval.onGrid? at h
  simp only at h
  split at h
  · simp at h
  · simp_all [Interval.Meets]
  · simp_all [Interval.Meets]
  · split at h
    · simp_all [Interval.Meets]
    · simp_all [Interval.Meets]
    · split at h
      · simp_all [Interval.Meets]
      · simp only [Option.some.injEq] at h
        subst h
        split <;> simp_all [Interval.Meets]

/-- What lies inside the interval counts, with or without its ends. -/
theorem Interval.holds_of_lt {scale step : Nat} (hlow : i.low * scale < n * step)
    (hhigh : n * step < i.high * scale) : i.holds scale step n = true := by
  unfold Interval.holds
  split <;> simp <;> omega

/-- A grid as fine as the upper part of the interval meets the interval. -/
theorem Interval.onGrid?_isSome (hunit : 0 < i.unit) (hlow : i.low < i.value)
    (hstep : i.unit * 10 ^ t.toNat ≤ (i.high - i.value) * 10 ^ (-t).toNat) :
    (i.onGrid? tie t).isSome = true := by
  have hscale : 0 < Nat.pow 10 (-t).toNat := Nat.pow_pos (by decide)
  have hpos : 0 < i.unit * Nat.pow 10 t.toNat := Nat.mul_pos hunit (Nat.pow_pos (by decide))
  change i.unit * Nat.pow 10 t.toNat ≤ (i.high - i.value) * Nat.pow 10 (-t).toNat at hstep
  unfold Interval.onGrid?
  simp only
  generalize Nat.pow 10 (-t).toNat = scale, i.unit * Nat.pow 10 t.toNat = step at *
  have hrest : i.value * scale % step < step := Nat.mod_lt _ hpos
  have hdiv := Nat.div_add_mod (i.value * scale) step
  rw [Nat.mul_comm step] at hdiv
  have hlow' : i.low * scale < i.value * scale := Nat.mul_lt_mul_of_pos_right hlow hscale
  rw [Nat.sub_mul] at hstep
  have hsome : i.holds scale step (i.value * scale / step) = true ∨
      i.holds scale step (i.value * scale / step + 1) = true := by
    by_cases hzero : i.value * scale % step = 0
    · exact .inl (holds_of_lt (by omega) (by omega))
    · refine .inr (holds_of_lt ?_ ?_) <;> rw [Nat.succ_mul] <;> omega
  split
  · simp_all
  · rfl
  · rfl
  · split <;> [rfl; rfl; skip]
    split <;> rfl

/-- The search ends on a grid that meets the interval when one of those searched does. -/
theorem Interval.coarsest_meets {fuel : Nat} {s : Int} (hle : s ≤ t) (hlt : t - fuel < s)
    (hs : (i.onGrid? tie s).isSome = true) :
    i.Meets (i.coarsest tie fuel t).exponent (i.coarsest tie fuel t).digits := by
  induction fuel generalizing t with
  | zero => omega
  | succ fuel ih =>
    unfold Interval.coarsest
    split
    next n hn => exact meets_of_onGrid? hn
    next hn =>
      have hne : s ≠ t := by
        rintro rfl
        simp [hn] at hs
      exact ih (by omega) (by omega)

/-! ## Powers of ten and of two -/

/-- A power to the positive part of an exponent is split from the negative part. -/
theorem pow_toNat (a : ℚ) (ha : a ≠ 0) (e : Int) : a ^ e.toNat = a ^ e * a ^ (-e).toNat := by
  rw [← zpow_natCast, ← zpow_natCast, ← zpow_add₀ ha]
  congr 1
  omega

/-- Three powers of ten are below ten of two, twenty-eight above ninety-three. -/
theorem ten_zpow_le_two_zpow {s a : Int} (hpos : 0 ≤ s → 10 * s ≤ 3 * a)
    (hneg : s < 0 → 93 * s ≤ 28 * a) : (10 : ℚ) ^ s ≤ 2 ^ a := by
  rcases le_or_gt 0 s with h | h
  · refine le_of_pow_le_pow_left₀ (n := 3) (by decide) (by positivity) ?_
    calc ((10 : ℚ) ^ s) ^ 3 = (10 ^ 3) ^ s := by rw [← zpow_natCast, zpow_comm, zpow_natCast]
      _ ≤ (2 ^ 10) ^ s := zpow_le_zpow_left₀ h (by norm_num) (by norm_num)
      _ = 2 ^ (10 * s) := by rw [zpow_mul]; rfl
      _ ≤ 2 ^ (3 * a) := zpow_le_zpow_right₀ one_le_two (hpos h)
      _ = (2 ^ a) ^ 3 := by rw [mul_comm, zpow_mul]; rfl
  · refine le_of_pow_le_pow_left₀ (n := 28) (by decide) (by positivity) ?_
    have hinv : ((10 : ℚ) ^ 28) ^ s ≤ (2 ^ 93) ^ s := by
      obtain ⟨k, rfl⟩ : ∃ k : Nat, s = -k := ⟨(-s).toNat, by omega⟩
      rw [zpow_neg, zpow_neg, zpow_natCast, zpow_natCast]
      gcongr
      norm_num
    calc ((10 : ℚ) ^ s) ^ 28 = (10 ^ 28) ^ s := by rw [← zpow_natCast, zpow_comm, zpow_natCast]
      _ ≤ (2 ^ 93) ^ s := hinv
      _ = 2 ^ (93 * s) := by rw [zpow_mul]; rfl
      _ ≤ 2 ^ (28 * a) := zpow_le_zpow_right₀ one_le_two (hneg h)
      _ = (2 ^ a) ^ 28 := by rw [mul_comm, zpow_mul]; rfl

/-! ## The interval of a double -/

section Ends

variable (c n : Nat) (e t : Int)

/-- An end of the interval, scaled to integers. -/
theorem cast_end : ((c * 2 ^ e.toNat * 10 ^ (-t).toNat : Nat) : ℚ) =
    c * 2 ^ e * (2 ^ (-e).toNat * 10 ^ (-t).toNat) := by
  push_cast
  rw [pow_toNat 2 two_ne_zero e]
  ring

/-- A point of the grid, scaled to integers. -/
theorem cast_point : ((n * (4 * 2 ^ (-e).toNat * 10 ^ t.toNat) : Nat) : ℚ) =
    4 * (n * 10 ^ t) * (2 ^ (-e).toNat * 10 ^ (-t).toNat) := by
  push_cast
  rw [pow_toNat 10 (by norm_num) t]
  ring

/-- The comparison of an end with a point can be made in integers. -/
theorem end_le_point :
    c * 2 ^ e.toNat * 10 ^ (-t).toNat ≤ n * (4 * 2 ^ (-e).toNat * 10 ^ t.toNat) ↔
      (c : ℚ) * 2 ^ e ≤ 4 * (n * 10 ^ t) := by
  rw [← Nat.cast_le (α := ℚ), cast_end, cast_point, mul_le_mul_iff_left₀ (by positivity)]

/-- The comparison of a point with an end can be made in integers. -/
theorem point_le_end :
    n * (4 * 2 ^ (-e).toNat * 10 ^ t.toNat) ≤ c * 2 ^ e.toNat * 10 ^ (-t).toNat ↔
      4 * (n * 10 ^ t) ≤ (c : ℚ) * 2 ^ e := by
  rw [← Nat.cast_le (α := ℚ), cast_end, cast_point, mul_le_mul_iff_left₀ (by positivity)]

end Ends

/-- What lies in the interval of a double is rounded to it. -/
theorem rounds_of_meets (hpos : 0 < v.mantissa) (h : (Interval.ofFinite v).Meets t n) :
    v.Rounds (n * 10 ^ t) := by
  obtain ⟨below, hbelow⟩ : ∃ below, (if v.mantissa = hiddenBit ∧ v.exponent ≠ -1074 then 1 else 2) =
    below := ⟨_, rfl⟩
  have hle : below ≤ 2 := by rw [← hbelow]; split <;> decide
  have hcast : ((4 * v.mantissa - below : Nat) : ℚ) = 4 * v.mantissa - below := by
    rw [Nat.cast_sub (by omega)]
    push_cast
    rfl
  have hcast' : ((4 * v.mantissa + 2 : Nat) : ℚ) = 4 * v.mantissa + 2 := by push_cast; rfl
  simp only [Interval.Meets, Interval.ofFinite, hbelow, Interval.holds, Nat.pow_eq] at h
  have hends : (4 * v.mantissa - below) * 2 ^ v.exponent ≤ 4 * ((n : ℚ) * 10 ^ t) ∧
      4 * ((n : ℚ) * 10 ^ t) ≤ (4 * v.mantissa + 2) * 2 ^ v.exponent ∧
      (v.mantissa % 2 = 1 → (4 * v.mantissa - below) * 2 ^ v.exponent < 4 * ((n : ℚ) * 10 ^ t) ∧
        4 * ((n : ℚ) * 10 ^ t) < (4 * v.mantissa + 2) * 2 ^ v.exponent) := by
    simp only [← hcast, ← hcast']
    split at h
    next heven =>
      simp only [decide_eq_true_eq, Bool.and_eq_true, end_le_point, point_le_end] at heven h
      exact ⟨h.1, h.2, fun hodd => by omega⟩
    next =>
      simp only [decide_eq_true_eq, Bool.and_eq_true,
        lt_iff_lt_of_le_iff_le (end_le_point ..), lt_iff_lt_of_le_iff_le (point_le_end ..)] at h
      exact ⟨h.1.le, h.2.le, fun _ => h⟩
  obtain ⟨hlow, hhigh, hodd⟩ := hends
  have hbelow' : (below : ℚ) * 2 ^ v.exponent ≤ 2 * 2 ^ v.exponent := by
    gcongr
    exact_mod_cast hle
  refine ⟨by linarith, by linarith, fun h => ?_, fun hbit hmin => ?_⟩
  · obtain ⟨h1, h2⟩ := hodd h
    exact ⟨by linarith, by linarith⟩
  · obtain rfl : 1 = below := by rw [← hbelow, if_pos ⟨hbit, hmin⟩]
    simpa using hlow

/-- A grid of at most half a unit of the last place meets the interval. -/
theorem onGrid?_ofFinite (hpos : 0 < v.mantissa) (ht : (10 : ℚ) ^ t ≤ 2 ^ (v.exponent - 1)) :
    ((Interval.ofFinite v).onGrid? tie t).isSome = true := by
  have hscale : 0 < 2 ^ v.exponent.toNat := Nat.two_pow_pos _
  have hdiff : (Interval.ofFinite v).high - (Interval.ofFinite v).value =
      2 * 2 ^ v.exponent.toNat := by
    simp only [Interval.ofFinite, Nat.pow_eq, ← Nat.sub_mul]
    congr 1
    omega
  refine Interval.onGrid?_isSome ?_ ?_ ?_
  · simp [Interval.ofFinite, Nat.pow_eq]
  · simp only [Interval.ofFinite, Nat.pow_eq]
    refine Nat.mul_lt_mul_of_pos_right ?_ hscale
    split <;> omega
  · rw [hdiff]
    have h := (point_le_end 2 1 v.exponent t).2 (by
      rw [zpow_sub_one₀ two_ne_zero] at ht
      push_cast
      linarith)
    simpa [Interval.ofFinite, Nat.pow_eq] using h

/-- The shortest decimal of a double is rounded to the double. -/
theorem shortest_rounds (hv : v.Canonical) (hpos : 0 < v.mantissa) :
    v.Rounds ((shortest tie v).digits * 10 ^ (shortest tie v).exponent) := by
  have hlog : v.mantissa.log2 < 53 := (Nat.log2_lt hpos.ne').2 hv.mantissa_lt
  have hge := hv.exponent_ge
  have hle := hv.exponent_le
  refine rounds_of_meets hpos (Interval.coarsest_meets (s := v.decimalBound - 19) (by omega)
    (by omega) (onGrid?_ofFinite hpos (ten_zpow_le_two_zpow ?_ ?_))) <;>
  · simp only [Finite.decimalBound]
    omega

end LogSearch.Number
