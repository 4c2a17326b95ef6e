import LogSearch.Proofs.Number.Packing
import Mathlib.Algebra.Order.Field.Power
import Mathlib.Tactic.FieldSimp
import Mathlib.Tactic.Linarith
import Mathlib.Tactic.Qify

/-!
# Rounding to the nearest double

The exact result of an operation is a fraction `num / den · 2 ^ e`, of which rounding sees the whole
part and how the rest compares with one half.

* `extended`: the whole part with its rest, which moves along when digits are cut off.
* `nearest`: the integer next to a fraction, the even one of two.
* `Finite.Rounds`: what it means that a rational is rounded to a given double.
* `roundWithAccuracy_of_rounds`: rounding gives this double.
-/

namespace LogSearch.Number

open Float.Model (Format UnpackedFloat totalExponent)
open Float.Model.UnpackedFloat

/-! ## Fractions -/

/-- The mantissa `num / den`, cut off, with the bits that say how far the fraction goes beyond. -/
def extended (num den : Nat) : ExtendedMantissa :=
  .ofMantissaAndAccuracy (num / den) (accuracyOfFraction (num % den) den)

variable {num den m M : Nat} {e : Int} {r : ℚ} {v : Finite}

/-- The round bit and the sticky bit, said of the rest of the division. -/
theorem extended_eq (num den : Nat) : extended num den =
    ⟨num / den, decide (den ≤ 2 * (num % den) ∧ num % den ≠ 0),
      decide (num % den ≠ 0 ∧ 2 * (num % den) ≠ den)⟩ := by
  rw [extended, accuracyOfFraction]
  split
  next h => simp [h, ExtendedMantissa.ofMantissaAndAccuracy]
  next h =>
    cases hcmp : compare (2 * (num % den)) den
    · rw [Nat.compare_eq_lt] at hcmp
      simp [h, ExtendedMantissa.ofMantissaAndAccuracy]; omega
    · rw [Nat.compare_eq_eq] at hcmp
      simp [h, ExtendedMantissa.ofMantissaAndAccuracy]; omega
    · rw [Nat.compare_eq_gt] at hcmp
      simp [h, ExtendedMantissa.ofMantissaAndAccuracy]; omega

/-- A fraction shifted by a bit is the fraction with twice the denominator. -/
theorem shiftRightOne_extended (hden : 0 < den) :
    (extended num den).shiftRightOne = extended num (den * 2) := by
  have hr : num % den < den := Nat.mod_lt _ hden
  have hq : num / (den * 2) = num / den / 2 := by rw [Nat.div_div_eq_div_mul]
  have hm : num % (den * 2) = num % den + den * (num / den % 2) := Nat.mod_mul
  rw [extended_eq, extended_eq, hq, hm]
  generalize num / den = q, num % den = r at *
  clear hm hq
  rcases Nat.mod_two_eq_zero_or_one q with h | h <;>
    simp only [ExtendedMantissa.shiftRightOne, ExtendedMantissa.mk.injEq, h, true_and] <;>
    constructor <;> rw [Bool.eq_iff_iff] <;> simp <;> omega

/-- Cutting digits off makes the denominator larger. -/
theorem shiftRight_extended (hden : 0 < den) (n : Nat) :
    extended num den >>> n = extended num (den * 2 ^ n) := by
  induction n with
  | zero => simp; rfl
  | succ n ih =>
    change (extended num den >>> n).shiftRightOne = _
    rw [ih, shiftRightOne_extended (by positivity), Nat.pow_succ, Nat.mul_assoc]

/-- The integer nearest to `num / den`; a half goes to the even neighbour. -/
def nearest (num den : Nat) : Nat :=
  if 2 * (num % den) < den then num / den
  else if 2 * (num % den) = den then num / den + num / den % 2
  else num / den + 1

/-- A mantissa with its extra bits is rounded to the nearest integer, a half to the even one. -/
theorem roundedMantissa_extended (hden : 0 < den) :
    (extended num den).roundedMantissa = nearest num den := by
  rw [extended_eq, ExtendedMantissa.roundedMantissa, nearest]
  generalize num / den = q, num % den = r at *
  by_cases hr : r = 0
  · simp [hr, hden, ExtendedMantissa.accuracy, Accuracy.roundToNearestEven]
  rcases lt_trichotomy (2 * r) den with h | h | h
  · simp [hr, h, h.not_ge, h.ne, ExtendedMantissa.accuracy, Accuracy.roundToNearestEven]
  · simp [hr, h, ExtendedMantissa.accuracy, Accuracy.roundToNearestEven]
  · simp [hr, h.le, h.ne', h.not_gt, ExtendedMantissa.accuracy, Accuracy.roundToNearestEven]

/-- The nearest integer is the only one within a half, of two the even one. -/
theorem nearest_eq (hden : 0 < den) (hlow : 2 * (den * M) ≤ 2 * num + den)
    (hhigh : 2 * num ≤ 2 * (den * M) + den)
    (hodd : M % 2 = 1 → 2 * (den * M) < 2 * num + den ∧ 2 * num < 2 * (den * M) + den) :
    nearest num den = M := by
  have hr : num % den < den := Nat.mod_lt _ hden
  have hnum : den * (num / den) + num % den = num := Nat.div_add_mod num den
  rw [nearest]
  generalize num / den = q, num % den = r at *
  have hM : M = q ∨ M = q + 1 := by
    have h1 : 2 * q ≤ 2 * M + 1 := by nlinarith
    have h2 : 2 * M < 2 * q + 3 := by nlinarith
    omega
  rcases hM with rfl | rfl
  · split
    · rfl
    · split <;> omega
  · rw [Nat.mul_succ] at hlow hhigh hodd
    split
    · omega
    · split <;> omega

/-- The nearest integer is known from bounds on twice the fraction, which are strict at odd
integers. -/
theorem nearest_eq_of_rat {x : ℚ} (hden : 0 < den) (hx : (num : ℚ) = den * x)
    (hlow : 2 * M ≤ 2 * x + 1) (hhigh : 2 * x ≤ 2 * M + 1)
    (hodd : M % 2 = 1 → 2 * M < 2 * x + 1 ∧ 2 * x < 2 * M + 1) : nearest num den = M := by
  have hden' : (0 : ℚ) < den := by exact_mod_cast hden
  refine nearest_eq hden ?_ ?_ fun h => ⟨?_, ?_⟩ <;> qify <;> rw [hx]
  · nlinarith
  · nlinarith
  · nlinarith [(hodd h).1]
  · nlinarith [(hodd h).2]

/-! ## Rounding -/

/-- The rational `r` is rounded to `v`: no other double is nearer, and of two the mantissa of `v`
is even. Below a power of two the next double is half as far as above. -/
structure Finite.Rounds (v : Finite) (r : ℚ) : Prop where
  low : (2 * v.mantissa - 1) * 2 ^ v.exponent ≤ 2 * r
  high : 2 * r ≤ (2 * v.mantissa + 1) * 2 ^ v.exponent
  odd : v.mantissa % 2 = 1 → (2 * v.mantissa - 1) * 2 ^ v.exponent < 2 * r ∧
    2 * r < (2 * v.mantissa + 1) * 2 ^ v.exponent
  binade : v.mantissa = hiddenBit → v.exponent ≠ -1074 →
    (4 * v.mantissa - 1) * 2 ^ v.exponent ≤ 4 * r

/-- The exponent that the format gives to a fraction with this whole part. -/
def target (m : Nat) (e : Int) : Int := max (m.log2 + 1 + e - 53) (-1074)

/-- The exponent for a mantissa is the one that the format gives to its whole part. -/
theorem targetExponent_eq (m : Nat) (e : Int) :
    Format.binary64.targetExponent (totalExponent m e) = target m e := rfl

/-- A fraction is below the power of two of one bit more than its whole part has. -/
theorem lt_two_pow (hden : 0 < den) (hr : r = num / den * 2 ^ e) :
    r < 2 ^ ((num / den).log2 + 1 + e) := by
  have hnat : num < 2 ^ ((num / den).log2 + 1) * den :=
    (Nat.div_lt_iff_lt_mul hden).1 Nat.lt_log2_self
  have hcast : (num : ℚ) < 2 ^ ((num / den).log2 + 1) * den := by exact_mod_cast hnat
  have hden' : (0 : ℚ) < den := by exact_mod_cast hden
  rw [hr, zpow_add₀ two_ne_zero]
  gcongr
  rw [div_lt_iff₀ hden']
  exact_mod_cast hcast

/-- A fraction is at least the power of two of the bits of its whole part. -/
theorem two_pow_le (hden : 0 < den) (hnum : num / den ≠ 0) (hr : r = num / den * 2 ^ e) :
    2 ^ ((num / den).log2 + e) ≤ r := by
  have hnat : 2 ^ (num / den).log2 * den ≤ num :=
    (Nat.le_div_iff_mul_le hden).1 (Nat.log2_self_le hnum)
  have hcast : (2 : ℚ) ^ (num / den).log2 * den ≤ num := by exact_mod_cast hnat
  have hden' : (0 : ℚ) < den := by exact_mod_cast hden
  rw [hr, zpow_add₀ two_ne_zero]
  gcongr
  rw [le_div_iff₀ hden']
  exact_mod_cast hcast

/-- What is rounded to a double is below the next power of two of its exponent. -/
theorem Finite.Rounds.lt (hv : v.Canonical) (h : v.Rounds r) : r < 2 ^ (53 + v.exponent) := by
  have hm : (v.mantissa : ℚ) + 1 ≤ 2 ^ 53 := by exact_mod_cast hv.mantissa_lt
  have hz : (0 : ℚ) < 2 ^ v.exponent := by positivity
  have hhigh := h.high
  rw [zpow_add₀ two_ne_zero]
  nlinarith

/-- A value of which the mantissa has its first bit lies above half of the power of two at it. -/
theorem Finite.Rounds.gt (hv : v.Canonical) (h : v.Rounds r) (he : v.exponent ≠ -1074) :
    2 ^ (51 + v.exponent) < r ∧ (v.mantissa ≠ hiddenBit → 2 ^ (52 + v.exponent) < r) := by
  have hm : (2 : ℚ) ^ 52 ≤ v.mantissa := by exact_mod_cast hv.normal he
  have hz : (0 : ℚ) < 2 ^ v.exponent := by positivity
  have hlow := h.low
  rw [zpow_add₀ two_ne_zero, zpow_add₀ two_ne_zero]
  refine ⟨by nlinarith, fun hne => ?_⟩
  have hm' : (2 : ℚ) ^ 52 + 1 ≤ v.mantissa := by
    exact_mod_cast Nat.lt_of_le_of_ne (hv.normal he) (Ne.symm hne)
  nlinarith

/-- The format chooses the exponent of the double. Only below a power of two it may choose the one
before, from which rounding up to the power of two leads back. -/
theorem target_eq (hv : v.Canonical) (h : v.Rounds r) (hden : 0 < den)
    (hr : r = num / den * 2 ^ e) (he : e ≤ target (num / den) e) :
    target (num / den) e = v.exponent ∨
      target (num / den) e = v.exponent - 1 ∧ v.mantissa = hiddenBit ∧ v.exponent ≠ -1074 ∧
        r < 2 ^ (52 + v.exponent) := by
  have hlt := lt_two_pow hden hr
  have hge := hv.exponent_ge
  have hle : target (num / den) e ≤ v.exponent := by
    by_cases hzero : num / den = 0
    · simp only [target, hzero, Nat.log2_zero] at he ⊢
      omega
    · have := (zpow_lt_zpow_iff_right₀ one_lt_two).1
        ((two_pow_le hden hzero hr).trans_lt (h.lt hv))
      simp only [target]
      omega
  by_cases hmin : v.exponent = -1074
  · exact .inl (by simp only [target] at hle ⊢; omega)
  · obtain ⟨hhalf, hfull⟩ := h.gt hv hmin
    have := (zpow_lt_zpow_iff_right₀ one_lt_two).1 (hhalf.trans hlt)
    by_cases hbit : v.mantissa = hiddenBit
    · rcases (by simp only [target] at hle ⊢; omega : target (num / den) e = v.exponent ∨
        target (num / den) e = v.exponent - 1) with heq | heq
      · exact .inl heq
      · refine .inr ⟨heq, hbit, hmin, hlt.trans_le (zpow_le_zpow_right₀ one_le_two ?_)⟩
        simp only [target] at heq
        omega
    · have := (zpow_lt_zpow_iff_right₀ one_lt_two).1 ((hfull hbit).trans hlt)
      exact .inl (by simp only [target] at hle ⊢; omega)

/-- What is nearest to the fraction at the exponent of the format. -/
theorem nearest_target (hv : v.Canonical) (h : v.Rounds r) (hden : 0 < den)
    (hr : r = num / den * 2 ^ e) {n : Nat} (hn : e + n = target (num / den) e) :
    target (num / den) e = v.exponent ∧ nearest num (den * 2 ^ n) = v.mantissa ∨
      target (num / den) e = v.exponent - 1 ∧ nearest num (den * 2 ^ n) = 2 * hiddenBit ∧
        v.mantissa = hiddenBit := by
  have hD : 0 < den * 2 ^ n := by positivity
  have hx : (num : ℚ) = (den * 2 ^ n : Nat) * (r / 2 ^ target (num / den) e) := by
    have hden' : (0 : ℚ) < den := by exact_mod_cast hden
    rw [← hn, zpow_add₀ two_ne_zero, zpow_natCast, hr]
    push_cast
    field_simp
  rcases target_eq hv h hden hr (by omega) with heq | ⟨heq, hbit, hmin, hlt⟩
  · have hz : (0 : ℚ) < 2 ^ v.exponent := by positivity
    rw [heq] at hx
    obtain ⟨x, rfl⟩ : ∃ x, r = x * 2 ^ v.exponent := ⟨r / 2 ^ v.exponent, by field_simp⟩
    rw [mul_div_cancel_right₀ x hz.ne'] at hx
    refine .inl ⟨heq, nearest_eq_of_rat hD hx ?_ ?_ fun hodd => ⟨?_, ?_⟩⟩
    · nlinarith [h.low]
    · nlinarith [h.high]
    · nlinarith [(h.odd hodd).1]
    · nlinarith [(h.odd hodd).2]
  · have hz : (0 : ℚ) < 2 ^ (v.exponent - 1) := by positivity
    have hz2 : (2 : ℚ) ^ v.exponent = 2 * 2 ^ (v.exponent - 1) := by
      rw [← zpow_one_add₀ two_ne_zero]
      congr 1
      omega
    have hlow := h.binade hbit hmin
    have hm : (v.mantissa : ℚ) = 2 ^ 52 := by rw [hbit]; norm_num [hiddenBit]
    rw [zpow_add₀ two_ne_zero] at hlt
    rw [heq] at hx
    rw [hm, hz2] at hlow
    rw [hz2] at hlt
    obtain ⟨x, rfl⟩ : ∃ x, r = x * 2 ^ (v.exponent - 1) := ⟨r / 2 ^ (v.exponent - 1), by field_simp⟩
    rw [mul_div_cancel_right₀ x hz.ne'] at hx
    have hM : ((2 * hiddenBit : Nat) : ℚ) = 2 ^ 53 := by norm_num [hiddenBit]
    refine .inr ⟨heq, nearest_eq_of_rat hD hx ?_ ?_ fun hodd => absurd hodd (by decide), hbit⟩
    · rw [hM]; nlinarith
    · rw [hM]; nlinarith

/-- Bringing the fraction to the exponent of the format. -/
theorem shiftToTargetExponent_eq (num : Nat) (hden : 0 < den) {n : Nat}
    (hn : n = (target (num / den) e - e).toNat) :
    shiftToTargetExponent .binary64 (num / den) e (accuracyOfFraction (num % den) den) =
      (extended num (den * 2 ^ n), e + n) := by
  subst hn
  rw [shiftToTargetExponent, targetExponent_eq, shiftToExponent]
  exact congrArg (·, _) (shiftRight_extended hden _)

/-- An exact mantissa is shifted to its exponent without a loss, the rest in the extra bits. -/
theorem shiftToTargetExponent_exact {n : Nat} (hn : n = (target m e - e).toNat) :
    shiftToTargetExponent .binary64 m e .exact = (extended m (2 ^ n), e + n) := by
  have h := shiftToTargetExponent_eq m (e := e) one_pos (n := n) (by rwa [Nat.div_one])
  rwa [Nat.div_one, Nat.mod_one, Nat.one_mul] at h

/-- Rounding gives the double that the fraction is rounded to. -/
theorem roundWithAccuracy_of_rounds (hv : v.Canonical) (hpos : 0 < v.mantissa) (h : v.Rounds r)
    (hden : 0 < den) (hr : r = num / den * 2 ^ e) (he : e ≤ target (num / den) e) :
    roundWithAccuracy .binary64 .positive (num / den) e (accuracyOfFraction (num % den) den) =
      .finite .positive v.mantissa v.exponent hpos := by
  obtain ⟨n, hn⟩ : ∃ n : Nat, e + n = target (num / den) e :=
    ⟨(target (num / den) e - e).toNat, by omega⟩
  have hD : 0 < den * 2 ^ n := by positivity
  have hfirst := shiftToTargetExponent_eq num (e := e) hden (n := n) (by omega)
  have hmantissa := hv.mantissa_lt
  have hge := hv.exponent_ge
  unfold roundWithAccuracy
  simp only [hfirst, roundedMantissa_extended hD, hn]
  -- A mantissa of all ones may have been rounded up by one bit; then the exponent goes up as well.
  rcases nearest_target hv h hden hr hn with ⟨heq, hnear⟩ | ⟨heq, hnear, hbit⟩
  · have hlog : v.mantissa.log2 < 53 := (Nat.log2_lt hpos.ne').2 hmantissa
    have hsecond := shiftToTargetExponent_exact (m := v.mantissa) (e := v.exponent) (n := 0)
      (by simp only [target]; omega)
    simp [hnear, heq, hsecond, extended_eq, hpos.ne']
  · have hlog : (2 * hiddenBit).log2 = 53 := by decide +kernel
    have hsecond := shiftToTargetExponent_exact (m := 2 * hiddenBit) (e := v.exponent - 1) (n := 1)
      (by simp only [target, hlog]; omega)
    have hzero : hiddenBit ≠ 0 := by decide
    simp [hnear, heq, hsecond, extended_eq, hbit, hzero]

end LogSearch.Number
