import LogSearch.Proofs.Number.Rounding
import Mathlib.Tactic.Ring

/-!
# Doubles of decimals

A decimal `m · 10 ^ e` becomes a double in one of two ways: by one operation on `m` and a table of
powers of ten, where both are doubles, and by an exact product or quotient otherwise.

* `mul_of_rounds`, `div_of_rounds`: the operations give the double that the exact result is rounded to.
* `Finite.ofNat`: the double of a natural number, of which the table has the powers of ten.
* `ofFloat_ofScientific`: a decimal becomes the double that it is rounded to.
* `toInt64_ofInt`: small integers are read off their doubles.
* `ofFloat_ofScientific_positive`: no decimal becomes a negative number or no number.
-/

namespace LogSearch.Number

open Float.Model (Format UnpackedFloat totalExponent)
open Float.Model.UnpackedFloat

variable {m m₁ m₂ n : Nat} {e e₁ e₂ : Int} {r : ℚ} {v : Finite}

/-! ## Bounds -/

/-- What is rounded to a double that is not zero is positive. -/
theorem Finite.Rounds.pos (hpos : 0 < v.mantissa) (h : v.Rounds r) : 0 < r := by
  have hm : (1 : ℚ) ≤ v.mantissa := by exact_mod_cast hpos
  have hz : (0 : ℚ) < 2 ^ v.exponent := by positivity
  nlinarith [h.low]

/-- What is rounded to a double that is not zero is no less than half the least double. -/
theorem Finite.Rounds.ge (hv : v.Canonical) (hpos : 0 < v.mantissa) (h : v.Rounds r) :
    2 ^ (-1075 : Int) ≤ r := by
  have hm : (1 : ℚ) ≤ v.mantissa := by exact_mod_cast hpos
  have hz : (2 : ℚ) ^ (-1074 : Int) ≤ 2 ^ v.exponent := zpow_le_zpow_right₀ one_le_two hv.exponent_ge
  have hhalf : (2 : ℚ) ^ (-1074 : Int) = 2 * 2 ^ (-1075 : Int) := by
    rw [← zpow_one_add₀ two_ne_zero]; rfl
  have hz0 : (0 : ℚ) < 2 ^ v.exponent := by positivity
  have hlow := h.low
  generalize (2 : ℚ) ^ v.exponent = z, (2 : ℚ) ^ (-1074 : Int) = a, (2 : ℚ) ^ (-1075 : Int) = b at *
  have hz' : z ≤ (2 * v.mantissa - 1) * z := le_mul_of_one_le_left hz0.le (by linarith)
  linarith

/-- No digit is missing when the mantissa is long enough. -/
theorem le_target (h : hiddenBit ≤ m) : e ≤ target m e := by
  have hlog : 52 ≤ m.log2 := (Nat.le_log2 (by simp only [hiddenBit] at h; omega)).2 h
  simp only [target]
  omega

/-! ## Products and quotients -/

/-- A product of doubles is the double that the product of their values is rounded to. -/
theorem mul_of_rounds (hv : v.Canonical) (hpos : 0 < v.mantissa) {h₁ : 0 < m₁} {h₂ : 0 < m₂}
    (h : v.Rounds (m₁ * 2 ^ e₁ * (m₂ * 2 ^ e₂))) (hbits : hiddenBit ≤ m₁ * m₂) :
    UnpackedFloat.mul .binary64 (.finite .positive m₁ e₁ h₁) (.finite .positive m₂ e₂ h₂) =
      .finite .positive v.mantissa v.exponent hpos := by
  have hr : (m₁ * 2 ^ e₁ * (m₂ * 2 ^ e₂) : ℚ) = (m₁ * m₂ : Nat) / (1 : Nat) * 2 ^ (e₁ + e₂) := by
    rw [zpow_add₀ two_ne_zero]
    push_cast
    ring
  have hround := roundWithAccuracy_of_rounds hv hpos h one_pos hr (by rw [Nat.div_one]; exact le_target hbits)
  rwa [Nat.div_one, Nat.mod_one] at hround

/-- A quotient of doubles is the double that the quotient of their values is rounded to. -/
theorem div_of_rounds (hv : v.Canonical) (hpos : 0 < v.mantissa) {h₁ : 0 < m₁} {h₂ : 0 < m₂}
    (h : v.Rounds (m₁ * 2 ^ e₁ / (m₂ * 2 ^ e₂))) :
    UnpackedFloat.div .binary64 (.finite .positive m₁ e₁ h₁) (.finite .positive m₂ e₂ h₂) =
      .finite .positive v.mantissa v.exponent hpos := by
  obtain ⟨t, ht⟩ : ∃ t, min (e₁ - e₂)
      (Format.binary64.targetExponent (totalExponent m₁ e₁ - totalExponent m₂ e₂)) = t := ⟨_, rfl⟩
  obtain ⟨s, hs⟩ : ∃ s : Nat, s = (e₁ - e₂ - t).toNat := ⟨_, rfl⟩
  have hle : t ≤ e₁ - e₂ := ht ▸ min_le_left ..
  have hr : (m₁ * 2 ^ e₁ / (m₂ * 2 ^ e₂) : ℚ) = (m₁ * 2 ^ s : Nat) / (m₂ : Nat) * 2 ^ t := by
    have he : e₁ = s + t + e₂ := by omega
    rw [he, zpow_add₀ two_ne_zero, zpow_add₀ two_ne_zero, zpow_natCast]
    push_cast
    field_simp
  have hround := roundWithAccuracy_of_rounds hv hpos h h₂ hr ?_
  · change roundWithAccuracy .binary64 .positive _ _ _ = _
    simp only [ht, ← hs, Nat.shiftLeft_eq]
    exact hround
  · by_cases hmin : t ≤ -1074
    · exact le_max_of_le_right hmin
    refine le_target ?_
    change min _ (max (m₁.log2 + 1 + e₁ - (m₂.log2 + 1 + e₂) - 53) (-1074)) = t at ht
    rw [Nat.le_div_iff_mul_le h₂]
    calc hiddenBit * m₂ ≤ 2 ^ 52 * 2 ^ (m₂.log2 + 1) :=
          Nat.mul_le_mul le_rfl Nat.lt_log2_self.le
      _ = 2 ^ (52 + (m₂.log2 + 1)) := (pow_add ..).symm
      _ ≤ 2 ^ (m₁.log2 + s) := Nat.pow_le_pow_right two_pos (by omega)
      _ = 2 ^ m₁.log2 * 2 ^ s := pow_add ..
      _ ≤ m₁ * 2 ^ s := Nat.mul_le_mul_right _ (Nat.log2_self_le h₁.ne')

/-! ## Decimals -/

/-- What is rounded to a double has no exponent far beyond those of doubles. -/
theorem Finite.Rounds.exponent_le (hv : v.Canonical) (hm : m ≠ 0) (h : v.Rounds (m * 10 ^ e)) :
    e ≤ 2 ^ 11 := by
  by_contra hlt
  have hm' : (1 : ℚ) ≤ m := by exact_mod_cast Nat.pos_of_ne_zero hm
  have hle : (2 : ℚ) ^ e ≤ m * 10 ^ e :=
    calc (2 : ℚ) ^ e ≤ 10 ^ e := zpow_le_zpow_left₀ (by omega) (by norm_num) (by norm_num)
      _ ≤ m * 10 ^ e := le_mul_of_one_le_left (by positivity) hm'
  have := (zpow_lt_zpow_iff_right₀ one_lt_two).1 (hle.trans_lt (h.lt hv))
  have := hv.exponent_le
  omega

/-- What is rounded to a double other than zero has no exponent far below those of doubles. -/
theorem Finite.Rounds.exponent_ge (hv : v.Canonical) (hpos : 0 < v.mantissa)
    (h : v.Rounds (m * 10 ^ e)) : -((2 ^ 11 : Int) + m.log2) ≤ e := by
  by_contra hlt
  have hm2 : (m : ℚ) ≤ 2 ^ (m.log2 + 1) := by exact_mod_cast Nat.lt_log2_self.le
  obtain ⟨k, rfl⟩ : ∃ k : Nat, e = -k := ⟨(-e).toNat, by omega⟩
  have hle : (m : ℚ) * 10 ^ (-k : Int) ≤ 2 ^ (m.log2 + 1 + -k : Int) := by
    rw [zpow_add₀ two_ne_zero]
    refine mul_le_mul (by exact_mod_cast hm2) ?_ (by positivity) (by positivity)
    rw [zpow_neg, zpow_neg, zpow_natCast, zpow_natCast]
    gcongr
    norm_num
  have := (zpow_le_zpow_iff_right₀ one_lt_two).1 ((h.ge hv hpos).trans hle)
  omega

/-- A decimal number is the double that its value is rounded to. -/
theorem ofScientific_of_rounds (hv : v.Canonical) (hpos : 0 < v.mantissa) (h : v.Rounds (m * 10 ^ e)) :
    UnpackedFloat.ofScientific .binary64 m e = .finite .positive v.mantissa v.exponent hpos := by
  have hm : m ≠ 0 := by
    rintro rfl
    simpa using h.pos hpos
  -- The two shortcuts for powers of ten beyond the doubles are not taken.
  have hbig : ¬ (2 ^ 11 : Int) < e := not_lt.2 (h.exponent_le hv hm)
  have hsmall : ¬ e < -((2 ^ 11 : Int) + m.log2) := not_lt.2 (h.exponent_ge hv hpos)
  rw [UnpackedFloat.ofScientific, dif_neg hm, if_neg hbig, if_neg hsmall]
  split
  next hnonneg =>
    obtain ⟨k, rfl⟩ := Int.eq_ofNat_of_zero_le hnonneg
    refine mul_of_rounds hv hpos ?_ ?_
    · convert h using 1
      rw [Nat.shiftLeft_eq]
      push_cast
      rw [Int.toNat_natCast, zpow_natCast, zpow_neg]
      change (m : ℚ) * 2 ^ 53 * (2 ^ 53)⁻¹ * (10 ^ k * 1) = _
      field_simp
    · have hm' : 1 ≤ m := Nat.pos_of_ne_zero hm
      rw [Nat.shiftLeft_eq]
      change hiddenBit ≤ m * 2 ^ 53 * 10 ^ k
      calc hiddenBit ≤ 1 * 2 ^ 53 * 1 := by decide
        _ ≤ m * 2 ^ 53 * 10 ^ k := by gcongr; exact Nat.one_le_pow _ _ (by norm_num)
  next hneg =>
    obtain ⟨k, rfl⟩ : ∃ k : Nat, e = -k := ⟨(-e).toNat, by omega⟩
    refine div_of_rounds hv hpos ?_
    convert h using 1
    rw [neg_neg, Int.toNat_natCast, zpow_neg, zpow_natCast]
    push_cast
    field_simp

/-! ## Natural numbers -/

/-- The double of a natural number whose binary digits fit the mantissa. -/
def Finite.ofNat (n : Nat) : Finite := ⟨false, n * 2 ^ 52 / 2 ^ n.log2, n.log2 - 52⟩

/-- Whether the binary digits of `n` fit the mantissa. -/
def FitsMantissa (n : Nat) : Prop := 0 < n ∧ n.log2 ≤ 1023 ∧ 2 ^ n.log2 ∣ n * 2 ^ 52

instance : DecidablePred FitsMantissa := fun n =>
  inferInstanceAs (Decidable (0 < n ∧ n.log2 ≤ 1023 ∧ 2 ^ n.log2 ∣ n * 2 ^ 52))

/-- A number that fits fills the mantissa with zeros behind its bits. -/
theorem FitsMantissa.mul_eq (h : FitsMantissa n) : (Finite.ofNat n).mantissa * 2 ^ n.log2 = n * 2 ^ 52 :=
  Nat.div_mul_cancel h.2.2

/-- A number that fits is the value of its double. -/
theorem FitsMantissa.value (h : FitsMantissa n) :
    ((Finite.ofNat n).mantissa : ℚ) * 2 ^ (Finite.ofNat n).exponent = n := by
  have hmul : ((Finite.ofNat n).mantissa : ℚ) * 2 ^ n.log2 = n * 2 ^ 52 := by exact_mod_cast h.mul_eq
  change ((Finite.ofNat n).mantissa : ℚ) * 2 ^ ((n.log2 : Int) - (52 : Nat)) = n
  rw [zpow_sub₀ two_ne_zero, zpow_natCast, zpow_natCast, ← mul_div_assoc, hmul]
  field_simp

/-- The mantissa of a number that fits has its leading bit. -/
theorem FitsMantissa.le_mantissa (h : FitsMantissa n) : hiddenBit ≤ (Finite.ofNat n).mantissa := by
  refine Nat.le_of_mul_le_mul_right ?_ (Nat.two_pow_pos n.log2)
  rw [h.mul_eq, Nat.mul_comm]
  exact Nat.mul_le_mul (Nat.log2_self_le h.1.ne') le_rfl

/-- The mantissa of a number that fits is not zero. -/
theorem FitsMantissa.mantissa_pos (h : FitsMantissa n) : 0 < (Finite.ofNat n).mantissa :=
  Nat.lt_of_lt_of_le (by decide) h.le_mantissa

/-- A number that fits has a mantissa and an exponent of a double. -/
theorem FitsMantissa.canonical (h : FitsMantissa n) : (Finite.ofNat n).Canonical where
  mantissa_lt := by
    refine Nat.lt_of_mul_lt_mul_right (a := 2 ^ n.log2) ?_
    have hlt : n < 2 ^ (n.log2 + 1) := Nat.lt_log2_self
    rw [h.mul_eq]
    simp only [hiddenBit]
    rw [Nat.pow_succ] at hlt
    omega
  exponent_ge := by simp only [Finite.ofNat]; omega
  exponent_le := by have := h.2.1; simp only [Finite.ofNat]; omega
  normal _ := h.le_mantissa

/-- Every double is what its value is rounded to. -/
theorem Finite.rounds_self (v : Finite) : v.Rounds (v.mantissa * 2 ^ v.exponent) := by
  have hz : (0 : ℚ) < 2 ^ v.exponent := by positivity
  constructor
  · linarith
  · linarith
  · intro; constructor <;> linarith
  · intros; linarith

/-- A number of at most fifty-three bits fits. -/
theorem fitsMantissa_of_lt (hpos : 0 < n) (hlt : n < 2 ^ 53) : FitsMantissa n := by
  have hlog : n.log2 < 53 := (Nat.log2_lt hpos.ne').2 hlt
  exact ⟨hpos, by omega, (pow_dvd_pow 2 (by omega)).mul_left n⟩

/-- A number of at most fifty-three bits is unpacked to itself. -/
theorem unpacked_ofNat (hpos : 0 < n) (hlt : n < 2 ^ 53) :
    ∃ h, UnpackedFloat.ofNat .binary64 n =
      .finite .positive (Finite.ofNat n).mantissa (Finite.ofNat n).exponent h := by
  have hfits := fitsMantissa_of_lt hpos hlt
  have hmantissa := hfits.mantissa_pos
  have hlog : n.log2 < 53 := (Nat.log2_lt hpos.ne').2 hlt
  refine ⟨hmantissa, ?_⟩
  obtain ⟨k, hk⟩ : ∃ k : Nat, k = 52 - n.log2 := ⟨_, rfl⟩
  have htarget : target n 0 = -k := by simp only [target]; omega
  have hr : (n : ℚ) = (n * 2 ^ k : Nat) / (1 : Nat) * 2 ^ (-k : Int) := by
    rw [zpow_neg, zpow_natCast]
    push_cast
    field_simp
  have hbits : hiddenBit ≤ n * 2 ^ k :=
    calc hiddenBit = 2 ^ n.log2 * 2 ^ k := by rw [← pow_add, hk, Nat.add_sub_cancel' (by omega)]; rfl
      _ ≤ n * 2 ^ k := Nat.mul_le_mul_right _ (Nat.log2_self_le hpos.ne')
  have hround := roundWithAccuracy_of_rounds hfits.canonical hmantissa
    (by rw [← hr, ← hfits.value]; exact Finite.rounds_self _) one_pos rfl (e := -k)
    (by rw [Nat.div_one]; exact le_target hbits)
  rw [Nat.div_one, Nat.mod_one] at hround
  have hcompare : compare (n : Int) 0 = .gt := Int.compare_eq_gt.2 (by omega)
  simp only [UnpackedFloat.ofNat, UnpackedFloat.ofInt, UnpackedFloat.normalize, hcompare, UnpackedFloat.round,
    targetExponent_eq, decreaseExponent, Int.toNat_natCast, htarget, Nat.shiftLeft_eq]
  rw [show (0 - -(k : Int)).toNat = k by omega, zero_sub]
  exact hround

/-- A number of at most fifty-three bits is a double without a loss. -/
theorem ofFloat_toFloat (hpos : 0 < n) (hlt : n < 2 ^ 53) :
    Value.ofFloat n.toUInt64.toFloat = .finite (Finite.ofNat n) := by
  obtain ⟨h, heq⟩ := unpacked_ofNat hpos hlt
  have hn : n.toUInt64.toNat = n := by
    rw [Nat.toUInt64, UInt64.toNat_ofNat']
    exact Nat.mod_eq_of_lt (by omega)
  change Value.ofFloat (.ofModel (.pack (UnpackedFloat.ofNat .binary64 n.toUInt64.toNat))) = _
  rw [hn, heq]
  exact ofFloat_pack_finite (s := .positive) h (fitsMantissa_of_lt hpos hlt).canonical

/-- A positive double is unpacked to its mantissa and exponent. -/
theorem unpack_of_ofFloat {x : Float} {v : Finite} (hx : Value.ofFloat x = .finite v)
    (hs : v.negative = false) (hpos : 0 < v.mantissa) :
    x.toModel.unpack = .finite .positive v.mantissa v.exponent hpos := by
  rw [Value.ofFloat_eq] at hx
  cases hu : x.toModel.unpack with
  | notANumber => simp [hu, Value.ofUnpacked] at hx
  | infinity s => simp [hu, Value.ofUnpacked] at hx
  | zero s =>
    rw [hu] at hx
    cases hx
    simp at hpos
  | finite s m e h =>
    rw [hu] at hx
    cases hx
    cases s with
    | negative => simp [isNegative] at hs
    | positive => rfl

/-- The powers of ten of the table are doubles. -/
theorem powerOfTen_spec : ∀ (k : Nat) (hk : k < Float.exactlyRepresentablePowersOfTen.size),
    FitsMantissa (10 ^ k) ∧
      Value.ofFloat Float.exactlyRepresentablePowersOfTen[k] = .finite (Finite.ofNat (10 ^ k)) := by
  decide +kernel

/-! ## Operations on doubles -/

/-- A mantissa and an exponent of a double are packed without a loss. -/
theorem ofFloat_pack_of_canonical (hv : v.Canonical) (hpos : 0 < v.mantissa) :
    Value.ofFloat (.ofModel (.pack (.finite .positive v.mantissa v.exponent hpos))) =
      .finite ⟨false, v.mantissa, v.exponent⟩ :=
  ofFloat_pack_finite (s := .positive) hpos ⟨hv.1, hv.2, hv.3, hv.4⟩

section operations

variable {x y : Float} {k : Nat}

/-- The product of two natural numbers as doubles is what the exact product is rounded to. -/
theorem ofFloat_mul (hn : FitsMantissa n) (hk : FitsMantissa k)
    (hx : Value.ofFloat x = .finite (Finite.ofNat n)) (hy : Value.ofFloat y = .finite (Finite.ofNat k))
    (hv : v.Canonical) (hpos : 0 < v.mantissa) (h : v.Rounds (n * k)) :
    Value.ofFloat (x * y) = .finite ⟨false, v.mantissa, v.exponent⟩ := by
  change Value.ofFloat (.ofModel (.pack (UnpackedFloat.mul .binary64 _ _))) = _
  rw [unpack_of_ofFloat hx rfl hn.mantissa_pos, unpack_of_ofFloat hy rfl hk.mantissa_pos,
    mul_of_rounds hv hpos, ofFloat_pack_of_canonical hv hpos]
  · rw [hn.value, hk.value]
    exact h
  · exact hn.le_mantissa.trans (Nat.le_mul_of_pos_right _ hk.mantissa_pos)

/-- The quotient of two natural numbers as doubles is what the exact quotient is rounded to. -/
theorem ofFloat_div (hn : FitsMantissa n) (hk : FitsMantissa k)
    (hx : Value.ofFloat x = .finite (Finite.ofNat n)) (hy : Value.ofFloat y = .finite (Finite.ofNat k))
    (hv : v.Canonical) (hpos : 0 < v.mantissa) (h : v.Rounds (n / k)) :
    Value.ofFloat (x / y) = .finite ⟨false, v.mantissa, v.exponent⟩ := by
  change Value.ofFloat (.ofModel (.pack (UnpackedFloat.div .binary64 _ _))) = _
  rw [unpack_of_ofFloat hx rfl hn.mantissa_pos, unpack_of_ofFloat hy rfl hk.mantissa_pos,
    div_of_rounds hv hpos, ofFloat_pack_of_canonical hv hpos]
  rw [hn.value, hk.value]
  exact h

end operations

/-! ## Literals -/

/-- A decimal is read as the double that it is rounded to. -/
theorem ofFloat_ofScientific {negative : Bool} {k : Nat} (hv : v.Canonical) (hpos : 0 < v.mantissa)
    (h : v.Rounds (m * 10 ^ (if negative then -(k : Int) else k))) :
    Value.ofFloat (Float.ofScientific m negative k) = .finite ⟨false, v.mantissa, v.exponent⟩ := by
  have hm : 0 < m := by
    by_contra hzero
    obtain rfl : m = 0 := by omega
    simpa using h.pos hpos
  unfold Float.ofScientific
  split
  next hfast =>
    have hk : k < Float.exactlyRepresentablePowersOfTen.size := Nat.lt_succ_of_le hfast.2
    obtain ⟨hfits, hpower⟩ := powerOfTen_spec k hk
    have hnat := ofFloat_toFloat hm hfast.1
    split
    next hneg =>
      refine ofFloat_div (fitsMantissa_of_lt hm hfast.1) hfits hnat hpower hv hpos ?_
      simpa [hneg, div_eq_mul_inv] using h
    next hneg =>
      refine ofFloat_mul (fitsMantissa_of_lt hm hfast.1) hfits hnat hpower hv hpos ?_
      simpa [hneg] using h
  next =>
    have he : (if negative = true then Int.negOfNat k else Int.ofNat k) =
        if negative then -(k : Int) else k := by
      split
      · exact Int.negOfNat_eq
      · rfl
    change Value.ofFloat (.ofModel (.pack (UnpackedFloat.ofScientific .binary64 m _))) = _
    simp only [he]
    rw [ofScientific_of_rounds hv hpos h, ofFloat_pack_of_canonical hv hpos]

/-- A natural number whose digits fit the mantissa becomes the double that it is. -/
theorem ofFloat_ofNat (h : FitsMantissa n) :
    Value.ofFloat (Float.ofNat n) = .finite (Finite.ofNat n) := by
  have hround :
      (Finite.ofNat n).Rounds (n * 10 ^ (if false then -((0 : Nat) : Int) else (0 : Nat))) := by
    have hself := (Finite.ofNat n).rounds_self
    rw [h.value] at hself
    simpa using hself
  exact ofFloat_ofScientific h.canonical h.mantissa_pos hround

/-- A number of at most fifty-three bits is the whole part of its double. -/
theorem whole_ofNat (hpos : 0 < n) (hlt : n < 2 ^ 53) : (Finite.ofNat n).whole = n := by
  have hlog : n.log2 ≤ 52 := Nat.lt_succ_iff.1 ((Nat.log2_lt hpos.ne').2 hlt)
  have hmantissa : (Finite.ofNat n).mantissa = n * 2 ^ (52 - n.log2) := by
    apply Nat.div_eq_of_eq_mul_left (Nat.two_pow_pos _)
    rw [mul_assoc, ← pow_add, Nat.sub_add_cancel hlog]
  have hexponent : (Finite.ofNat n).exponent = n.log2 - 52 := rfl
  unfold Finite.whole
  rw [hmantissa, hexponent]
  split
  · next hle =>
    have hzero : 52 - n.log2 = 0 ∧ ((n.log2 : Int) - 52).toNat = 0 := by omega
    rw [hzero.1, hzero.2]
    exact (Nat.mul_one _).trans (Nat.mul_one n)
  · have hshift : (-((n.log2 : Int) - 52)).toNat = 52 - n.log2 := by omega
    rw [hshift]
    exact Nat.mul_div_cancel n (Nat.two_pow_pos _)

/-- Up to the fifty-third power of two every natural number is a double, and read off it again. -/
theorem toInt64_ofInt (h : n ≤ 2 ^ 53) : toInt64 (ofInt n) = n := by
  rcases Nat.eq_zero_or_pos n with rfl | hpos
  · decide +kernel
  rcases Nat.lt_or_eq_of_le h with hlt | rfl
  · have hfits := fitsMantissa_of_lt hpos hlt
    have hofInt : ofInt n = Float.ofNat n := by
      rw [ofInt, if_neg (by omega), Int.natAbs_natCast]
    rw [hofInt, toInt64, toIntWithin, ofFloat_ofNat hfits]
    change clamp int64Min int64Max ((Finite.ofNat n).whole : Int) = n
    rw [whole_ofNat hpos hlt, clamp, int64Min, int64Max]
    omega
  · decide +kernel

/-! ## Signs -/

/-- Rounding a positive mantissa gives no sign. -/
theorem isPositive_roundWithAccuracy (m : Nat) (e : Int) (a : Accuracy) :
    IsPositive (roundWithAccuracy .binary64 .positive m e a) := by
  simp only [roundWithAccuracy]
  split <;> rfl

/-- A decimal number without a sign gives no sign. -/
theorem isPositive_ofScientific (m : Nat) (e : Int) :
    IsPositive (UnpackedFloat.ofScientific .binary64 m e) := by
  unfold UnpackedFloat.ofScientific
  split
  · rfl
  split
  · rfl
  split
  · rfl
  split <;> exact isPositive_roundWithAccuracy ..

/-- A number of at most fifty-three bits is unpacked to zero or to a positive number. -/
theorem unpack_toFloat (h : n < 2 ^ 53) :
    n.toUInt64.toFloat.toModel.unpack = .zero .positive ∨
      ∃ m e hm, n.toUInt64.toFloat.toModel.unpack = .finite .positive m e hm := by
  rcases Nat.eq_zero_or_pos n with rfl | hpos
  · exact .inl rfl
  · exact .inr ⟨_, _, _, unpack_of_ofFloat (ofFloat_toFloat hpos h) rfl
      (fitsMantissa_of_lt hpos h).mantissa_pos⟩

/-- A quotient of what is not negative has no sign. -/
theorem isPositive_div {h : 0 < m} {x : UnpackedFloat}
    (hx : x = .zero .positive ∨ ∃ m e hm, x = .finite .positive m e hm) :
    IsPositive (x.div .binary64 (.finite .positive m e h)) := by
  rcases hx with rfl | ⟨m', e', hm', rfl⟩
  · rfl
  · exact isPositive_roundWithAccuracy ..

/-- A product of what is not negative has no sign. -/
theorem isPositive_mul {h : 0 < m} {x : UnpackedFloat}
    (hx : x = .zero .positive ∨ ∃ m e hm, x = .finite .positive m e hm) :
    IsPositive (x.mul .binary64 (.finite .positive m e h)) := by
  rcases hx with rfl | ⟨m', e', hm', rfl⟩
  · rfl
  · exact isPositive_roundWithAccuracy ..

/-- A decimal is read as a number or an infinity, without a minus sign. -/
theorem ofFloat_ofScientific_positive (m : Nat) (negative : Bool) (k : Nat) :
    Value.ofFloat (Float.ofScientific m negative k) = .infinite false ∨
      ∃ v : Finite, Value.ofFloat (Float.ofScientific m negative k) = .finite v ∧
        v.negative = false := by
  unfold Float.ofScientific
  split
  next hfast =>
    have hk : k < Float.exactlyRepresentablePowersOfTen.size := Nat.lt_succ_of_le hfast.2
    obtain ⟨hfits, hpower⟩ := powerOfTen_spec k hk
    have hy := unpack_of_ofFloat hpower rfl hfits.mantissa_pos
    split
    · refine IsPositive.ofFloat_pack (u := UnpackedFloat.div .binary64 _ _) ?_
      rw [hy]
      exact isPositive_div (unpack_toFloat hfast.1)
    · refine IsPositive.ofFloat_pack (u := UnpackedFloat.mul .binary64 _ _) ?_
      rw [hy]
      exact isPositive_mul (unpack_toFloat hfast.1)
  next => exact (isPositive_ofScientific m _).ofFloat_pack

end LogSearch.Number
