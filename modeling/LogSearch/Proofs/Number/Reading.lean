import LogSearch.Proofs.Number.Digits
import LogSearch.Proofs.Number.Scientific
import LogSearch.Proofs.Number.Shortest

/-!
# Reading what was written

* `ofFloat_ofDecimal`: a decimal is read as the double that it is rounded to.
* `exists_numeral_of_plainText`: the plain text of a finite double is a numeral of the double.
* `readFloat?_plainText`: it is read back as the double.
* `plainText_neg`: a minus in front is the text of the negation.
-/

namespace LogSearch.Number

variable {m : Nat} {e : Int} {v : Finite} {x : Float}

/-! ## Decimals -/

/-- A number is below the power of ten with as many zeros as it has digits. -/
theorem lt_pow_digits (m : Nat) : m < 10 ^ (Nat.toDigits 10 m).length :=
  (Nat.length_toDigits_le_iff (by decide) Nat.length_toDigits_pos).1 le_rfl

/-- A number that is not zero is at least the power of ten with one zero less. -/
theorem pow_digits_le (h : 0 < m) : 10 ^ ((Nat.toDigits 10 m).length - 1) ≤ m := by
  by_contra hlt
  rcases Nat.eq_zero_or_pos ((Nat.toDigits 10 m).length - 1) with hzero | hpos
  · rw [hzero] at hlt
    omega
  · have := (Nat.length_toDigits_le_iff (by decide) hpos).2 (not_le.1 hlt)
    omega

/-- A decimal that is rounded to a double is within the powers of ten that are computed. -/
theorem Finite.Rounds.digits_range (hv : v.Canonical) (hpos : 0 < v.mantissa)
    (h : v.Rounds (m * 10 ^ e)) :
    e + ((Nat.toDigits 10 m).length : Int) ≤ 400 ∧ -400 ≤ e + ((Nat.toDigits 10 m).length : Int) := by
  have hm : 0 < m := by
    by_contra hzero
    obtain rfl : m = 0 := by omega
    simpa using h.pos hpos
  have hlength : 0 < (Nat.toDigits 10 m).length := Nat.length_toDigits_pos
  have hlow := pow_digits_le hm
  have hhigh := lt_pow_digits m
  generalize (Nat.toDigits 10 m).length = l at *
  constructor
  · by_contra hlt
    obtain ⟨k, hk⟩ : ∃ k : Nat, e + (l - 1 : Nat) = k := ⟨(e + (l - 1 : Nat)).toNat, by omega⟩
    have hpow : (2 : ℚ) ^ ((3 * k : Nat) : Int) ≤ m * 10 ^ e := by
      have hlow' : (10 : ℚ) ^ (l - 1) ≤ m := by exact_mod_cast hlow
      calc (2 : ℚ) ^ ((3 * k : Nat) : Int) = (2 ^ 3) ^ k := by rw [zpow_natCast, pow_mul]
        _ ≤ 10 ^ k := by gcongr; norm_num
        _ = 10 ^ (l - 1) * 10 ^ e := by
          rw [← zpow_natCast, ← zpow_natCast, ← zpow_add₀ (by norm_num), ← hk, add_comm]
        _ ≤ m * 10 ^ e := by gcongr
    have := (zpow_lt_zpow_iff_right₀ one_lt_two).1 (hpow.trans_lt (h.lt hv))
    have := hv.exponent_le
    omega
  · by_contra hlt
    have hpow : (m : ℚ) * 10 ^ e < 10 ^ (l + e) := by
      rw [zpow_add₀ (by norm_num), zpow_natCast]
      gcongr
      exact_mod_cast hhigh
    have hten : (10 : ℚ) ^ (l + e) ≤ 2 ^ (-1075 : Int) :=
      ten_zpow_le_two_zpow (by omega) (by omega)
    exact absurd (h.ge hv hpos) (not_le.2 (hpow.trans_le hten))

/-- A decimal is read as the double that it is rounded to. -/
theorem ofFloat_ofDecimal (hv : v.Canonical) (hpos : 0 < v.mantissa) (h : v.Rounds (m * 10 ^ e)) :
    Value.ofFloat (ofDecimal false m e) = .finite ⟨false, v.mantissa, v.exponent⟩ := by
  have hm : m ≠ 0 := by
    rintro rfl
    simpa using h.pos hpos
  obtain ⟨hhigh, hlow⟩ := h.digits_range hv hpos
  unfold ofDecimal
  simp only [hm, if_false, not_lt.2 hhigh, not_lt.2 hlow, Bool.false_eq_true]
  refine ofFloat_ofScientific hv hpos ?_
  convert h using 3
  simp only [decide_eq_true_eq]
  split <;> omega

/-- A decimal without a sign is read as a number or an infinity, without a minus sign. -/
theorem ofFloat_ofDecimal_positive (m : Nat) (e : Int) :
    Value.ofFloat (ofDecimal false m e) = .infinite false ∨
      ∃ v : Finite, Value.ofFloat (ofDecimal false m e) = .finite v ∧ v.negative = false := by
  have hzero : Value.ofFloat 0.0 = .finite ⟨false, 0, -1074⟩ := by decide +kernel
  have hinfinite : Value.ofFloat (1.0 / 0.0) = .infinite false := by decide +kernel
  unfold ofDecimal
  simp only [Bool.false_eq_true, if_false]
  split
  · exact .inr ⟨_, hzero, rfl⟩
  split
  · exact .inl hinfinite
  split
  · exact .inr ⟨_, hzero, rfl⟩
  · exact ofFloat_ofScientific_positive ..

/-! ## Integers -/

/-- The integer part of a whole number is the number. -/
theorem Finite.value_of_isWhole (h : v.isWhole = true) :
    (v.mantissa : ℚ) * 2 ^ v.exponent = v.whole := by
  unfold Finite.isWhole Finite.fraction at h
  unfold Finite.whole
  by_cases he : 0 ≤ v.exponent
  · obtain ⟨k, hk⟩ := Int.eq_ofNat_of_zero_le he
    rw [if_pos he, hk, zpow_natCast]
    simp
  · obtain ⟨k, hk⟩ : ∃ k : Nat, v.exponent = -k := ⟨(-v.exponent).toNat, by omega⟩
    have hk' : (-v.exponent).toNat = k := by omega
    simp only [if_neg he, hk', Nat.pow_eq] at h ⊢
    have hdvd : 2 ^ k ∣ v.mantissa := by
      refine Nat.dvd_of_mod_eq_zero ?_
      by_contra hne
      simp [hne] at h
    obtain ⟨c, hc⟩ := hdvd
    rw [hc, Nat.mul_div_cancel_left c (Nat.two_pow_pos k), hk, zpow_neg, zpow_natCast]
    push_cast
    field_simp

/-- A double that is cut off to one or more has no sign. -/
theorem Finite.negative_of_truncate (h : 1 ≤ v.truncate) : v.negative = false := by
  by_contra hs
  rw [Finite.truncate, if_pos (by simpa using hs)] at h
  omega

/-- A double that is cut off to one or more is not zero. -/
theorem Finite.mantissa_pos_of_truncate (h : 1 ≤ v.truncate) : 0 < v.mantissa := by
  have hs := Finite.negative_of_truncate h
  by_contra hzero
  have hwhole : v.whole = 0 := by
    rw [Finite.whole, show v.mantissa = 0 by omega]
    simp
  simp [Finite.truncate, hs, hwhole] at h

/-- The digits of a whole number are read as the number. -/
theorem ofFloat_ofDecimal_whole (hv : v.Canonical) (hwhole : v.isWhole = true)
    (h : 1 ≤ v.truncate) : Value.ofFloat (ofDecimal false v.whole 0) = .finite v := by
  have hround : v.Rounds ((v.whole : ℚ) * 10 ^ (0 : Int)) := by
    rw [zpow_zero, mul_one, ← Finite.value_of_isWhole hwhole]
    exact v.rounds_self
  rw [ofFloat_ofDecimal hv (Finite.mantissa_pos_of_truncate h) hround,
    ← Finite.negative_of_truncate h]

/-! ## Plain text -/

/-- Infinity is written as a word. -/
theorem plainText_infinite (h : Value.ofFloat x = .infinite false) : plainText x = "inf" := by
  rw [plainText, h]
  rfl

/-- The text of a finite double without sign is a numeral that is read as the double. -/
theorem exists_numeral_of_plainText (hx : Value.ofFloat x = .finite v) (hs : v.negative = false) :
    ∃ whole fraction : List Char, whole ≠ [] ∧ whole.all isDigit = true ∧
      fraction.all isDigit = true ∧ (plainText x).toList = numeral whole fraction ∧
      ofDecimal false (ofDigits (whole ++ fraction)) (-fraction.length) = x := by
  have hv := canonical_of_ofBits hx
  rcases Nat.eq_zero_or_pos v.mantissa with hzero | hpos
  · refine ⟨['0'], [], by simp, by decide, rfl, ?_, eq_of_ofFloat (v := v) ?_ hx⟩
    · rw [plainText, hx]
      simp [hzero, hs, numeral]
    · rw [hv.eq_zero hzero, hs]
      decide +kernel
  · obtain ⟨whole, fraction, hne, hwhole, hfraction, htext, hvalue⟩ :=
      exists_numeral_of_positional (shortest .up v)
    refine ⟨whole, fraction, hne, hwhole, hfraction, ?_, eq_of_ofFloat (v := v) ?_ hx⟩
    · rw [plainText, hx]
      simp [hpos.ne', hs, htext]
    · rw [ofFloat_ofDecimal hv hpos (hvalue ▸ shortest_rounds hv hpos), ← hs]

/-- What is written of a finite double without sign is read as the double. -/
theorem readFloat?_plainText (hx : Value.ofFloat x = .finite v) (hs : v.negative = false) :
    readFloat? (plainText x).toList = some x := by
  obtain ⟨whole, fraction, hne, hwhole, hfraction, htext, hvalue⟩ :=
    exists_numeral_of_plainText hx hs
  rw [htext, readFloat?_numeral hne hwhole hfraction, hvalue]

/-- The text of a double without sign, with a minus before it, is the text of its negation. -/
theorem plainText_neg (h : Value.ofFloat x = .infinite false ∨
    ∃ v : Finite, Value.ofFloat x = .finite v ∧ v.negative = false) :
    plainText (-x) = "-" ++ plainText x := by
  have hneg := ofFloat_neg x
  rcases h with h | ⟨v, h, hs⟩ <;> rw [h] at hneg <;> rw [plainText, plainText, hneg, h]
  · rfl
  · have hshortest : shortest .up { v with negative := true } = shortest .up v := rfl
    simp only [Value.neg, hs, Bool.not_false, if_true, Bool.false_eq_true, if_false, hshortest]
    split <;> simp

end LogSearch.Number
