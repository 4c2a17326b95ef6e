import LogSearch.Proofs.Number.Double

/-!
# The total order of doubles

Without their sign bits, the words of doubles stand in the order of what they stand for: a greater
exponent outweighs every fraction, the infinity comes after the finite ones, and what is no number
after that, by its fraction. The total order compares these words, with those that have a sign turned
round and below the others.

* `Finite.magnitude`, `Finite.word_lt_word_iff`: the words of finite doubles and their magnitudes.
* `Double.Below`: when one double stands before another one.
* `Double.totalCompare_eq_lt_iff`: the total order puts doubles in this order.
-/

namespace LogSearch.Number

variable {v w : Finite}

/-! ## Words and magnitudes -/

/-- The magnitude of a finite double. -/
def Finite.magnitude (v : Finite) : ℚ := v.mantissa * 2 ^ v.exponent

/-- A lesser word has a lesser magnitude: of two exponents the lesser one belongs to it, since the
mantissas under the greater one are at least as great as those under the lesser one can become. -/
theorem Finite.magnitude_lt (hv : v.Canonical) (hw : w.Canonical) (h : v.word < w.word) :
    v.magnitude < w.magnitude := by
  unfold word at h
  unfold magnitude
  rcases lt_trichotomy v.exponent w.exponent with hlt | heq | hgt
  · have hnormal := hw.normal (by have := hv.exponent_ge; omega)
    have hm : (v.mantissa : ℚ) < 2 * hiddenBit := by exact_mod_cast hv.mantissa_lt
    calc (v.mantissa : ℚ) * 2 ^ v.exponent
        < 2 * hiddenBit * 2 ^ v.exponent := by gcongr
      _ = hiddenBit * 2 ^ (v.exponent + 1) := by rw [zpow_add_one₀ two_ne_zero]; ring
      _ ≤ w.mantissa * 2 ^ w.exponent := by
        gcongr
        · exact one_le_two
        · omega
  · rw [heq] at h ⊢
    have hm : v.mantissa < w.mantissa := by omega
    gcongr
  · have hnormal := hv.normal (by have := hw.exponent_ge; omega)
    have hm := hw.mantissa_lt
    simp only [hiddenBit] at *
    omega

/-- A magnitude is not below zero. -/
theorem Finite.magnitude_nonneg (v : Finite) : 0 ≤ v.magnitude := by
  unfold magnitude
  positivity

/-- The words of finite doubles are below that of the infinity. -/
theorem Finite.Canonical.word_bounds (h : v.Canonical) : 0 ≤ v.word ∧ v.word < 2047 * hiddenBit := by
  obtain ⟨hm, hge, hle, -⟩ := h
  simp only [Finite.word, hiddenBit] at *
  omega

/-- Finite doubles with one word have one magnitude. -/
theorem Finite.eq_of_word (hv : v.Canonical) (hw : w.Canonical) (h : v.word = w.word) :
    v.magnitude = w.magnitude := by
  have hm := hv.mantissa_lt
  have hm' := hw.mantissa_lt
  have hnormal := hv.normal
  have hnormal' := hw.normal
  have hge := hv.exponent_ge
  have hge' := hw.exponent_ge
  unfold word at h
  have hexponent : v.exponent = w.exponent := by
    simp only [hiddenBit] at *
    omega
  have hmantissa : v.mantissa = w.mantissa := by
    rw [hexponent] at h
    omega
  rw [magnitude, magnitude, hexponent, hmantissa]

/-- The words of finite doubles are in the order of their magnitudes. -/
theorem Finite.word_lt_word_iff (hv : v.Canonical) (hw : w.Canonical) :
    v.word < w.word ↔ v.magnitude < w.magnitude := by
  refine ⟨magnitude_lt hv hw, fun h => ?_⟩
  rcases lt_trichotomy v.word w.word with hlt | heq | hgt
  · exact hlt
  · exact absurd h (eq_of_word hv hw heq).not_lt
  · exact absurd h (magnitude_lt hw hv hgt).le.not_gt

/-- The number that a finite double is. -/
def Finite.toRat (v : Finite) : ℚ := if v.negative then -v.magnitude else v.magnitude

end LogSearch.Number

namespace LogSearch.Double

open Number

variable {v w : Finite} {x y : Double}

/-! ## Keys -/

/-- The key of a double is its word without the sign bit, turned round if it has one. -/
theorem orderKey_eq (x : Double) : x.orderKey = if x.isNegative then -x.word - 1 else x.word := by
  have hlt := x.bits.toNat_lt
  rw [word_eq, orderKey, isNegative]
  by_cases hsign : signBit ≤ x.bits.toNat
  · rw [if_pos hsign, decide_eq_true hsign, if_pos rfl]
    simp only [signBit] at *
    omega
  · rw [if_neg hsign, decide_eq_false hsign, if_neg Bool.false_ne_true]
    simp only [signBit] at *
    omega

/-- A word without its sign bit is not below zero. -/
theorem word_nonneg (x : Double) : 0 ≤ x.word := by
  rw [word_eq]
  exact Int.natCast_nonneg _

/-- The sign of the double with the greater word decides: it is on the far side, -/
theorem orderKey_lt_iff_of_lt (h : x.word < y.word) :
    x.orderKey < y.orderKey ↔ y.isNegative = false := by
  have hx := x.word_nonneg
  rw [orderKey_eq, orderKey_eq]
  cases x.isNegative <;> cases y.isNegative <;> simp <;> omega

/-- whichever of the two it is; -/
theorem orderKey_lt_iff_of_gt (h : y.word < x.word) :
    x.orderKey < y.orderKey ↔ x.isNegative = true := by
  have hy := y.word_nonneg
  rw [orderKey_eq, orderKey_eq]
  cases x.isNegative <;> cases y.isNegative <;> simp <;> omega

/-- and of two doubles with one word the one with a sign comes first. -/
theorem orderKey_lt_iff_of_eq (h : x.word = y.word) :
    x.orderKey < y.orderKey ↔ x.isNegative = true ∧ y.isNegative = false := by
  have hx := x.word_nonneg
  rw [orderKey_eq, orderKey_eq]
  cases x.isNegative <;> cases y.isNegative <;> simp <;> omega

/-- The words of finite doubles come before those of the infinities. -/
theorem word_of_finite (h : x.value = .finite v) : x.word < 2047 * hiddenBit := by
  rw [word, h]
  exact (canonical_of_ofBits h).word_bounds.2

/-- The word of an infinity. -/
theorem word_of_infinite {negative : Bool} (h : x.value = .infinite negative) :
    x.word = 2047 * hiddenBit := by
  rw [word, h]

/-- The word of what is no number. -/
theorem word_of_notANumber (h : x.value = .notANumber) :
    x.word = 2047 * hiddenBit + x.fraction := by
  rw [word, h]

/-- What is no number has a word behind that of the infinities. -/
theorem lt_word_of_notANumber (h : x.value = .notANumber) : 2047 * hiddenBit < x.word := by
  have hpos := fraction_pos h
  rw [word_of_notANumber h]
  omega

/-! ## Positions -/

/-- One double stands before another one: numbers in their order and a negative zero before the other
one, the infinities outside of all numbers, and what is no number outside of the infinities, on the
side of its sign and the further out the greater its fraction is. -/
def Below (x y : Double) : Prop :=
  match x.value, y.value with
  | .finite v, .finite w =>
    v.toRat < w.toRat ∨ v.toRat = w.toRat ∧ v.negative = true ∧ w.negative = false
  | .finite _, .infinite negative => negative = false
  | .infinite negative, .finite _ => negative = true
  | .infinite negative, .infinite negative' => negative = true ∧ negative' = false
  | .notANumber, .notANumber =>
    match x.isNegative, y.isNegative with
    | true, false => True
    | false, true => False
    | false, false => x.fraction < y.fraction
    | true, true => y.fraction < x.fraction
  | .notANumber, _ => x.isNegative = true
  | _, .notANumber => y.isNegative = false

/-- Finite doubles are in the order of the numbers, or of the signs of the two zeros. -/
theorem orderKey_lt_iff_of_finite (hx : x.value = .finite v) (hy : y.value = .finite w) :
    x.orderKey < y.orderKey ↔ x.Below y := by
  have hv := canonical_of_ofBits hx
  have hw := canonical_of_ofBits hy
  have hbounds := hv.word_bounds
  have hbounds' := hw.word_bounds
  have hpos := v.magnitude_nonneg
  have hpos' := w.magnitude_nonneg
  rw [orderKey_eq, orderKey_eq, ← negative_of_finite hx, ← negative_of_finite hy, word, word, Below,
    hx, hy]
  simp only [Finite.toRat]
  cases v.negative with
  | false =>
    cases w.negative with
    | false => simp [Finite.word_lt_word_iff hv hw]
    | true =>
      simp only [Bool.false_eq_true, if_false, if_true, false_and, and_false, or_false]
      exact iff_of_false (by omega) (by linarith)
  | true =>
    cases w.negative with
    | false =>
      simp only [Bool.false_eq_true, if_false, if_true, and_true]
      exact iff_of_true (by omega) (lt_or_eq_of_le (by linarith))
    | true => simp [Finite.word_lt_word_iff hw hv]

/-- What is no number is in the order of the fractions, turned round where both have a sign. -/
theorem orderKey_lt_iff_of_notANumber (hx : x.value = .notANumber) (hy : y.value = .notANumber) :
    x.orderKey < y.orderKey ↔ x.Below y := by
  rw [orderKey_eq, orderKey_eq, word_of_notANumber hx, word_of_notANumber hy, Below, hx, hy]
  cases x.isNegative <;> cases y.isNegative <;> simp <;> omega

/-- The total order puts doubles in the order of their positions. -/
theorem totalCompare_eq_lt_iff : x.totalCompare y = .lt ↔ x.Below y := by
  rw [totalCompare, compare_lt_iff_lt]
  cases hx : x.value with
  | finite v =>
    cases hy : y.value with
    | finite w => exact orderKey_lt_iff_of_finite hx hy
    | infinite negative =>
      rw [orderKey_lt_iff_of_lt ((word_of_finite hx).trans_eq (word_of_infinite hy).symm), Below, hx,
        hy, negative_of_infinite hy]
    | notANumber =>
      rw [orderKey_lt_iff_of_lt ((word_of_finite hx).trans (lt_word_of_notANumber hy)), Below, hx, hy]
  | infinite negative =>
    cases hy : y.value with
    | finite w =>
      rw [orderKey_lt_iff_of_gt ((word_of_finite hy).trans_eq (word_of_infinite hx).symm), Below, hx,
        hy, negative_of_infinite hx]
    | infinite negative' =>
      rw [orderKey_lt_iff_of_eq ((word_of_infinite hx).trans (word_of_infinite hy).symm), Below, hx,
        hy, negative_of_infinite hx, negative_of_infinite hy]
    | notANumber =>
      rw [orderKey_lt_iff_of_lt ((word_of_infinite hx).trans_lt (lt_word_of_notANumber hy)), Below, hx,
        hy]
  | notANumber =>
    cases hy : y.value with
    | finite w =>
      rw [orderKey_lt_iff_of_gt ((word_of_finite hy).trans (lt_word_of_notANumber hx)), Below, hx, hy]
    | infinite negative =>
      rw [orderKey_lt_iff_of_gt ((word_of_infinite hy).trans_lt (lt_word_of_notANumber hx)), Below, hx,
        hy]
    | notANumber => exact orderKey_lt_iff_of_notANumber hx hy

end LogSearch.Double
