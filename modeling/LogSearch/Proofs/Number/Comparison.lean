import LogSearch.Proofs.Number.TotalOrder

/-!
# Comparing doubles

Doubles compare as their places on the number line do, which has the infinities at its ends. The two
zeros have one place there, so they compare as equal, and what is no number has none: it is neither
below nor above nor equal to anything, itself included.

* `Value.place?`, `place?`: the place of a value on the number line.
* `lt_iff`, `le_iff`, `beq_iff`: comparisons of doubles are comparisons of places.
* `beq_zero_iff`: what compares as equal to zero is one of the two zeros.
* `isNaN_iff`: what is no number is what has no place.
-/

namespace LogSearch.Number

open Float.Model (UnpackedFloat)
open Float.Model.UnpackedFloat (Sign)

variable {v w : Finite} {x y : Float}

/-- The place of a value on the number line. -/
noncomputable def Value.place? : Value → Option EReal
  | .finite v => some (v.toRat : ℝ)
  | .infinite true => some ⊥
  | .infinite false => some ⊤
  | .notANumber => none

/-- The place of a double on the number line. -/
noncomputable def place? (x : Float) : Option EReal := (Value.ofFloat x).place?

/-! ## Magnitudes -/

/-- Rationals compare among the extended reals as they do among themselves. -/
@[simp] theorem cmp_coe (q r : ℚ) : cmp ((q : ℝ) : EReal) ((r : ℝ) : EReal) = cmp q r := by
  rw [EReal.coe_strictMono.cmp_map_eq, Rat.cast_strictMono.cmp_map_eq]

/-- A double without a mantissa is zero. -/
@[simp] theorem Finite.toRat_zero (negative : Bool) (e : Int) :
    (⟨negative, 0, e⟩ : Finite).toRat = 0 := by
  simp [toRat, magnitude]

/-- A double with a mantissa and no sign is positive. -/
@[simp] theorem Finite.toRat_pos {m : Nat} (h : 0 < m) (e : Int) :
    0 < (⟨false, m, e⟩ : Finite).toRat := by
  simp only [toRat, magnitude, Bool.false_eq_true, if_false]
  positivity

/-- A double with a mantissa and a sign is negative. -/
@[simp] theorem Finite.toRat_neg {m : Nat} (h : 0 < m) (e : Int) :
    (⟨true, m, e⟩ : Finite).toRat < 0 :=
  neg_lt_zero.2 (toRat_pos h e)

/-- Magnitudes compare as the exponents do, and as the mantissas where these are the same. -/
theorem Finite.compare_then (hv : v.Canonical) (hw : w.Canonical) :
    (compare v.exponent w.exponent).then (compare v.mantissa w.mantissa) =
      cmp v.magnitude w.magnitude := by
  have hm := hv.mantissa_lt
  have hm' := hw.mantissa_lt
  have hlt := word_lt_word_iff hv hw
  have hgt := word_lt_word_iff hw hv
  have hwords : (compare v.exponent w.exponent).then (compare v.mantissa w.mantissa) =
      cmp v.word w.word := by
    unfold word
    rcases lt_trichotomy v.exponent w.exponent with he | he | he
    · have hnormal := hw.normal (by have := hv.exponent_ge; omega)
      rw [compare_lt_iff_lt.2 he, Ordering.lt_then, eq_comm, cmp_eq_lt_iff]
      simp only [hiddenBit] at *
      omega
    · rw [compare_eq_iff_eq.2 he, Ordering.eq_then, he, cmp_add_left,
        (Nat.strictMono_cast (α := Int)).cmp_map_eq, cmp_eq_compare]
    · have hnormal := hv.normal (by have := hw.exponent_ge; omega)
      rw [compare_gt_iff_gt.2 he, Ordering.gt_then, eq_comm, cmp_eq_gt_iff]
      simp only [hiddenBit] at *
      omega
  rw [hwords]
  rcases lt_trichotomy v.word w.word with h | h | h
  · rw [(cmp_eq_lt_iff _ _).2 h, (cmp_eq_lt_iff _ _).2 (hlt.1 h)]
  · rw [(cmp_eq_eq_iff _ _).2 h, (cmp_eq_eq_iff _ _).2 (eq_of_word hv hw h)]
  · rw [(cmp_eq_gt_iff _ _).2 h, (cmp_eq_gt_iff _ _).2 (hgt.1 h)]

/-! ## Comparisons -/

/-- Doubles that are finite and not zero compare as their numbers do. -/
theorem compare_finite {s s' : Sign} {m m' : Nat} {e e' : Int} {h : 0 < m} {h' : 0 < m'}
    (hc : Finite.Canonical ⟨isNegative s, m, e⟩) (hc' : Finite.Canonical ⟨isNegative s', m', e'⟩) :
    UnpackedFloat.compare (.finite s m e h) (.finite s' m' e' h') =
      some (cmp (Finite.toRat ⟨isNegative s, m, e⟩) (Finite.toRat ⟨isNegative s', m', e'⟩)) := by
  have hthen := Finite.compare_then hc hc'
  cases s with
  | positive =>
    cases s' with
    | positive => exact congrArg some hthen
    | negative =>
      exact congrArg some
        ((cmp_eq_gt_iff _ _).2 ((Finite.toRat_neg h' e').trans (Finite.toRat_pos h e))).symm
  | negative =>
    cases s' with
    | positive =>
      exact congrArg some
        ((cmp_eq_lt_iff _ _).2 ((Finite.toRat_neg h e).trans (Finite.toRat_pos h' e'))).symm
    | negative =>
      apply congrArg some
      calc ((compare e e').then (compare m m')).swap
          = cmp (Finite.magnitude ⟨true, m', e'⟩) (Finite.magnitude ⟨true, m, e⟩) := by
            rw [← cmp_swap]
            exact congrArg Ordering.swap hthen
        _ = cmp (-Finite.magnitude ⟨true, m, e⟩) (-Finite.magnitude ⟨true, m', e'⟩) :=
            ((strictMono_id (α := ℚ)).neg.cmp_map_eq _ _).symm

/-- Unpacked doubles compare as their places do. -/
theorem cmp_places {u u' : UnpackedFloat} (hu : ∀ v, Value.ofUnpacked u = .finite v → v.Canonical)
    (hu' : ∀ v, Value.ofUnpacked u' = .finite v → v.Canonical) :
    ((Value.ofUnpacked u).place?.bind fun a => (Value.ofUnpacked u').place?.map (cmp a)) =
      u.compare u' := by
  cases u with
  | notANumber => rfl
  | infinity s =>
    cases s <;> rcases u' with (_ | _) | _ | _ | ⟨_ | _, _, _, _⟩ <;> rfl
  | zero s =>
    rcases u' with (_ | _) | _ | _ | ⟨_ | _, m, e, h⟩ <;>
      simp [UnpackedFloat.compare, Value.ofUnpacked, Value.place?, isNegative, *]
  | finite s m e h =>
    cases u' with
    | finite s' m' e' h' =>
      rw [compare_finite (hu _ rfl) (hu' _ rfl), ← cmp_coe]
      rfl
    | notANumber => rfl
    | infinity s' =>
      cases s' <;> simp [UnpackedFloat.compare, Value.ofUnpacked, Value.place?, isNegative]
    | zero s' =>
      cases s <;> simp [UnpackedFloat.compare, Value.ofUnpacked, Value.place?, isNegative, h]

/-- Doubles compare as their places do; without a place there is no comparison. -/
theorem compare_unpack (x y : Float) : x.toModel.unpack.compare y.toModel.unpack =
    (place? x).bind fun a => (place? y).map (cmp a) := by
  have hcanonical (z : Float) (v : Finite) (h : Value.ofUnpacked z.toModel.unpack = .finite v) :
      v.Canonical := canonical_of_ofBits ((Value.ofFloat_eq z).trans h)
  rw [← cmp_places (hcanonical x) (hcanonical y), place?, place?, Value.ofFloat_eq, Value.ofFloat_eq]

/-- Whether the places of two doubles compare in some way. -/
theorem compare_unpack_eq_some_iff {o : Ordering} :
    x.toModel.unpack.compare y.toModel.unpack = some o ↔
      ∃ a b, place? x = some a ∧ place? y = some b ∧ cmp a b = o := by
  rw [compare_unpack]
  simp only [Option.bind_eq_some_iff, Option.map_eq_some_iff]
  constructor
  · rintro ⟨a, ha, b, hb, h⟩
    exact ⟨a, b, ha, hb, h⟩
  · rintro ⟨a, b, ha, hb, h⟩
    exact ⟨a, ha, b, hb, h⟩

/-- One double is less than another if both have places, in that order. -/
theorem lt_iff : x < y ↔ ∃ a b, place? x = some a ∧ place? y = some b ∧ a < b := by
  have hmodel : x < y ↔ (x.toModel.unpack.compare y.toModel.unpack == some .lt) = true :=
    decide_eq_true_iff
  rw [hmodel, beq_iff_eq, compare_unpack_eq_some_iff]
  simp only [cmp_eq_lt_iff]

/-- One double is at most another if both have places, in that order or the same. -/
theorem le_iff : x ≤ y ↔ ∃ a b, place? x = some a ∧ place? y = some b ∧ a ≤ b := by
  have hmodel : x ≤ y ↔ (x.toModel.unpack.compare y.toModel.unpack).any (·.isLE) = true :=
    decide_eq_true_iff
  rw [hmodel, compare_unpack]
  cases place? x with
  | none => simp
  | some a =>
    cases place? y with
    | none => simp
    | some b => simp [Ordering.isLE_iff_ne_gt]

/-- Doubles are equal if both have the same place. -/
theorem beq_iff : (x == y) = true ↔ ∃ a, place? x = some a ∧ place? y = some a := by
  have hmodel : (x == y) = true ↔
      (x.toModel.unpack.compare y.toModel.unpack == some .eq) = true := Iff.rfl
  rw [hmodel, beq_iff_eq, compare_unpack_eq_some_iff]
  simp only [cmp_eq_eq_iff]
  constructor
  · rintro ⟨a, b, ha, hb, rfl⟩
    exact ⟨a, ha, hb⟩
  · rintro ⟨a, ha, hb⟩
    exact ⟨a, a, ha, hb, rfl⟩

/-- Just the two zeros compare as equal to zero. -/
theorem beq_zero_iff : (x == 0.0) = true ↔ x = 0.0 ∨ x = -0.0 := by
  constructor
  · intro h
    obtain ⟨a, hx, hzero⟩ := beq_iff.1 h
    have hplace : place? 0.0 = some (((Finite.toRat ⟨false, 0, -1074⟩ : ℚ) : ℝ) : EReal) := rfl
    rw [hplace, Finite.toRat_zero] at hzero
    rw [← hzero] at hx
    obtain ⟨v, hv⟩ : ∃ v, Value.ofFloat x = .finite v := by
      unfold place? at hx
      rcases hvalue : Value.ofFloat x with v | negative | _
      · exact ⟨v, rfl⟩
      · rw [hvalue] at hx
        cases negative <;> exact absurd (Option.some.inj hx) (by simp)
      · rw [hvalue] at hx
        cases hx
    have hrat : v.toRat = 0 := by
      rw [place?, hv] at hx
      exact_mod_cast Option.some.inj hx
    -- A mantissa above zero makes the number positive or negative.
    have hmantissa : v.mantissa = 0 := by
      by_contra hne
      obtain ⟨negative, mantissa, exponent⟩ := v
      cases negative with
      | false => exact (Finite.toRat_pos (Nat.pos_of_ne_zero hne) exponent).ne' hrat
      | true => exact (Finite.toRat_neg (Nat.pos_of_ne_zero hne) exponent).ne hrat
    have hcanonical : v.Canonical := canonical_of_ofBits hv
    have hsigned := hv.trans (congrArg Value.finite (hcanonical.eq_zero hmantissa))
    generalize v.negative = negative at hsigned
    cases negative with
    | false => exact .inl (eq_of_ofFloat hsigned rfl)
    | true => exact .inr (eq_of_ofFloat hsigned rfl)
  · rintro (rfl | rfl) <;> rfl

/-- What is no number has no place. -/
theorem isNaN_iff : x.isNaN = true ↔ place? x = none := by
  rw [Float.isNaN, Float.Model.isNaN, place?, Value.ofFloat_eq]
  cases x.toModel.unpack with
  | notANumber => exact iff_of_true rfl rfl
  | infinity s => cases s <;> exact iff_of_false nofun nofun
  | zero s => exact iff_of_false nofun nofun
  | finite s m e h => exact iff_of_false nofun nofun

/-- What is no number is neither below nor above anything. -/
theorem not_lt_of_isNaN (h : x.isNaN = true ∨ y.isNaN = true) : ¬x < y := by
  intro hlt
  obtain ⟨a, b, hx, hy, -⟩ := lt_iff.1 hlt
  rw [isNaN_iff, isNaN_iff, hx, hy] at h
  rcases h with h | h <;> cases h

end LogSearch.Number
