import LogSearch.Json.Decode
import LogSearch.Proofs.Json.Rereading
import LogSearch.Proofs.Number.Double
import LogSearch.Proofs.Number.Reading

/-!
# Numbers that are read as they were written

The reader rounds the digits of a double to a double and scales that by a power of ten, which rounds
once more. The result is the double that was written if both are exact, and need not be otherwise.

* `ReadsBack`: doubles that are read from their text as themselves.
* `rereadReal_of_not_finite`: no infinity and no NaN is; their text is `null`.
* `readsBack_of_fits`: the doubles are whose digits fit a mantissa and whose power of ten is exact.
* `rereadNumber_integer`: every integer of sixty-four bits is.
-/

namespace LogSearch.Json

open Number (isDigit digitsOf ofDigits Finite Value Decimal)

/-! ## Digits that fit -/

section digits

variable {read digits fraction tail : List Char}

/-- Digits more do not lessen a number. -/
theorem le_ofDigits_append (read digits : List Char) : ofDigits read ≤ ofDigits (read ++ digits) := by
  rw [Number.ofDigits_append]
  exact Nat.le_trans (Nat.le_mul_of_pos_left _ (Nat.pow_pos (by decide))) (Nat.le_add_right _ _)

/-- Where no digits are left to drop, the next character is none. -/
theorem not_isDigit_head {c : Char} {cs : List Char} (h : (c :: cs).dropWhile isDigit = c :: cs) :
    isDigit c = false := by
  by_contra hdigit
  rw [List.dropWhile_cons_of_pos (by simpa using hdigit)] at h
  have hlength := List.length_dropWhile_le isDigit cs
  rw [h, List.length_cons] at hlength
  omega

/-- Where there are no digits, none are dropped. -/
theorem dropDigits_eq (h : tail.dropWhile isDigit = tail) : dropDigits tail = (0, tail) := by
  rw [dropDigits, h]
  cases tail with
  | nil => rfl
  | cons c cs =>
    rw [List.takeWhile_cons_of_neg (by rw [not_isDigit_head h]; decide)]
    rfl

/-- Digits are all taken if what they write is no greater than the greatest count. -/
theorem takeDigits_digits (hdigits : digits.all isDigit = true) (htail : tail.dropWhile isDigit = tail)
    (hfit : ofDigits (read ++ digits) ≤ Number.countMax) (taken : Nat) :
    takeDigits (ofDigits read) taken (digits ++ tail) =
      (ofDigits (read ++ digits), taken + digits.length, tail) := by
  induction digits generalizing read taken with
  | nil =>
    cases tail with
    | nil => simp [takeDigits]
    | cons c cs => simp [takeDigits, not_isDigit_head htail]
  | cons c cs ih =>
    rw [List.all_cons, Bool.and_eq_true] at hdigits
    have hmove : read ++ c :: cs = read ++ [c] ++ cs := by simp
    have hsnoc : 10 * ofDigits read + Number.digitValue c = ofDigits (read ++ [c]) := by
      rw [Number.ofDigits_append]
      simp [ofDigits]
    rw [hmove] at hfit
    have hfits : overflows (ofDigits read) c = false := by
      have hle := Nat.le_trans (le_ofDigits_append (read ++ [c]) cs) hfit
      rw [← hsnoc] at hle
      exact decide_eq_false (Nat.not_lt.2 hle)
    rw [List.cons_append, takeDigits, hdigits.1, hfits]
    simp only [Bool.not_false, Bool.and_self, if_true]
    rw [hsnoc, ih hdigits.2 hfit, hmove, List.length_cons]
    simp only [Nat.add_assoc, Nat.add_comm 1]

/-- A number without its sign, if its digits fit and no zero stands before them. -/
theorem readUnsigned?_digits (hne : digits ≠ []) (hdigits : digits.all isDigit = true)
    (hzero : digits.head? = some '0' → digits = ['0']) (htail : tail.dropWhile isDigit = tail)
    (hfit : ofDigits digits ≤ Number.countMax) (negative : Bool) :
    readUnsigned? negative (digits ++ tail) = readTail? negative (ofDigits digits) 0 tail := by
  obtain ⟨c, cs, rfl⟩ := List.exists_cons_of_ne_nil hne
  rw [List.all_cons, Bool.and_eq_true] at hdigits
  have hlead : leading c (cs ++ tail) = (ofDigits (c :: cs), tail) := by
    unfold leading
    by_cases hc : c = '0'
    · obtain rfl : cs = [] := (List.cons.inj (hzero (by rw [hc, List.head?_cons]))).2
      rw [if_pos hc, hc]
      rfl
    · have hone : ofDigits [c] = Number.digitValue c := by simp [ofDigits]
      have htake : takeDigits (ofDigits [c]) 1 (cs ++ tail) = (ofDigits (c :: cs), 1 + cs.length, tail) :=
        takeDigits_digits hdigits.2 htail hfit 1
      rw [hone] at htake
      rw [if_neg hc, htake]
  rw [List.cons_append, readUnsigned?, hlead]
  simp only [hdigits.1, dropDigits_eq htail]
  simp

/-- A number with its sign. -/
theorem readNumber?_digits (hne : digits ≠ []) (hdigits : digits.all isDigit = true)
    (hzero : digits.head? = some '0' → digits = ['0']) (htail : tail.dropWhile isDigit = tail)
    (hfit : ofDigits digits ≤ Number.countMax) (negative : Bool) :
    readNumber? ((signText negative).toList ++ (digits ++ tail)) =
      readTail? negative (ofDigits digits) 0 tail := by
  rw [← readUnsigned?_digits hne hdigits hzero htail hfit]
  cases negative with
  | true => exact readNumber?_minus (digits ++ tail)
  | false =>
    obtain ⟨c, cs, rfl⟩ := List.exists_cons_of_ne_nil hne
    have hc : c ≠ '-' := by
      rintro rfl
      exact absurd hdigits (by simp [Number.isDigit_eq])
    exact readNumber?_of_ne hc (cs ++ tail)

/-- Digits behind a point, and an exponent that need not be there. -/
theorem readTail?_fraction (hne : fraction ≠ []) (hfraction : fraction.all isDigit = true)
    (htail : tail.dropWhile isDigit = tail) (hfit : ofDigits (digits ++ fraction) ≤ Number.countMax)
    (negative : Bool) : readTail? negative (ofDigits digits) 0 ('.' :: (fraction ++ tail)) =
      (readScale? negative (ofDigits (digits ++ fraction)) (-fraction.length) tail).map
        fun p => (real p.1, p.2) := by
  have hlength : fraction.length ≠ 0 := by simpa using hne
  rw [readTail?_point, readFraction?, takeDigits_digits hfraction htail hfit]
  simp only [dropDigits_eq htail]
  simp [hlength]

/-- An exponent is added to the power of ten of the digits. -/
theorem readScale?_exponent {power : Int} (hpower : power.natAbs < 2147483648) (negative : Bool)
    (n : Nat) (start : Int) :
    readScale? negative n start
        ('e' :: (if power < 0 then '-' else '+') :: digitsOf power.natAbs) =
      (scaled? negative n (start + power)).map (·, []) := by
  have hsplit : Number.splitSign ((if power < 0 then '-' else '+') :: digitsOf power.natAbs) =
      (decide (power < 0), digitsOf power.natAbs) := by
    by_cases hneg : power < 0
    · rw [if_pos hneg, decide_eq_true hneg]
      rfl
    · rw [if_neg hneg, decide_eq_false hneg]
      rfl
  have hall := List.all_eq_true.1 (Number.all_isDigit_digitsOf power.natAbs)
  have htake : (digitsOf power.natAbs).takeWhile isDigit = digitsOf power.natAbs :=
    List.takeWhile_eq_self_iff.2 hall
  have hdrop : (digitsOf power.natAbs).dropWhile isDigit = [] := List.dropWhile_eq_nil_iff.2 hall
  have hexponent : (if power < 0 then start - (power.natAbs : Int) else start + power.natAbs) =
      start + power := by
    split <;> omega
  rw [readScale?, if_pos (.inl rfl), hsplit]
  simp only [htake, hdrop, Number.ofDigits_digitsOf, List.isEmpty_iff, Number.digitsOf_ne_nil,
    if_false, if_neg (Nat.not_le.2 hpower), decide_eq_true_eq, hexponent]

end digits

/-! ## Integers -/

/-- An integer of sixty-four bits is read from its text as itself. -/
theorem rereadNumber_integer {n : Int} (hlow : Number.int64Min ≤ n) (hhigh : n ≤ Number.int64Max) :
    rereadNumber (toString n) = some (integer n) := by
  have htext : (toString n).toList =
      (signText (decide (n < 0))).toList ++ (digitsOf n.natAbs ++ []) := by
    rw [toList_integer, List.append_nil]
    by_cases hneg : n < 0
    · rw [if_pos hneg, decide_eq_true hneg]
      rfl
    · rw [if_neg hneg, decide_eq_false hneg]
      rfl
  have hzero : (digitsOf n.natAbs).head? = some '0' → digitsOf n.natAbs = ['0'] := by
    intro h
    rw [Number.eq_zero_of_head?_digitsOf h]
    rfl
  have hfit : ofDigits (digitsOf n.natAbs) ≤ Number.countMax := by
    rw [Number.ofDigits_digitsOf]
    simp only [Number.int64Min, Number.int64Max, Number.countMax] at *
    omega
  rw [rereadNumber, htext, readNumber?_digits (Number.digitsOf_ne_nil _) (Number.all_isDigit_digitsOf _)
    hzero rfl hfit, Number.ofDigits_digitsOf]
  change (readNumber?.plain _ _ 0 [] _).map Prod.fst = _
  simp only [Number.int64Min] at hlow
  by_cases hneg : n < 0
  · have hnonzero : ¬(n.natAbs = 0 ∨ 9223372036854775808 < n.natAbs) := by omega
    have hvalue : -(n.natAbs : Int) = n := by omega
    rw [decide_eq_true hneg, readNumber?.plain, if_neg (not_not_intro rfl), if_neg (by decide),
      if_neg hnonzero, hvalue]
    rfl
  · have hvalue : (n.natAbs : Int) = n := by omega
    simp [readNumber?.plain, hneg, hvalue]

/-! ## Scaling -/

section scaling

variable {v : Finite} {n k : Nat} {e : Int}

/-- Powers of ten up to the twenty-second are doubles, and are read as such. -/
theorem ofFloat_power (hk : k ≤ 22) :
    Number.FitsMantissa (10 ^ k) ∧
      Value.ofFloat (Number.ofDecimal false 1 k) = .finite (Finite.ofNat (10 ^ k)) := by
  have hfits := (Number.powerOfTen_spec k (Nat.lt_succ_of_le hk)).1
  have hround : (Finite.ofNat (10 ^ k)).Rounds ((1 : Nat) * 10 ^ (k : Int)) := by
    have hself := (Finite.ofNat (10 ^ k)).rounds_self
    rw [hfits.value] at hself
    simpa using hself
  exact ⟨hfits, Number.ofFloat_ofDecimal hfits.canonical hfits.mantissa_pos hround⟩

/-- Digits that fit a mantissa, scaled by a power of ten that does, become the double that the
decimal is rounded to: one operation rounds, and only once. -/
theorem scaled?_of_rounds (hv : v.Canonical) (hpos : 0 < v.mantissa) (hround : v.Rounds (n * 10 ^ e))
    (hn : n < 2 ^ 53) (he : e.natAbs ≤ 22) (negative : Bool) :
    ∃ y, scaled? negative n e = some y ∧
      Value.ofFloat y = .finite ⟨negative, v.mantissa, v.exponent⟩ := by
  have hn0 : 0 < n := by
    by_contra hzero
    obtain rfl : n = 0 := by omega
    simpa using hround.pos hpos
  have hfits := Number.fitsMantissa_of_lt hn0 hn
  have hnat := Number.ofFloat_ofNat hfits
  obtain ⟨hfits', hpower⟩ := ofFloat_power he
  obtain ⟨y, hgo, hy⟩ : ∃ y, scaled?.go 3 (Float.ofNat n) e = some y ∧
      Value.ofFloat y = .finite ⟨false, v.mantissa, v.exponent⟩ := by
    have hsmall : e.natAbs ≤ 308 := Nat.le_trans he (by decide)
    rw [scaled?.go, if_pos hsmall]
    by_cases hsign : 0 ≤ e
    · have hmul := Number.ofFloat_mul hfits hfits' hnat hpower hv hpos (by
        obtain ⟨k, rfl⟩ := Int.eq_ofNat_of_zero_le hsign
        simpa using hround)
      have hfinite : Number.isFinite (Float.ofNat n * Number.ofDecimal false 1 e.natAbs) = true := by
        rw [Number.isFinite, hmul]
      exact ⟨_, by rw [if_pos hsign, if_pos hfinite], hmul⟩
    · have hdiv := Number.ofFloat_div hfits hfits' hnat hpower hv hpos (by
        obtain ⟨k, rfl⟩ : ∃ k : Nat, e = -k := ⟨(-e).toNat, by omega⟩
        simpa [div_eq_mul_inv] using hround)
      exact ⟨_, by rw [if_neg hsign], hdiv⟩
  rw [scaled?]
  simp only [hgo, Option.map_some]
  cases negative with
  | false => exact ⟨y, rfl, hy⟩
  | true =>
    refine ⟨-y, rfl, ?_⟩
    rw [Number.ofFloat_neg, hy]
    rfl

end scaling

/-! ## Decimals -/

section decimals

variable {d : Decimal}

/-- Whether the digits fit a mantissa, with the zeros that are written behind them, and the power of
ten is one that a double holds exactly. -/
def Fits (d : Decimal) : Prop := d.digits * 10 ^ (d.exponent + 1).toNat < 2 ^ 53 ∧ -22 ≤ d.exponent

instance : DecidablePred Fits := fun d =>
  inferInstanceAs (Decidable (d.digits * 10 ^ (d.exponent + 1).toNat < 2 ^ 53 ∧ -22 ≤ d.exponent))

/-- A text that is read by scaling digits that fit, and writes the decimal. -/
def ReadsAs (d : Decimal) (negative : Bool) (cs : List Char) : Prop :=
  ∃ (n : Nat) (e : Int), (n : ℚ) * 10 ^ e = d.digits * 10 ^ d.exponent ∧ n < 2 ^ 53 ∧ e.natAbs ≤ 22 ∧
    readNumber? cs = (scaled? negative n e).map fun x => (real x, [])

/-- Digits that fit are below the greatest mantissa. -/
theorem Fits.digits_lt (h : Fits d) : d.digits < 2 ^ 53 :=
  Nat.lt_of_le_of_lt (Nat.le_mul_of_pos_right _ (Nat.pow_pos (by decide))) h.1

/-- The power of ten of digits that fit is one that a double holds. -/
theorem Fits.exponent_le (h : Fits d) (hpos : 0 < d.digits) : d.exponent ≤ 22 := by
  by_contra hlt
  have hpow : 10 ^ 16 ≤ 10 ^ (d.exponent + 1).toNat := Nat.pow_le_pow_right (by decide) (by omega)
  have hle := Nat.le_trans hpow (Nat.le_mul_of_pos_left _ hpos)
  exact absurd (Nat.lt_of_le_of_lt hle h.1) (by decide)

/-- Digits with a point and without an exponent. -/
theorem readNumber?_point {digits fraction : List Char} (hne : digits ≠ [])
    (hdigits : digits.all isDigit = true) (hzero : digits.head? = some '0' → digits = ['0'])
    (hne' : fraction ≠ []) (hfraction : fraction.all isDigit = true)
    (hfit : ofDigits (digits ++ fraction) ≤ Number.countMax) (negative : Bool) :
    readNumber? ((signText negative).toList ++ (digits ++ '.' :: fraction)) =
      (scaled? negative (ofDigits (digits ++ fraction)) (-fraction.length)).map
        fun x => (real x, []) := by
  have hfit' := Nat.le_trans (le_ofDigits_append digits fraction) hfit
  have htail := @readTail?_fraction digits fraction [] hne' hfraction rfl hfit negative
  rw [List.append_nil] at htail
  rw [readNumber?_digits hne hdigits hzero rfl hfit', htail, readScale?, Option.map_map]
  rfl

/-- A number that is written with its point is read by scaling. -/
theorem readsAs_positional (h : Fits d) (hpos : 0 < d.digits) (negative : Bool) :
    ReadsAs d negative ((signText negative).toList ++ (Number.positional ".0" d).toList) := by
  have hcount : 2 ^ 53 ≤ Number.countMax := by decide
  by_cases he : 0 ≤ d.exponent
  · obtain ⟨k, hk⟩ := Int.eq_ofNat_of_zero_le he
    have hvalue : ofDigits (digitsOf d.digits ++ List.replicate k '0' ++ ['0']) =
        d.digits * 10 ^ (k + 1) := by
      have hlast : ofDigits ['0'] = 0 := rfl
      rw [Number.ofDigits_append, Number.ofDigits_append, Number.ofDigits_digitsOf,
        Number.ofDigits_replicate_zero, List.length_replicate, hlast, List.length_singleton]
      ring
    have hfit : d.digits * 10 ^ (k + 1) < 2 ^ 53 := by
      have hsucc : (d.exponent + 1).toNat = k + 1 := by omega
      rw [← hsucc]
      exact h.1
    have hzero : (digitsOf d.digits ++ List.replicate k '0').head? = some '0' →
        digitsOf d.digits ++ List.replicate k '0' = ['0'] := by
      rw [List.head?_append_of_ne_nil _ (Number.digitsOf_ne_nil _)]
      intro hhead
      exact absurd (Number.eq_zero_of_head?_digitsOf hhead) hpos.ne'
    have htext : (Number.positional ".0" d).toList =
        digitsOf d.digits ++ List.replicate k '0' ++ '.' :: ['0'] := by
      rw [Number.positional_of_nonneg he, hk]
      rfl
    refine ⟨d.digits * 10 ^ (k + 1), -1, ?_, hfit, by decide, ?_⟩
    · rw [hk, zpow_natCast]
      push_cast
      rw [zpow_neg_one, pow_succ]
      field_simp
    · rw [htext, readNumber?_point (by simp [Number.digitsOf_ne_nil]) ?_ hzero (List.cons_ne_nil _ _) rfl,
        hvalue]
      · rfl
      · rw [hvalue]
        omega
      · rw [List.all_append, Number.all_isDigit_digitsOf, Number.all_isDigit_replicate_zero,
          Bool.and_self]
  · obtain ⟨whole, fraction, hne, hwhole, hfraction, htext, hexponent, hdigits, hzero⟩ :=
      Number.exists_fraction_of_positional (not_le.1 he) ".0"
    have hne' : fraction ≠ [] := by
      rintro rfl
      simp at hexponent
      omega
    have hlow := h.2
    refine ⟨d.digits, d.exponent, rfl, h.digits_lt, by omega, ?_⟩
    rw [htext, readNumber?_point hne hwhole hzero hne' hfraction, hdigits, hexponent]
    rw [hdigits]
    exact Nat.le_trans h.digits_lt.le hcount

/-- A number that is written with an exponent is read by scaling. -/
theorem readsAs_scientific (h : Fits d) (hpos : 0 < d.digits) (negative : Bool) :
    ReadsAs d negative ((signText negative).toList ++ (Number.scientific d).toList) := by
  have hcount : 2 ^ 53 ≤ Number.countMax := by decide
  have hlow := h.2
  have hhigh := h.exponent_le hpos
  obtain ⟨first, rest, hdigits⟩ := List.exists_cons_of_ne_nil (Number.digitsOf_ne_nil d.digits)
  have hall := Number.all_isDigit_digitsOf d.digits
  have hvalue := Number.ofDigits_digitsOf d.digits
  rw [hdigits] at hvalue
  rw [hdigits, List.all_cons, Bool.and_eq_true] at hall
  have hfit : ofDigits ([first] ++ rest) ≤ Number.countMax := by
    rw [List.singleton_append, hvalue]
    exact Nat.le_trans h.digits_lt.le hcount
  have hlength : rest.length ≤ 16 := by
    have hle : (Nat.toDigits 10 d.digits).length ≤ 16 :=
      (Nat.length_toDigits_le_iff (by decide) (by decide)).2 (Nat.lt_trans h.digits_lt (by decide))
    rw [show Nat.toDigits 10 d.digits = first :: rest from hdigits, List.length_cons] at hle
    omega
  have hpower : (d.exponent + rest.length).natAbs < 2147483648 := by omega
  refine ⟨d.digits, d.exponent, rfl, h.digits_lt, by omega, ?_⟩
  have hone : [first].all isDigit = true := by simp [hall.1]
  have hzero : [first].head? = some '0' → [first] = ['0'] := by simp
  have hfit' := Nat.le_trans (le_ofDigits_append [first] rest) hfit
  have hend : ∀ cs, ('e' :: cs).dropWhile isDigit = 'e' :: cs := fun _ => rfl
  rw [Number.toList_scientific hdigits]
  by_cases hrest : rest = []
  · subst hrest
    rw [if_pos rfl, List.nil_append, readNumber?_digits (List.cons_ne_nil _ _) hone hzero (hend _) hfit',
      readTail?_of_ne (by decide), if_pos (.inl rfl), readScaled?, hvalue, readScale?_exponent hpower,
      Option.map_map]
    simp [Function.comp_def]
  · rw [if_neg hrest, readNumber?_digits (List.cons_ne_nil _ _) hone hzero (by rfl) hfit',
      List.cons_append, readTail?_fraction hrest hall.2 (hend _) hfit, List.singleton_append, hvalue,
      readScale?_exponent hpower, Option.map_map]
    have hexponent : -(rest.length : Int) + (d.exponent + rest.length) = d.exponent := by omega
    rw [hexponent]
    rfl

/-- Either way of writing is read by scaling. -/
theorem readsAs_magnitude (h : Fits d) (hpos : 0 < d.digits) (negative : Bool) :
    ReadsAs d negative (signText negative ++ magnitudeText d).toList := by
  rw [String.toList_append]
  simp only [magnitudeText]
  split
  · exact readsAs_positional h hpos negative
  · exact readsAs_scientific h hpos negative

end decimals

/-! ## Doubles -/

/-- A double that is read from its text as itself. -/
def ReadsBack (x : Double) : Prop := (rereadReal x.toFloat).bind double? = some x

instance : DecidablePred ReadsBack := fun x =>
  inferInstanceAs (Decidable ((rereadReal x.toFloat).bind double? = some x))

section doubles

variable {x : Double} {v : Finite}

/-- What is written for an infinity or a NaN is no number. -/
theorem rereadReal_of_not_finite {x : Float} (h : Number.isFinite x = false) :
    rereadReal x = some null := by
  have htext : Number.jsonText? x = none := by
    unfold Number.jsonText?
    unfold Number.isFinite at h
    cases hx : Value.ofFloat x with
    | finite v =>
      rw [hx] at h
      cases h
    | infinite => rfl
    | notANumber => rfl
  rw [rereadReal, htext]

/-- A finite double is read back if its text is read as a double with its value. -/
theorem readsBack_of_reread {y : Float} (hx : x.value = .finite v) (hy : Value.ofFloat y = .finite v)
    (h : rereadReal x.toFloat = some (real y)) : ReadsBack x := by
  have hsame : Double.ofFloat y = x := Double.eq_of_value (hy.trans hx.symm) (by simp [hy])
  rw [ReadsBack, h]
  exact congrArg some hsame

/-- Both zeros are read back. -/
theorem readsBack_of_zero (hx : x.value = .finite v) (hzero : v.mantissa = 0) : ReadsBack x := by
  have hv := Number.canonical_of_ofBits hx
  have htext : (signText v.negative ++ "0.0").toList =
      (signText v.negative).toList ++ (['0'] ++ '.' :: ['0']) := String.toList_append ..
  have hread : readNumber? ((signText v.negative).toList ++ (['0'] ++ '.' :: ['0'])) =
      (scaled? v.negative 0 (-1)).map fun x => (real x, []) :=
    readNumber?_point (List.cons_ne_nil '0' []) rfl (fun _ => rfl) (List.cons_ne_nil '0' []) rfl
      (by decide) v.negative
  have hscaled : ∀ negative, (scaled? negative 0 (-1)).map Value.ofFloat =
      some (.finite ⟨negative, 0, -1074⟩) := by
    decide +kernel
  obtain ⟨y, hy, hvalue⟩ := Option.map_eq_some_iff.1 (hscaled v.negative)
  rw [← hv.eq_zero hzero] at hvalue
  refine readsBack_of_reread hx hvalue ?_
  rw [rereadReal, jsonText?_zero ((Double.value_toFloat x).trans hx) hzero]
  simp only [rereadNumber, htext, hread, hy, Option.map_some]

/-- A double is read back if the digits that are written for it fit. -/
theorem readsBack_of_fits (hx : x.value = .finite v) (hpos : 0 < v.mantissa)
    (h : Fits (Number.shortest .even v)) : ReadsBack x := by
  have hv := Number.canonical_of_ofBits hx
  have hround : v.Rounds ((Number.shortest .even v).digits * 10 ^ (Number.shortest .even v).exponent) :=
    Number.shortest_rounds hv hpos
  have hdigits : 0 < (Number.shortest .even v).digits := by
    by_contra hzero
    have hnone : (Number.shortest .even v).digits = 0 := by omega
    rw [hnone] at hround
    simpa using hround.pos hpos
  obtain ⟨n, e, hvalue, hn, he, hread⟩ := readsAs_magnitude h hdigits v.negative
  rw [← hvalue] at hround
  obtain ⟨y, hscaled, hy⟩ := scaled?_of_rounds hv hpos hround hn he v.negative
  refine readsBack_of_reread hx hy ?_
  rw [rereadReal, jsonText?_pos ((Double.value_toFloat x).trans hx) hpos]
  simp only [rereadNumber, hread, hscaled, Option.map_some]

-- The zero behind the point is a seventeenth digit; all of them are rounded before they are scaled.
example : ¬ReadsBack (.ofFloat 9007199254740991.0) := by decide +kernel

end doubles

end LogSearch.Json
