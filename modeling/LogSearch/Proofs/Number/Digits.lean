import LogSearch.Number.Read
import LogSearch.Number.Text
import Mathlib.Algebra.Field.Rat
import Mathlib.Data.List.TakeWhile
import Mathlib.Tactic.FieldSimp

/-!
# Digits

* `ofDigits_digitsOf`: the digits of a natural number are read as that number.
* `readFloat?_numeral`: digits with an optional point are read as a decimal.
* `exists_numeral_of_positional`: the layout without exponent writes such digits.
* `exists_fraction_of_positional`: which digits stand before its point and which behind it.
-/

namespace LogSearch.Number

/-! ## Runs of digits -/

/-- The digits are core's ten. -/
theorem isDigit_eq (c : Char) : isDigit c = c.isDigit := rfl

/-- Digits stand for a number as they do in core. -/
theorem ofDigits_eq (cs : List Char) : ofDigits cs = Nat.ofDigitChars 10 cs 0 := rfl

/-- The digits of a number stand for it. -/
theorem ofDigits_digitsOf (n : Nat) : ofDigits (digitsOf n) = n := Nat.ofDigitChars_ten_toDigits

/-- Digits that follow others shift what those stand for. -/
theorem ofDigits_append (cs ds : List Char) :
    ofDigits (cs ++ ds) = 10 ^ ds.length * ofDigits cs + ofDigits ds := by
  rw [ofDigits_eq, Nat.ofDigitChars_append, Nat.ofDigitChars_eq_ofDigitChars_zero]
  rfl

/-- Zeros stand for zero. -/
theorem ofDigits_replicate_zero (n : Nat) : ofDigits (List.replicate n '0') = 0 := by
  induction n with
  | zero => rfl
  | succ n ih => rw [List.replicate_succ', ofDigits_append, ih]; rfl

/-- Every number has digits. -/
theorem digitsOf_ne_nil (n : Nat) : digitsOf n ≠ [] := Nat.toDigits_ne_nil

/-- The digits of a number are digits. -/
theorem isDigit_of_mem_digitsOf {n : Nat} {c : Char} (h : c ∈ digitsOf n) : isDigit c = true :=
  Nat.isDigit_of_mem_toDigits (by simp) (by simp) h

/-- The digits of a number are digits, all of them. -/
theorem all_isDigit_digitsOf (n : Nat) : (digitsOf n).all isDigit = true :=
  List.all_eq_true.2 fun _ => isDigit_of_mem_digitsOf

/-- Zeros are digits. -/
theorem all_isDigit_replicate_zero (n : Nat) : (List.replicate n '0').all isDigit = true := by
  simp [isDigit_eq]

/-- The digits of a number start with a zero only if it is zero. -/
theorem eq_zero_of_head?_digitsOf {n : Nat} (h : (digitsOf n).head? = some '0') : n = 0 := by
  induction n using Nat.strongRecOn with
  | ind n ih =>
    rcases Nat.lt_or_ge n 10 with hlt | hge
    · rw [digitsOf, Nat.toDigits_of_lt_base hlt, List.head?_cons, Option.some_inj] at h
      have hall : ∀ m < 10, Nat.digitChar m = '0' → m = 0 := by decide
      exact hall n hlt h
    · rw [digitsOf, Nat.toDigits_of_base_le (by decide) hge, List.head?_append,
        List.head?_eq_some_head (Nat.toDigits_ne_nil), Option.some_or,
        ← List.head?_eq_some_head] at h
      have hzero : n / 10 = 0 := ih (n / 10) (by omega) h
      omega

/-- Digits have no case. -/
theorem toLower_of_isDigit {c : Char} (h : isDigit c = true) : c.toLower = c := by
  simp only [isDigit, Bool.and_eq_true, decide_eq_true_eq] at h
  exact dif_neg fun hupper => absurd (UInt32.le_trans hupper.1 h.2) (by decide)

/-- A number is written with its digits. -/
theorem toList_toString (n : Nat) : (toString n).toList = digitsOf n := by
  rw [Nat.toString_eq_ofList_toDigits, String.toList_ofList]
  rfl

/-! ## Numerals -/

/-- Digits, with a point before the fraction if there is one. -/
def numeral (whole fraction : List Char) : List Char :=
  whole ++ if fraction = [] then [] else '.' :: fraction

section Reading

variable {whole fraction : List Char}

/-- The whole part of a numeral is its digits before the point. -/
theorem takeWhile_numeral (hwhole : whole.all isDigit = true) :
    (numeral whole fraction).takeWhile isDigit = whole := by
  rw [numeral, List.takeWhile_append_of_pos (List.all_eq_true.1 hwhole)]
  split <;> simp [isDigit_eq]

/-- Behind the whole part stands the point with the fraction, or nothing. -/
theorem dropWhile_numeral (hwhole : whole.all isDigit = true) :
    (numeral whole fraction).dropWhile isDigit =
      if fraction = [] then [] else '.' :: fraction := by
  rw [numeral, List.dropWhile_append_of_pos (List.all_eq_true.1 hwhole)]
  split <;> simp [isDigit_eq]

/-- A numeral is read as its digits, with the point as many places from their end as the fraction
has. -/
theorem readMagnitude?_numeral (hne : whole ≠ []) (hwhole : whole.all isDigit = true)
    (hfraction : fraction.all isDigit = true) :
    readMagnitude? false (numeral whole fraction) =
      some (ofDecimal false (ofDigits (whole ++ fraction)) (-fraction.length)) := by
  have htake : fraction.takeWhile isDigit = fraction :=
    List.takeWhile_eq_self_iff.2 (List.all_eq_true.1 hfraction)
  have hdrop : fraction.dropWhile isDigit = [] :=
    List.dropWhile_eq_nil_iff.2 (List.all_eq_true.1 hfraction)
  unfold readMagnitude?
  rw [takeWhile_numeral hwhole, dropWhile_numeral hwhole]
  by_cases h : fraction = [] <;> simp [h, hne, htake, hdrop, readExponent?]

/-- Digits with an optional point are read as the decimal that they write. -/
theorem readFloat?_numeral (hne : whole ≠ []) (hwhole : whole.all isDigit = true)
    (hfraction : fraction.all isDigit = true) :
    readFloat? (numeral whole fraction) =
      some (ofDecimal false (ofDigits (whole ++ fraction)) (-fraction.length)) := by
  obtain ⟨c, whole', rfl⟩ := List.exists_cons_of_ne_nil hne
  have hc : isDigit c = true := (List.all_eq_true.1 hwhole) c (List.mem_cons_self ..)
  have hsign : splitSign (numeral (c :: whole') fraction) =
      (false, numeral (c :: whole') fraction) := by
    rw [numeral, List.cons_append]
    unfold splitSign
    split <;> simp_all [isDigit_eq]
  -- A digit begins the text, so that it is none of the names.
  have hname : ∀ name : String, (∃ d, name.toList.head? = some d ∧ d.isDigit = false) →
      String.ofList ((numeral (c :: whole') fraction).map Char.toLower) ≠ name := by
    rintro name ⟨d, hd, hnot⟩ rfl
    rw [String.toList_ofList, numeral, List.cons_append, List.map_cons, List.head?_cons] at hd
    obtain rfl : c.toLower = d := by simpa using hd
    rw [toLower_of_isDigit hc] at hnot
    exact absurd (hc.symm.trans hnot) (by simp)
  unfold readFloat?
  rw [hsign]
  simp only [hname "inf" ⟨'i', rfl, rfl⟩, hname "infinity" ⟨'i', rfl, rfl⟩, hname "nan" ⟨'n', rfl, rfl⟩,
    or_self, if_false]
  exact readMagnitude?_numeral hne hwhole hfraction

end Reading

/-! ## Layouts -/

section layouts

variable {d : Decimal}

/-- A number without a fraction is written as its digits and zeros. -/
theorem positional_of_nonneg (h : 0 ≤ d.exponent) (fraction : String) :
    (positional fraction d).toList =
      digitsOf d.digits ++ List.replicate d.exponent.toNat '0' ++ fraction.toList := by
  simp only [positional, if_pos h, String.toList_append, String.toList_ofList]

/-- Digits without a zero in front that are too few for the point are filled up with zeros. -/
theorem exists_fraction_of_positional (h : d.exponent < 0) (fallback : String) :
    ∃ whole fraction : List Char, whole ≠ [] ∧ whole.all isDigit = true ∧
      fraction.all isDigit = true ∧ (positional fallback d).toList = whole ++ '.' :: fraction ∧
      d.exponent = -fraction.length ∧ ofDigits (whole ++ fraction) = d.digits ∧
      (whole.head? = some '0' → whole = ['0']) := by
  obtain ⟨k, hk⟩ : ∃ k : Nat, d.exponent = -k := ⟨(-d.exponent).toNat, by omega⟩
  have hplaces : 0 < k := by omega
  obtain ⟨padded, hpadded⟩ : ∃ padded, List.replicate (k + 1 - (digitsOf d.digits).length) '0' ++
    digitsOf d.digits = padded := ⟨_, rfl⟩
  have hlength : k + 1 ≤ padded.length := by
    rw [← hpadded, List.length_append, List.length_replicate]
    omega
  have hall : padded.all isDigit = true := by
    rw [← hpadded, List.all_append, all_isDigit_digitsOf, all_isDigit_replicate_zero, Bool.and_self]
  have hlast : (padded.drop (padded.length - k)).length = k := by
    rw [List.length_drop]
    omega
  refine ⟨padded.take (padded.length - k), padded.drop (padded.length - k), ?_, ?_, ?_, ?_, ?_, ?_, ?_⟩
  · rw [← List.length_pos_iff_ne_nil, List.length_take]
    omega
  · exact List.all_eq_true.2 fun c hc => List.all_eq_true.1 hall c (List.mem_of_mem_take hc)
  · exact List.all_eq_true.2 fun c hc => List.all_eq_true.1 hall c (List.mem_of_mem_drop hc)
  · have hk' : (-d.exponent).toNat = k := by omega
    simp only [positional, if_neg (not_le.2 h), hk', hpadded, String.toList_append,
      String.toList_ofList]
    simp
  · rw [hlast, hk]
  · rw [List.take_append_drop, ← hpadded, ofDigits_append, ofDigits_digitsOf, ofDigits_replicate_zero]
    simp
  · intro hhead
    have hpad : padded.length = max (k + 1) (digitsOf d.digits).length := by
      rw [← hpadded, List.length_append, List.length_replicate]
      omega
    rcases Nat.lt_or_ge k (digitsOf d.digits).length with hlong | hshort
    · -- The digits are enough, and a number of several digits starts with no zero.
      have hnone : k + 1 - (digitsOf d.digits).length = 0 := by omega
      rw [hnone, List.replicate_zero, List.nil_append] at hpadded
      rw [List.head?_take, if_neg (by omega), ← hpadded] at hhead
      rw [eq_zero_of_head?_digitsOf hhead] at hlong
      exact absurd hlong (by simp [digitsOf]; omega)
    · -- One zero is all that stands before the point.
      obtain ⟨c, cs, rfl⟩ := List.exists_cons_of_length_pos (by omega : 0 < padded.length)
      have hone : (c :: cs).length - k = 1 := by omega
      rw [hone] at hhead ⊢
      rw [Option.some.inj hhead]
      rfl

/-- The layout with an exponent: a digit, a fraction if there are more digits, and the power of ten
of the first digit. -/
theorem toList_scientific {first : Char} {rest : List Char} (h : digitsOf d.digits = first :: rest) :
    (scientific d).toList = [first] ++ ((if rest = [] then [] else '.' :: rest) ++
      'e' :: (if d.exponent + rest.length < 0 then '-' else '+') ::
        digitsOf (d.exponent + rest.length).natAbs) := by
  simp only [scientific, h, String.toList_append, List.isEmpty_iff, toList_toString]
  split <;> split <;> simp

end layouts

/-- What the layout without exponent writes is a numeral of the decimal. -/
theorem exists_numeral_of_positional (d : Decimal) :
    ∃ whole fraction : List Char, whole ≠ [] ∧ whole.all isDigit = true ∧
      fraction.all isDigit = true ∧ (positional "" d).toList = numeral whole fraction ∧
      (ofDigits (whole ++ fraction) : ℚ) * 10 ^ (-fraction.length : Int) =
        d.digits * 10 ^ d.exponent := by
  by_cases h : 0 ≤ d.exponent
  · obtain ⟨k, hk⟩ := Int.eq_ofNat_of_zero_le h
    refine ⟨digitsOf d.digits ++ List.replicate k '0', [], by simp [digitsOf_ne_nil], ?_, rfl, ?_, ?_⟩
    · rw [List.all_append, all_isDigit_digitsOf, all_isDigit_replicate_zero, Bool.and_self]
    · rw [positional_of_nonneg h, hk]
      simp [numeral]
    · rw [List.append_nil, ofDigits_append, ofDigits_digitsOf, ofDigits_replicate_zero, hk,
        zpow_natCast]
      simp [mul_comm]
  · obtain ⟨whole, fraction, hne, hwhole, hfraction, htext, hexponent, hdigits, -⟩ :=
      exists_fraction_of_positional (not_le.1 h) ""
    have hfraction_ne : fraction ≠ [] := by
      rintro rfl
      simp at hexponent
      omega
    refine ⟨whole, fraction, hne, hwhole, hfraction, ?_, ?_⟩
    · rw [htext, numeral, if_neg hfraction_ne]
    · rw [hdigits, hexponent]

end LogSearch.Number
