import LogSearch.Proofs.Number.Reading
import LogSearch.Proofs.Query.WellFormed

/-!
# Numbers in canonical texts

* `IsNumber.reads_back`: the text of a finite number is a numeral of that number.
* `IsNumber.not_finite`: a number beyond the doubles is written as a word.
* `positive?_reads_back`: a positive integer is read back from its digits.
* `TimeSpan.ofText?_text`: a duration is read back from its text.
-/

namespace LogSearch

open LogSearch.Query Number

variable {x : Float} {v : Finite} {whole fraction : List Char}

/-! ## Numerals -/

/-- Digits, with a point before the fraction, are a numeral. -/
theorem isNumeral_numeral (hne : whole ≠ []) (hwhole : whole.all isDigit = true)
    (hfraction : fraction.all isDigit = true) : isNumeral (numeral whole fraction) = true := by
  unfold isNumeral
  rw [takeWhile_numeral hwhole, dropWhile_numeral hwhole]
  by_cases h : fraction = [] <;> simp_all

/-- A numeral has the value of its digits. -/
theorem numeralValue_numeral (hne : whole ≠ []) (hwhole : whole.all isDigit = true)
    (hfraction : fraction.all isDigit = true) :
    numeralValue (numeral whole fraction) =
      ofDecimal false (ofDigits (whole ++ fraction)) (-fraction.length) := by
  rw [numeralValue, readFloat?_numeral hne hwhole hfraction, Option.getD_some]

/-- A numeral is digits, with a point before the fraction if there is one. -/
theorem exists_numeral {w : List Char} (h : isNumeral w = true) :
    ∃ whole fraction : List Char, whole ≠ [] ∧ whole.all isDigit = true ∧
      fraction.all isDigit = true ∧ w = numeral whole fraction := by
  have hsplit := List.takeWhile_append_dropWhile (p := isDigit) (l := w)
  have hwhole : (w.takeWhile isDigit).all isDigit = true := List.all_takeWhile
  unfold isNumeral at h
  simp only at h
  split at h
  next hrest =>
    refine ⟨w.takeWhile isDigit, [], by simpa using h, hwhole, rfl, ?_⟩
    rw [numeral, if_pos rfl, ← hrest, hsplit]
  next fraction hrest =>
    simp only [Bool.and_eq_true, Bool.not_eq_true', List.isEmpty_eq_false_iff] at h
    refine ⟨w.takeWhile isDigit, fraction, h.1.1, hwhole, h.2, ?_⟩
    rw [numeral, if_neg h.1.2, ← hrest, hsplit]
  next => simp at h

/-- The value of a number: an infinity or finite, without a minus sign. -/
theorem IsNumber.ofFloat (h : IsNumber x) : Value.ofFloat x = .infinite false ∨
    ∃ v : Finite, Value.ofFloat x = .finite v ∧ v.negative = false := by
  obtain ⟨w, hw, rfl⟩ := h
  obtain ⟨whole, fraction, hne, hwhole, hfraction, rfl⟩ := exists_numeral hw
  rw [numeralValue_numeral hne hwhole hfraction]
  exact ofFloat_ofDecimal_positive ..

/-- The text of a number is plain. -/
theorem IsNumber.isPlain (h : IsNumber x) :
    (plainText x).toList ≠ [] ∧ (plainText x).toList.all isPlain = true := by
  rcases h.ofFloat with hx | ⟨v, hx, hs⟩
  · rw [plainText_infinite hx]
    decide
  · obtain ⟨whole, fraction, hne, hwhole, hfraction, htext, -⟩ := exists_numeral_of_plainText hx hs
    have hdigits : ∀ {cs : List Char}, cs.all isDigit = true → cs.all Query.isPlain = true :=
      fun h => List.all_eq_true.2 fun c hc => isPlain_of_isDigit (List.all_eq_true.1 h c hc)
    rw [htext, numeral]
    refine ⟨by simp [hne], ?_⟩
    rw [List.all_append, hdigits hwhole]
    split
    · rfl
    · rw [List.all_cons, hdigits hfraction]
      rfl

/-- A negative number is written with a minus. -/
theorem IsNumber.plainText_neg (h : IsNumber x) :
    (plainText (-x)).toList = '-' :: (plainText x).toList := by
  rw [Number.plainText_neg h.ofFloat, String.toList_append]
  rfl

/-- The negative of a finite double is finite. -/
theorem isFinite_neg (x : Float) : isFinite (-x) = isFinite x := by
  rw [isFinite, isFinite, ofFloat_neg]
  cases Value.ofFloat x <;> rfl

/-- The text of a finite number is a numeral of that number. -/
theorem IsNumber.reads_back (h : IsNumber x) (hf : isFinite x = true) :
    isNumeral (plainText x).toList = true ∧ numeralValue (plainText x).toList = x := by
  rcases h.ofFloat with hx | ⟨v, hx, hs⟩
  · simp [isFinite, hx] at hf
  · obtain ⟨whole, fraction, hne, hwhole, hfraction, htext, -⟩ := exists_numeral_of_plainText hx hs
    refine ⟨htext ▸ isNumeral_numeral hne hwhole hfraction, ?_⟩
    rw [numeralValue, readFloat?_plainText hx hs, Option.getD_some]

/-- A number beyond the doubles is written as a word. -/
theorem IsNumber.not_finite (h : IsNumber x) (hf : isFinite x = false) : plainText x = "inf" := by
  rcases h.ofFloat with hx | ⟨v, hx, -⟩
  · exact plainText_infinite hx
  · simp [isFinite, hx] at hf

/-! ## Positive integers -/

/-- A positive integer is read back from its digits. -/
theorem positive?_reads_back {n : Nat} (h : Parser.positive? x = some n) :
    isNumeral (toString n).toList = true ∧
      Parser.positive? (numeralValue (toString n).toList) = some n := by
  have hnumeral : (toString n).toList = numeral (digitsOf n) [] := by
    rw [toList_toString]
    simp [numeral]
  have hvalue : numeralValue (toString n).toList = ofDecimal false n 0 := by
    rw [hnumeral, numeralValue_numeral (digitsOf_ne_nil n) (all_isDigit_digitsOf n) rfl,
      List.append_nil, ofDigits_digitsOf]
    rfl
  refine ⟨hnumeral ▸ isNumeral_numeral (digitsOf_ne_nil n) (all_isDigit_digitsOf n) rfl, ?_⟩
  rw [hvalue]
  unfold Parser.positive? at h
  split at h
  next v hx =>
    split at h
    next hwhole =>
      have hv := canonical_of_ofBits hx
      obtain rfl : min v.whole countMax = n := Option.some.inj h
      rcases Nat.lt_or_ge countMax v.whole with hlt | hle
      · rw [Nat.min_eq_right hlt.le]
        decide +kernel
      · rw [Nat.min_eq_left hle, Parser.positive?, ofFloat_ofDecimal_whole hv hwhole.1 hwhole.2]
        simp only [if_pos hwhole, Nat.min_eq_left hle]
    next => simp at h
  next => simp at h

/-! ## Durations -/

/-- Digits are plain. -/
theorem isPlain_toString (n : Nat) : (toString n).toList.all Query.isPlain = true := by
  rw [toList_toString]
  exact List.all_eq_true.2 fun c hc => isPlain_of_isDigit (isDigit_of_mem_digitsOf hc)

/-- A text without blanks is not trimmed. -/
theorem trim_eq_self {cs : List Char} (h : ∀ c ∈ cs, Text.isBlank c = false) : Text.trim cs = cs := by
  have hself : ∀ {l : List Char}, (∀ c ∈ l, Text.isBlank c = false) → l.dropWhile Text.isBlank = l := by
    intro l hl
    cases l with
    | nil => rfl
    | cons c l => simp [hl c (by simp)]
  rw [Text.trim, Text.trimLeft, Text.trimRight, hself h, hself (by simpa using h),
    List.reverse_reverse]

/-- A duration is written as its amount and the letter of its unit. -/
theorem TimeSpan.toList_text (d : TimeSpan) :
    d.text.toList = digitsOf d.amount.toNat ++ [d.unit.letter] := by
  rw [TimeSpan.text, String.toList_append, toList_toString]
  simp

/-- The text of a duration is plain. -/
theorem TimeSpan.isPlain_text (d : TimeSpan) : d.text.toList.all Query.isPlain = true := by
  have hunit : [d.unit.letter].all Query.isPlain = true := by cases d.unit <;> decide
  rw [d.toList_text, ← toList_toString, List.all_append, isPlain_toString, hunit, Bool.and_self]

/-- A duration is read from its text. -/
theorem TimeSpan.ofText?_text {d : TimeSpan} (h : d.amount ≠ 0) : TimeSpan.ofText? d.text = some d := by
  obtain ⟨amount, unit⟩ := d
  have hblank : ∀ c ∈ (TimeSpan.text ⟨amount, unit⟩).toList, Text.isBlank c = false :=
    fun c hc => (isPlain_spec (List.all_eq_true.1 (TimeSpan.isPlain_text _) c hc)).1
  have hunit : SpanUnit.ofLetter? unit.letter = some unit := by cases unit <;> decide
  have hzero : amount.toNat ≠ 0 := fun h0 => h (UInt64.toNat_inj.1 h0)
  have hmax : ¬ Number.countMax < amount.toNat := by
    have := amount.toNat_lt
    simp only [Number.countMax]
    omega
  unfold TimeSpan.ofText?
  rw [trim_eq_self hblank, TimeSpan.toList_text]
  simp [hunit, ofDigits_digitsOf, digitsOf_ne_nil, hzero, hmax]
  exact fun c hc => isDigit_of_mem_digitsOf hc

end LogSearch
