import LogSearch.Proofs.Json.Compact
import LogSearch.Proofs.Number.Digits

/-!
# Numbers inside a text

The reader of numbers looks no further than the number goes, so a number is read alike wherever it
stands. Of the texts that are written for numbers it leaves nothing.

* `EndsNumber`: what may follow a number.
* `readNumber?_append`: a number is read as if nothing followed it.
* `IsWritten`: the form of the texts that are written for numbers, doubles and integers alike.
* `IsWritten.readNumber?_append`: such a text is read to its end, whatever ends it.
-/

namespace LogSearch.Json

open Number (isDigit digitValue isDigit_eq)

/-! ## What follows a number -/

/-- Whether a number can go on with a character. -/
def inNumber (c : Char) : Bool :=
  isDigit c || c = '.' || c = 'e' || c = 'E' || c = '+' || c = '-'

/-- What may follow a number: the end, or a character that no number goes on with. -/
def EndsNumber (rest : List Char) : Prop := ∀ c ∈ rest.head?, inNumber c = false

/-- The end ends a number. -/
theorem endsNumber_nil : EndsNumber [] := fun _ hc => nomatch hc

/-- A character that no number goes on with ends a number. -/
theorem endsNumber_cons {c : Char} (h : inNumber c = false) (rest : List Char) :
    EndsNumber (c :: rest) := by
  intro d hd
  rw [List.head?_cons, Option.mem_some_iff] at hd
  exact hd ▸ h

namespace EndsNumber

variable {rest : List Char}

/-- The first character that follows is none of those that a number goes on with. -/
theorem cases (h : EndsNumber rest) : rest = [] ∨ ∃ c more, rest = c :: more ∧
    isDigit c = false ∧ c ≠ '.' ∧ c ≠ 'e' ∧ c ≠ 'E' ∧ c ≠ '+' ∧ c ≠ '-' := by
  cases rest with
  | nil => exact .inl rfl
  | cons c more =>
    have hc := h c rfl
    simp only [inNumber, Bool.or_eq_false_iff, decide_eq_false_iff_not] at hc
    exact .inr ⟨c, more, rfl, by tauto⟩

/-- The digits at the start are the same before whatever ends a number. -/
theorem takeWhile_append (h : EndsNumber rest) (cs : List Char) :
    (cs ++ rest).takeWhile isDigit = cs.takeWhile isDigit := by
  induction cs with
  | nil =>
    rcases h.cases with rfl | ⟨c, more, rfl, hc, -⟩
    · rfl
    · exact List.takeWhile_cons_of_neg (by rw [hc]; exact Bool.false_ne_true)
  | cons c cs ih =>
    rw [List.cons_append, List.takeWhile_cons, List.takeWhile_cons, ih]

/-- What is behind the digits goes on with whatever ends the number. -/
theorem dropWhile_append (h : EndsNumber rest) (cs : List Char) :
    (cs ++ rest).dropWhile isDigit = cs.dropWhile isDigit ++ rest := by
  induction cs with
  | nil =>
    rcases h.cases with rfl | ⟨c, more, rfl, hc, -⟩
    · rfl
    · exact List.dropWhile_cons_of_neg (by rw [hc]; exact Bool.false_ne_true)
  | cons c cs ih =>
    rw [List.cons_append, List.dropWhile_cons, List.dropWhile_cons, ih]
    split <;> rfl

/-- Dropping digits stops where the number ends. -/
theorem dropDigits_append (h : EndsNumber rest) (cs : List Char) :
    dropDigits (cs ++ rest) = ((dropDigits cs).1, (dropDigits cs).2 ++ rest) := by
  rw [dropDigits, h.takeWhile_append, h.dropWhile_append]
  rfl

/-- Taking digits stops where the number ends. -/
theorem takeDigits_append (h : EndsNumber rest) (n taken : Nat) (cs : List Char) :
    takeDigits n taken (cs ++ rest) =
      ((takeDigits n taken cs).1, (takeDigits n taken cs).2.1, (takeDigits n taken cs).2.2 ++ rest) := by
  induction cs generalizing n taken with
  | nil =>
    rcases h.cases with rfl | ⟨c, more, rfl, hc, -⟩
    · rfl
    · simp [takeDigits, hc]
  | cons c cs ih =>
    rw [List.cons_append, takeDigits, takeDigits]
    split
    · exact ih _ _
    · rfl

/-- The sign of a number is read before whatever ends it. -/
theorem splitSign_append (h : EndsNumber rest) (cs : List Char) :
    Number.splitSign (cs ++ rest) = ((Number.splitSign cs).1, (Number.splitSign cs).2 ++ rest) := by
  cases cs with
  | nil =>
    rcases h.cases with rfl | ⟨c, more, rfl, -, -, -, -, hplus, hminus⟩
    · rfl
    · rw [List.nil_append]
      unfold Number.splitSign
      split <;> simp_all
  | cons c cs =>
    rw [List.cons_append]
    unfold Number.splitSign
    split <;> simp_all

/-- An exponent is read the same before whatever ends the number. -/
theorem readScale?_append (h : EndsNumber rest) (negative : Bool) (digits : Nat) (start : Int)
    (cs : List Char) : readScale? negative digits start (cs ++ rest) =
      (readScale? negative digits start cs).map fun p => (p.1, p.2 ++ rest) := by
  cases cs with
  | nil =>
    rcases h.cases with rfl | ⟨c, more, rfl, -, -, he, hE, -⟩
    · simp [readScale?, Function.comp_def]
    · simp [readScale?, he, hE, Function.comp_def]
  | cons c cs =>
    rw [List.cons_append, readScale?, readScale?]
    split
    · simp only [h.splitSign_append, h.takeWhile_append, h.dropWhile_append]
      split
      · rfl
      split
      · split <;> rfl
      · rw [Option.map_map]
        rfl
    · rw [Option.map_map]
      rfl

/-- A fraction is read the same before whatever ends the number. -/
theorem readFraction?_append (h : EndsNumber rest) (negative : Bool) (digits : Nat) (start : Int)
    (cs : List Char) : readFraction? negative digits start (cs ++ rest) =
      (readFraction? negative digits start cs).map fun p => (p.1, p.2 ++ rest) := by
  simp only [readFraction?, h.takeDigits_append, h.dropDigits_append, h.readScale?_append]
  split <;> rfl

end EndsNumber

/-! ## The parts of a number -/

/-- Digits with an exponent, or without one. -/
def readScaled? (negative : Bool) (digits dropped : Nat) (after : List Char) :
    Option (Json × List Char) :=
  (readScale? negative digits dropped after).map fun (x, rest) => (real x, rest)

/-- What follows the digits of a number: a fraction, an exponent, or nothing. -/
def readTail? (negative : Bool) (digits dropped : Nat) (after : List Char) :
    Option (Json × List Char) :=
  match after with
  | '.' :: fraction =>
    (readFraction? negative digits dropped fraction).map fun (x, rest) => (real x, rest)
  | _ =>
    let scaled := readScaled? negative digits dropped after
    match after with
    | e :: _ =>
      if e = 'e' ∨ e = 'E' then scaled else readNumber?.plain negative digits dropped after scaled
    | [] => readNumber?.plain negative digits dropped after scaled

/-- Behind a point stands a fraction. -/
theorem readTail?_point (negative : Bool) (digits dropped : Nat) (fraction : List Char) :
    readTail? negative digits dropped ('.' :: fraction) =
      (readFraction? negative digits dropped fraction).map fun p => (real p.1, p.2) := rfl

/-- Without a point there is an exponent, or nothing. -/
theorem readTail?_of_ne {c : Char} (h : c ≠ '.') (negative : Bool) (digits dropped : Nat)
    (cs : List Char) : readTail? negative digits dropped (c :: cs) =
      if c = 'e' ∨ c = 'E' then readScaled? negative digits dropped (c :: cs)
      else readNumber?.plain negative digits dropped (c :: cs)
        (readScaled? negative digits dropped (c :: cs)) := by
  unfold readTail?
  split
  next heq => exact absurd (List.cons.inj heq).1 h
  next => rfl

/-- The leading digits of a number that starts with a digit, and the text behind those that count. -/
def leading (c : Char) (rest : List Char) : Nat × List Char :=
  if c = '0' then (0, rest)
  else ((takeDigits (digitValue c) 1 rest).1, (takeDigits (digitValue c) 1 rest).2.2)

/-- A number without its sign. -/
def readUnsigned? (negative : Bool) : List Char → Option (Json × List Char)
  | [] => none
  | c :: rest =>
    if !isDigit c then none
    else if c = '0' ∧ (dropDigits (leading c rest).2).1 ≠ 0 then none
    else
      readTail? negative (leading c rest).1 (dropDigits (leading c rest).2).1
        (dropDigits (leading c rest).2).2

/-- A number may have a minus sign before it. -/
theorem readNumber?_minus (cs : List Char) : readNumber? ('-' :: cs) = readUnsigned? true cs := by
  cases cs <;> rfl

/-- Without a minus the number is read as it stands. -/
theorem readNumber?_of_ne {c : Char} (h : c ≠ '-') (cs : List Char) :
    readNumber? (c :: cs) = readUnsigned? false (c :: cs) := by
  unfold readNumber?
  split
  next negative unsigned heq =>
    trans readUnsigned? negative unsigned
    · cases unsigned <;> rfl
    · split at heq
      next hminus => exact absurd (List.cons.inj hminus).1 h
      next =>
        cases heq
        rfl

section append

variable {rest : List Char}

/-- An integer, or a double for want of one, is read the same before whatever ends it. -/
theorem plain_append (negative : Bool) (digits dropped : Nat) (cs : List Char)
    (scaled : Option (Json × List Char)) :
    readNumber?.plain negative digits dropped (cs ++ rest) (scaled.map fun p => (p.1, p.2 ++ rest)) =
      (readNumber?.plain negative digits dropped cs scaled).map fun p => (p.1, p.2 ++ rest) := by
  unfold readNumber?.plain
  repeat' split
  all_goals rfl

/-- What follows the digits is read the same before whatever ends the number. -/
theorem readTail?_append (h : EndsNumber rest) (negative : Bool) (digits dropped : Nat)
    (cs : List Char) : readTail? negative digits dropped (cs ++ rest) =
      (readTail? negative digits dropped cs).map fun p => (p.1, p.2 ++ rest) := by
  have hscaled : readScaled? negative digits dropped (cs ++ rest) =
      (readScaled? negative digits dropped cs).map fun p => (p.1, p.2 ++ rest) := by
    rw [readScaled?, readScaled?, h.readScale?_append, Option.map_map, Option.map_map]
    rfl
  cases cs with
  | nil =>
    rcases h.cases with rfl | ⟨c, more, rfl, -, hpoint, he, hE, -⟩
    · simp
    · rw [List.nil_append] at hscaled ⊢
      rw [readTail?_of_ne hpoint, if_neg (not_or_intro he hE), hscaled]
      exact plain_append negative digits dropped [] _
  | cons c cs =>
    rw [List.cons_append] at hscaled ⊢
    by_cases hpoint : c = '.'
    · subst hpoint
      rw [readTail?_point, readTail?_point, h.readFraction?_append, Option.map_map, Option.map_map]
      rfl
    · rw [readTail?_of_ne hpoint, readTail?_of_ne hpoint, hscaled]
      split
      · rfl
      · exact plain_append negative digits dropped (c :: cs) _

/-- The leading digits are the same before whatever ends the number. -/
theorem leading_append (h : EndsNumber rest) (c : Char) (cs : List Char) :
    leading c (cs ++ rest) = ((leading c cs).1, (leading c cs).2 ++ rest) := by
  unfold leading
  rw [h.takeDigits_append]
  split <;> rfl

/-- A number without its sign is read the same before whatever ends it. -/
theorem readUnsigned?_append (h : EndsNumber rest) (negative : Bool) (cs : List Char) :
    readUnsigned? negative (cs ++ rest) =
      (readUnsigned? negative cs).map fun p => (p.1, p.2 ++ rest) := by
  cases cs with
  | nil =>
    rcases h.cases with rfl | ⟨c, more, rfl, hc, -⟩
    · rfl
    · simp [readUnsigned?, hc]
  | cons c cs =>
    rw [List.cons_append, readUnsigned?, readUnsigned?, leading_append h, h.dropDigits_append,
      readTail?_append h]
    repeat' split
    all_goals rfl

/-- A number is read as if nothing followed it. -/
theorem readNumber?_append (h : EndsNumber rest) (cs : List Char) :
    readNumber? (cs ++ rest) = (readNumber? cs).map fun p => (p.1, p.2 ++ rest) := by
  cases cs with
  | nil =>
    rcases h.cases with rfl | ⟨c, more, rfl, hc, -, -, -, -, hminus⟩
    · rfl
    · rw [List.nil_append, readNumber?_of_ne hminus]
      simp [readUnsigned?, hc]
      rfl
  | cons c cs =>
    by_cases hminus : c = '-'
    · rw [hminus, List.cons_append, readNumber?_minus, readNumber?_minus, readUnsigned?_append h]
    · rw [List.cons_append, readNumber?_of_ne hminus, readNumber?_of_ne hminus, ← List.cons_append,
        readUnsigned?_append h]

end append

/-! ## Written numbers -/

/-- Taking some of the digits leaves nothing but digits before the rest. -/
theorem dropWhile_takeDigits (n taken : Nat) (cs : List Char) :
    (takeDigits n taken cs).2.2.dropWhile isDigit = cs.dropWhile isDigit := by
  induction cs generalizing n taken with
  | nil => rfl
  | cons c cs ih =>
    rw [takeDigits]
    split
    next hc =>
      rw [Bool.and_eq_true] at hc
      rw [ih, List.dropWhile_cons_of_pos hc.1]
    next => rfl

/-- The leading digits leave nothing but digits before the rest. -/
theorem dropWhile_leading {c : Char} (cs : List Char) :
    (leading c cs).2.dropWhile isDigit = cs.dropWhile isDigit := by
  unfold leading
  split
  · rfl
  · exact dropWhile_takeDigits ..

/-- An exponent as it is written, if there is one. -/
inductive IsExponent : List Char → Prop
  | none : IsExponent []
  | signed {sign : Char} {digits : List Char} (hsign : sign = '+' ∨ sign = '-')
    (hdigits : digits.all isDigit = true) : IsExponent ('e' :: sign :: digits)

/-- What stands behind the digits of a number as it is written. -/
inductive IsTail : List Char → Prop
  | exponent {exponent : List Char} (h : IsExponent exponent) : IsTail exponent
  | point {fraction exponent : List Char} (hfraction : fraction.all isDigit = true)
    (hexponent : IsExponent exponent) : IsTail ('.' :: (fraction ++ exponent))

/-- A number as it is written: a sign if there is one, digits, and what stands behind them. -/
inductive IsWritten : List Char → Prop
  | unsigned {digits tail : List Char} (hne : digits ≠ []) (hdigits : digits.all isDigit = true)
    (htail : IsTail tail) : IsWritten (digits ++ tail)
  | minus {digits tail : List Char} (hne : digits ≠ []) (hdigits : digits.all isDigit = true)
    (htail : IsTail tail) : IsWritten ('-' :: (digits ++ tail))

section written

variable {cs digits : List Char}

/-- An exponent starts with no digit. -/
theorem IsExponent.dropWhile (h : IsExponent cs) : cs.dropWhile isDigit = cs := by
  cases h with
  | none => rfl
  | signed => rfl

/-- What stands behind the digits starts with no digit. -/
theorem IsTail.dropWhile (h : IsTail cs) : cs.dropWhile isDigit = cs := by
  cases h with
  | exponent h => exact h.dropWhile
  | point => rfl

/-- Behind digits, what starts with no digit is what is left. -/
theorem dropWhile_digits_append (h : digits.all isDigit = true) (hcs : cs.dropWhile isDigit = cs) :
    (digits ++ cs).dropWhile isDigit = cs := by
  rw [List.dropWhile_append_of_pos (List.all_eq_true.1 h), hcs]

/-- Nothing is left of an exponent. -/
theorem IsExponent.readScale? (h : IsExponent cs) {negative : Bool} {n : Nat} {start : Int}
    {p : Float × List Char} (hp : readScale? negative n start cs = some p) : p.2 = [] := by
  cases h with
  | none =>
    obtain ⟨x, -, rfl⟩ := Option.map_eq_some_iff.1 hp
    rfl
  | @signed sign digits hsign hdigits =>
    rw [Json.readScale?, if_pos (.inl rfl)] at hp
    have hsplit : (Number.splitSign (sign :: digits)).2 = digits := by
      rcases hsign with rfl | rfl <;> rfl
    have hdrop : digits.dropWhile isDigit = [] := by
      rw [← List.append_nil digits, dropWhile_digits_append hdigits rfl]
    simp only [hsplit, hdrop] at hp
    split at hp
    · cases hp
    split at hp
    · split at hp
      · cases hp
      · cases hp
        rfl
    · obtain ⟨x, -, rfl⟩ := Option.map_eq_some_iff.1 hp
      rfl

/-- An exponent behind a fraction is read to its end. -/
theorem IsExponent.readFraction? (h : IsExponent cs) (hdigits : digits.all isDigit = true)
    {negative : Bool} {n : Nat} {start : Int} {p : Float × List Char}
    (hp : readFraction? negative n start (digits ++ cs) = some p) : p.2 = [] := by
  simp only [Json.readFraction?, dropDigits, dropWhile_takeDigits,
    dropWhile_digits_append hdigits h.dropWhile] at hp
  split at hp
  · cases hp
  · exact h.readScale? hp

/-- What stands behind the digits is read to its end. -/
theorem IsTail.readTail? (h : IsTail cs) {negative : Bool} {n dropped : Nat}
    {p : Json × List Char} (hp : readTail? negative n dropped cs = some p) : p.2 = [] := by
  have hscaled : IsExponent cs → ∀ p, readScaled? negative n dropped cs = some p → p.2 = [] := by
    intro hexponent p hp
    obtain ⟨q, hq, rfl⟩ := Option.map_eq_some_iff.1 hp
    exact hexponent.readScale? hq
  cases h with
  | exponent h =>
    cases h with
    | none =>
      change readNumber?.plain negative n dropped [] (readScaled? negative n dropped []) = _ at hp
      unfold readNumber?.plain at hp
      repeat' split at hp
      · exact hscaled .none p hp
      all_goals
        cases hp
        rfl
    | signed hsign hdigits =>
      rw [readTail?_of_ne (by decide), if_pos (.inl rfl)] at hp
      exact hscaled (.signed hsign hdigits) p hp
  | point hfraction hexponent =>
    rw [readTail?_point] at hp
    obtain ⟨q, hq, rfl⟩ := Option.map_eq_some_iff.1 hp
    exact hexponent.readFraction? hfraction hq

/-- Digits and what stands behind them are read to their end. -/
theorem IsTail.readUnsigned? (h : IsTail cs) (hdigits : digits.all isDigit = true)
    {negative : Bool} {p : Json × List Char}
    (hp : readUnsigned? negative (digits ++ cs) = some p) : p.2 = [] := by
  have hend : (digits ++ cs).dropWhile isDigit = cs := dropWhile_digits_append hdigits h.dropWhile
  cases htext : digits ++ cs with
  | nil =>
    rw [htext] at hp
    cases hp
  | cons c rest =>
    rw [htext] at hp hend
    rw [Json.readUnsigned?] at hp
    split at hp
    · cases hp
    next hdigit =>
      have hc : isDigit c = true := by simpa using hdigit
      split at hp
      · cases hp
      · rw [dropDigits, dropWhile_leading, ← List.dropWhile_cons_of_pos hc, hend] at hp
        exact h.readTail? hp

/-- Nothing is left of a number as it is written. -/
theorem IsWritten.readNumber? (h : IsWritten cs) {p : Json × List Char}
    (hp : readNumber? cs = some p) : p.2 = [] := by
  cases h with
  | unsigned hne hdigits htail =>
    obtain ⟨d, ds, rfl⟩ := List.exists_cons_of_ne_nil hne
    have hd : d ≠ '-' := by
      rintro rfl
      exact absurd hdigits (by simp [isDigit_eq])
    rw [List.cons_append, readNumber?_of_ne hd, ← List.cons_append] at hp
    exact htail.readUnsigned? hdigits hp
  | minus _ hdigits htail =>
    rw [readNumber?_minus] at hp
    exact htail.readUnsigned? hdigits hp

/-- A written number starts with a character of numbers. -/
theorem IsWritten.exists_cons (h : IsWritten cs) : ∃ c more, cs = c :: more ∧ inNumber c = true := by
  cases h with
  | unsigned hne hdigits _ =>
    obtain ⟨d, ds, rfl⟩ := List.exists_cons_of_ne_nil hne
    rw [List.all_cons, Bool.and_eq_true] at hdigits
    exact ⟨d, _, List.cons_append, by simp [inNumber, hdigits.1]⟩
  | minus => exact ⟨'-', _, rfl, rfl⟩

/-- What is written for a number is read as a whole, whatever ends it. -/
theorem IsWritten.readNumber?_append {rest : List Char} (h : IsWritten cs) (hrest : EndsNumber rest) :
    Json.readNumber? (cs ++ rest) = (Json.readNumber? cs).map fun p => (p.1, rest) := by
  rw [Json.readNumber?_append hrest]
  refine Option.map_congr fun p hp => ?_
  rw [h.readNumber? hp, List.nil_append]

end written

/-- An integer is written as a number. -/
theorem isWritten_integer (n : Int) : IsWritten (toString n).toList := by
  have htail : IsTail [] := .exponent .none
  have hne : Nat.toDigits 10 n.natAbs ≠ [] := Nat.toDigits_ne_nil
  have hdigits : (Nat.toDigits 10 n.natAbs).all isDigit = true := Number.all_isDigit_digitsOf n.natAbs
  rw [toList_integer, ← List.append_nil (Nat.toDigits 10 n.natAbs)]
  split
  · show IsWritten ('-' :: (Nat.toDigits 10 n.natAbs ++ []))
    exact .minus hne hdigits htail
  · show IsWritten (Nat.toDigits 10 n.natAbs ++ [])
    exact .unsigned hne hdigits htail

/-- The magnitude of a number as it is written. -/
def magnitudeText (d : Number.Decimal) : String :=
  let power := d.exponent + ((Number.digitsOf d.digits).length : Int) - 1
  if -5 ≤ power ∧ power < 16 then Number.positional ".0" d else Number.scientific d

/-- The digits of a positive number as they are written. -/
theorem exists_written_magnitude (d : Number.Decimal) :
    ∃ digits tail : List Char, digits ≠ [] ∧ digits.all isDigit = true ∧ IsTail tail ∧
      (magnitudeText d).toList = digits ++ tail := by
  simp only [magnitudeText]
  split
  · by_cases h : 0 ≤ d.exponent
    · have htail : IsTail ('.' :: (['0'] ++ [])) := .point rfl .none
      refine ⟨_, _, by simp [Number.digitsOf_ne_nil], ?_, htail, Number.positional_of_nonneg h ".0"⟩
      rw [List.all_append, Number.all_isDigit_digitsOf, Number.all_isDigit_replicate_zero, Bool.and_self]
    · obtain ⟨whole, fraction, hne, hwhole, hfraction, htext, -⟩ :=
        Number.exists_fraction_of_positional (not_le.1 h) ".0"
      refine ⟨whole, _, hne, hwhole, ?_, htext⟩
      rw [← List.append_nil fraction]
      exact .point hfraction .none
  · have hdigits := Number.all_isDigit_digitsOf d.digits
    obtain ⟨first, rest, h⟩ := List.exists_cons_of_ne_nil (Number.digitsOf_ne_nil d.digits)
    rw [h, List.all_cons, Bool.and_eq_true] at hdigits
    refine ⟨[first], _, List.cons_ne_nil _ _, by simp [hdigits.1], ?_, Number.toList_scientific h⟩
    have hexponent : IsExponent ('e' :: (if d.exponent + rest.length < 0 then '-' else '+') ::
        Number.digitsOf (d.exponent + rest.length).natAbs) := by
      refine .signed ?_ (Number.all_isDigit_digitsOf _)
      split
      · exact .inr rfl
      · exact .inl rfl
    split
    · exact .exponent hexponent
    · exact .point hdigits.2 hexponent

/-- The sign of a number as it is written. -/
def signText (negative : Bool) : String := if negative then "-" else ""

/-- A sign before a number without one makes a number. -/
theorem isWritten_sign (negative : Bool) {body : String} {digits tail : List Char}
    (hne : digits ≠ []) (hdigits : digits.all isDigit = true) (htail : IsTail tail) (hbody : body.toList = digits ++ tail) :
    IsWritten (signText negative ++ body).toList := by
  rw [String.toList_append, hbody]
  cases negative with
  | false =>
    show IsWritten (digits ++ tail)
    exact .unsigned hne hdigits htail
  | true =>
    show IsWritten ('-' :: (digits ++ tail))
    exact .minus hne hdigits htail

section real

variable {x : Float} {v : Number.Finite}

/-- Zero is written with its sign. -/
theorem jsonText?_zero (hx : Number.Value.ofFloat x = .finite v) (hzero : v.mantissa = 0) :
    Number.jsonText? x = some (signText v.negative ++ "0.0") := by
  rw [Number.jsonText?, hx]
  simp only [if_pos hzero]
  rfl

/-- A double that is not zero is written as its sign and the shortest digits. -/
theorem jsonText?_pos (hx : Number.Value.ofFloat x = .finite v) (hpos : 0 < v.mantissa) :
    Number.jsonText? x =
      some (signText v.negative ++ magnitudeText (Number.shortest .even v)) := by
  rw [Number.jsonText?, hx]
  simp only [if_neg hpos.ne']
  rfl

/-- A double is written as a number. -/
theorem isWritten_real {text : String} (h : Number.jsonText? x = some text) :
    IsWritten text.toList := by
  cases hx : Number.Value.ofFloat x with
  | finite v =>
    rcases Nat.eq_zero_or_pos v.mantissa with hzero | hpos
    · rw [jsonText?_zero hx hzero] at h
      cases h
      have hdigits : ['0'].all isDigit = true := rfl
      have htail : IsTail ('.' :: (['0'] ++ [])) := .point rfl .none
      exact isWritten_sign _ (List.cons_ne_nil _ _) hdigits htail rfl
    · rw [jsonText?_pos hx hpos] at h
      cases h
      obtain ⟨digits, tail, hne, hdigits, htail, htext⟩ :=
        exists_written_magnitude (Number.shortest .even v)
      exact isWritten_sign _ hne hdigits htail htext
  | infinite negative =>
    rw [Number.jsonText?, hx] at h
    cases h
  | notANumber =>
    rw [Number.jsonText?, hx] at h
    cases h

end real

end LogSearch.Json
