import LogSearch.Number.Binary64

/-!
# Reading numbers

* `isDigit`, `digitValue`: the ASCII digits.
* `ofDecimal`: the double nearest to `± mantissa · 10 ^ exponent`.
* `readFloat?`: a whole text as a double: sign, digits with an optional point, optional exponent.
* `readInt?`, `readNat?`: a whole text as an integer within given bounds.
-/

namespace LogSearch.Number

/-- Whether `c` is one of the ten ASCII digits. -/
def isDigit (c : Char) : Bool := '0' ≤ c && c ≤ '9'

/-- The value of an ASCII digit. -/
def digitValue (c : Char) : Nat := c.toNat - '0'.toNat

/-- The number that a run of digits writes. -/
def ofDigits (cs : List Char) : Nat := cs.foldl (fun n c => 10 * n + digitValue c) 0

/-- The double nearest to `± mantissa · 10 ^ exponent`. Powers beyond the range of doubles need no
arithmetic: the result is an infinity or a zero. -/
def ofDecimal (negative : Bool) (mantissa : Nat) (exponent : Int) : Float :=
  let digits : Int := (Nat.toDigits 10 mantissa).length
  let magnitude : Float :=
    if mantissa = 0 then 0.0
    else if 400 < exponent + digits then 1.0 / 0.0
    else if exponent + digits < -400 then 0.0
    else Float.ofScientific mantissa (exponent < 0) exponent.natAbs
  if negative then -magnitude else magnitude

/-- Splits an optional sign off: whether it is a minus, and what follows. -/
def splitSign : List Char → Bool × List Char
  | '-' :: cs => (true, cs)
  | '+' :: cs => (false, cs)
  | cs => (false, cs)

/-- An exponent part `e±digits` that ends the text; no text at all counts as zero. -/
def readExponent? : List Char → Option Int
  | [] => some 0
  | c :: cs =>
    if c = 'e' ∨ c = 'E' then
      let (negative, digits) := splitSign cs
      if digits.isEmpty || !digits.all isDigit then none
      else
        let n : Int := ofDigits digits
        some (if negative then -n else n)
    else none

/-- A finite decimal: digits with an optional point, at least one digit, optional exponent. -/
def readMagnitude? (negative : Bool) (cs : List Char) : Option Float :=
  let whole := cs.takeWhile isDigit
  let rest := cs.dropWhile isDigit
  let (fraction, rest) :=
    match rest with
    | '.' :: cs => (cs.takeWhile isDigit, cs.dropWhile isDigit)
    | _ => ([], rest)
  if whole.isEmpty && fraction.isEmpty then none
  else
    (readExponent? rest).map fun e =>
      ofDecimal negative (ofDigits (whole ++ fraction)) (e - fraction.length)

/-- A whole text as a double; the names of the infinities and of NaN count, in any case. -/
def readFloat? (cs : List Char) : Option Float :=
  let (negative, body) := splitSign cs
  let name := String.ofList (body.map Char.toLower)
  if name = "inf" ∨ name = "infinity" then
    some (if negative then -1.0 / 0.0 else 1.0 / 0.0)
  else if name = "nan" then some (0.0 / 0.0)
  else readMagnitude? negative body

/-- A whole text of digits, with an optional sign, as an integer between `low` and `high`. -/
def readIntWithin? (low high : Int) (cs : List Char) : Option Int :=
  let (negative, digits) := splitSign cs
  if digits.isEmpty || !digits.all isDigit then none
  else
    let n : Int := if negative then -(ofDigits digits : Int) else ofDigits digits
    if low ≤ n ∧ n ≤ high then some n else none

/-- A whole text as a signed integer of sixty-four bits. -/
def readInt64? : List Char → Option Int := readIntWithin? int64Min int64Max

/-- The greatest count that sixty-four bits hold. -/
def countMax : Nat := 18446744073709551615

/-- A whole text as an unsigned integer of sixty-four bits; a plus sign is allowed. -/
def readCount? (cs : List Char) : Option Nat :=
  let digits := match cs with
    | '+' :: rest => rest
    | _ => cs
  if digits.isEmpty || !digits.all isDigit then none
  else
    let n := ofDigits digits
    if n ≤ countMax then some n else none

end LogSearch.Number
