import LogSearch.Number.Read
import LogSearch.Text.Bytes

/-!
# Instants

An instant is a number of milliseconds since the start of 1970 in universal time.

* `Day.toCivil`, `Day.ofCivil`: days and calendar dates.
* `text`: an instant as `year-month-dayThour:minute:second.millisZ`, if its year is in range.
* `read`: an instant from such a text with any offset, or the reason why there is none.
-/

namespace LogSearch.Instant

/-- A date of the Gregorian calendar. -/
structure Civil where
  year : Int
  month : Nat
  day : Nat
deriving DecidableEq, Repr

/-- Days from the start of March in year zero to the start of 1970. -/
def epochShift : Int := 719468

/-- The date of a day counted from the start of 1970. Years are counted from March, so that the
leap day is the last of a year, in eras of four hundred years. -/
def Civil.ofDay (day : Int) : Civil :=
  let shifted := day + epochShift
  let era := shifted.fdiv 146097
  let dayOfEra := (shifted.fmod 146097).toNat
  let yearOfEra :=
    (dayOfEra - dayOfEra / 1460 + dayOfEra / 36524 - dayOfEra / 146096) / 365
  let dayOfYear := dayOfEra - (365 * yearOfEra + yearOfEra / 4 - yearOfEra / 100)
  let shiftedMonth := (5 * dayOfYear + 2) / 153
  let day := dayOfYear - (153 * shiftedMonth + 2) / 5 + 1
  let month := if shiftedMonth < 10 then shiftedMonth + 3 else shiftedMonth - 9
  let year := (yearOfEra : Int) + era * 400
  ⟨if month ≤ 2 then year + 1 else year, month, day⟩

/-- The day of a date, counted from the start of 1970. -/
def Civil.toDay (d : Civil) : Int :=
  let year := if d.month ≤ 2 then d.year - 1 else d.year
  let era := year.fdiv 400
  let yearOfEra := (year.fmod 400).toNat
  let shiftedMonth := if 2 < d.month then d.month - 3 else d.month + 9
  let dayOfYear := (153 * shiftedMonth + 2) / 5 + d.day - 1
  let dayOfEra := yearOfEra * 365 + yearOfEra / 4 - yearOfEra / 100 + dayOfYear
  era * 146097 + dayOfEra - epochShift

/-- Whether a year has a leap day. -/
def isLeap (year : Int) : Bool :=
  year.fmod 4 = 0 && (year.fmod 100 ≠ 0 || year.fmod 400 = 0)

/-- Number of days of a month. -/
def daysIn (year : Int) : Nat → Nat
  | 2 => if isLeap year then 29 else 28
  | 4 | 6 | 9 | 11 => 30
  | _ => 31

/-- Whether a date exists. -/
def Civil.isValid (d : Civil) : Bool :=
  1 ≤ d.month && d.month ≤ 12 && 1 ≤ d.day && d.day ≤ daysIn d.year d.month

/-- The first year that is written as a date. -/
def minYear : Int := -262143

/-- The last year that is written as a date. -/
def maxYear : Int := 262142

/-! ## Writing -/

/-- A number with leading zeros up to `width` digits. -/
def padded (width n : Nat) : String :=
  let digits := Nat.toDigits 10 n
  String.ofList (List.replicate (width - digits.length) '0' ++ digits)

/-- A year in four digits; beyond them it has a sign. -/
def yearText (year : Int) : String :=
  if 0 ≤ year ∧ year ≤ 9999 then padded 4 year.toNat
  else (if year < 0 then "-" else "+") ++ padded 4 year.natAbs

/-- An instant as text; nothing if its year is out of range. -/
def text? (millis : Int) : Option String :=
  let date := Civil.ofDay (millis.fdiv 86400000)
  let ofDay := (millis.fmod 86400000).toNat
  if date.year < minYear ∨ maxYear < date.year then none
  else
    some (yearText date.year ++ "-" ++ padded 2 date.month ++ "-" ++ padded 2 date.day ++ "T"
      ++ padded 2 (ofDay / 3600000) ++ ":" ++ padded 2 (ofDay / 60000 % 60) ++ ":"
      ++ padded 2 (ofDay / 1000 % 60) ++ "." ++ padded 3 (ofDay % 1000) ++ "Z")

/-- An instant as text; a plain number if its year is out of range. -/
def text (millis : Int) : String := (text? millis).getD (toString millis)

/-! ## Reading -/

/-- Why a text is no instant. -/
inductive ReadFault
  | tooShort
  | invalid
  | outOfRange
  | trailing
deriving DecidableEq, Repr

/-- The wording of a fault. -/
def ReadFault.message : ReadFault → String
  | tooShort => "premature end of input"
  | invalid => "input contains invalid characters"
  | outOfRange => "input is out of range"
  | trailing => "trailing input"

/-- A number of exactly `width` digits; the length of what is left counts in bytes. -/
def digits (width : Nat) (cs : List Char) : Except ReadFault (Nat × List Char) :=
  let ds := cs.take width
  if Text.byteLength cs < width then .error .tooShort
  else if ds.length = width ∧ ds.all Number.isDigit then .ok (Number.ofDigits ds, cs.drop width)
  else .error .invalid

/-- A number of exactly two digits, at least `least` and at most `most`. -/
def twoDigits (least most : Nat) (cs : List Char) : Except ReadFault (Nat × List Char) := do
  let (n, cs) ← digits 2 cs
  if n < least || most < n then throw .outOfRange
  return (n, cs)

/-- The text after one of some characters. -/
def oneOf (allowed : List Char) : List Char → Except ReadFault (List Char)
  | c :: cs => if allowed.contains c then .ok cs else .error .invalid
  | [] => .error .tooShort

/-- The same without the reason why there is none. -/
def digits? (width : Nat) (cs : List Char) : Option (Nat × List Char) := (digits width cs).toOption

/-- The same without the reason why there is none. -/
def oneOf? (allowed cs : List Char) : Option (List Char) := (oneOf allowed cs).toOption

/-- A fraction of a second in whole milliseconds, if there is one. -/
def fraction : List Char → Except ReadFault (Nat × List Char)
  | '.' :: cs =>
    let ds := cs.takeWhile Number.isDigit
    if cs.isEmpty then .error .tooShort
    else if ds.isEmpty then .error .invalid
    else .ok (Number.ofDigits ((ds ++ ['0', '0']).take 3), cs.dropWhile Number.isDigit)
  | cs => .ok (0, cs)

/-- The minutes of an offset; beyond fifty-nine they are out of range. -/
def offsetMinutes (cs : List Char) : Except ReadFault (Nat × List Char) := do
  let (minutes, cs) ← digits 2 cs
  if 59 < minutes then throw .outOfRange
  return (minutes, cs)

/-- An offset from universal time of less than a day, in minutes. -/
def offset : List Char → Except ReadFault (Int × List Char)
  | [] => .error .tooShort
  | c :: cs =>
    if c = 'Z' ∨ c = 'z' then .ok (0, cs)
    else do
      let sign : Int ←
        if c = '+' then pure 1 else if c = '-' ∨ c = '−' then pure (-1) else throw .invalid
      let (hours, cs) ← digits 2 cs
      let cs ← oneOf [':'] cs
      let (minutes, cs) ← offsetMinutes cs
      if 23 < hours then throw .outOfRange
      return (sign * (hours * 60 + minutes), cs)

/-- An instant from a text with date, time and offset. A sixtieth second is the last one's next. -/
def read (cs : List Char) : Except ReadFault Int := do
  let (year, cs) ← digits 4 cs
  let cs ← oneOf ['-'] cs
  let (month, cs) ← twoDigits 1 12 cs
  let cs ← oneOf ['-'] cs
  let (day, cs) ← twoDigits 1 31 cs
  let cs ← oneOf ['T', 't', ' '] cs
  let (hour, cs) ← twoDigits 0 23 cs
  let cs ← oneOf [':'] cs
  let (minute, cs) ← twoDigits 0 59 cs
  let cs ← oneOf [':'] cs
  let (second, cs) ← twoDigits 0 60 cs
  let (millis, cs) ← fraction cs
  let (offset, cs) ← offset cs
  if !cs.isEmpty then throw .trailing
  let date : Civil := ⟨year, month, day⟩
  if !date.isValid then throw .outOfRange
  let minutes : Int := date.toDay * 1440 + hour * 60 + minute - offset
  return (minutes * 60 + second) * 1000 + millis

/-- The same without the reason why there is none. -/
def read? (cs : List Char) : Option Int := (read cs).toOption

end LogSearch.Instant
