import LogSearch.Json.Value
import LogSearch.Number.Read

/-!
# Reading JSON

Each step returns what it read and the rest of the text.

* `Json.read?`: a whole text as a value; blanks may stand around it and nothing else.
* `Json.readNormal?`: the same with every object in the order of its keys.
* `maxDepth`: arrays and objects nest at most this deep.
* `scaled?`: how digits and a power of ten become a double: one rounding for the digits, one for
  each multiplication or division, so that the result need not be the nearest double.
-/

namespace LogSearch.Json

/-- How deep arrays and objects may nest. -/
def maxDepth : Nat := 127

/-- White space of JSON. -/
def isSpace (c : Char) : Bool := c = ' ' || c = '\n' || c = '\t' || c = '\r'

/-- The text after its leading white space. -/
def skipSpace (cs : List Char) : List Char := cs.dropWhile isSpace

/-- The rest of `cs` after `word`. -/
def expect? (word : List Char) (cs : List Char) : Option (List Char) :=
  if word.isPrefixOf cs then some (cs.drop word.length) else none

/-! ## Numbers -/

/-- `digits · 10 ^ exponent` by repeated scaling; nothing when it grows beyond the doubles. -/
def scaled? (negative : Bool) (digits : Nat) (exponent : Int) : Option Float :=
  let sign (x : Float) : Float := if negative then -x else x
  go 3 (Float.ofNat digits) exponent |>.map sign
where
  /-- Scales by at most `10 ^ 308` a step. -/
  go : Nat → Float → Int → Option Float
    | 0, x, _ => some x
    | fuel + 1, x, e =>
      if e.natAbs ≤ 308 then
        let power := Number.ofDecimal false 1 e.natAbs
        if 0 ≤ e then
          let y := x * power
          if Number.isFinite y then some y else none
        else some (x / power)
      else if x == 0.0 then some x
      else if 0 ≤ e then none
      else go fuel (x / 1e308) (e + 308)

/-- Whether one more digit would exceed the greatest count. -/
def overflows (n : Nat) (c : Char) : Bool := Number.countMax < 10 * n + Number.digitValue c

/-- Takes digits onto `n` while they fit; the number of digits taken is counted. -/
def takeDigits : Nat → Nat → List Char → Nat × Nat × List Char
  | n, taken, [] => (n, taken, [])
  | n, taken, c :: cs =>
    if Number.isDigit c && !overflows n c then
      takeDigits (10 * n + Number.digitValue c) (taken + 1) cs
    else (n, taken, c :: cs)

/-- Drops digits and counts them. -/
def dropDigits (cs : List Char) : Nat × List Char :=
  ((cs.takeWhile Number.isDigit).length, cs.dropWhile Number.isDigit)

/-- The exponent part, if one follows, for digits scaled by `10 ^ start`. -/
def readScale? (negative : Bool) (digits : Nat) (start : Int) (cs : List Char) :
    Option (Float × List Char) :=
  match cs with
  | c :: rest =>
    if c = 'e' ∨ c = 'E' then
      let (down, rest) := Number.splitSign rest
      let written := rest.takeWhile Number.isDigit
      let rest := rest.dropWhile Number.isDigit
      if written.isEmpty then none
      else
        let n := Number.ofDigits written
        if 2147483648 ≤ n then
          if digits ≠ 0 ∧ !down then none
          else some (if negative then -0.0 else 0.0, rest)
        else
          let exponent := if down then start - (n : Int) else start + n
          (scaled? negative digits exponent).map (·, rest)
    else (scaled? negative digits start).map (·, cs)
  | [] => (scaled? negative digits start).map (·, [])

/-- The digits after the point, of which as many count as fit. -/
def readFraction? (negative : Bool) (digits : Nat) (start : Int) (cs : List Char) :
    Option (Float × List Char) :=
  let (digits, taken, rest) := takeDigits digits 0 cs
  let (dropped, rest) := dropDigits rest
  if taken + dropped = 0 then none
  else readScale? negative digits (start - taken) rest

/-- A number: an integer of sixty-four bits if it is written as one and fits, else a double. -/
def readNumber? (cs : List Char) : Option (Json × List Char) :=
  let (negative, cs) :=
    match cs with
    | '-' :: rest => (true, rest)
    | _ => (false, cs)
  match cs with
  | [] => none
  | c :: rest =>
    if !Number.isDigit c then none
    else
      let (digits, rest) :=
        if c = '0' then (0, rest)
        else
          let (n, _, rest) := takeDigits (Number.digitValue c) 1 rest
          (n, rest)
      let (dropped, after) := dropDigits rest
      if c = '0' ∧ dropped ≠ 0 then none
      else
        match after with
        | '.' :: fraction =>
          (readFraction? negative digits dropped fraction).map fun (x, rest) => (real x, rest)
        | _ =>
          let scaled := (readScale? negative digits dropped after).map fun (x, rest) => (real x, rest)
          match after with
          | e :: _ => if e = 'e' ∨ e = 'E' then scaled else plain negative digits dropped after scaled
          | [] => plain negative digits dropped after scaled
where
  /-- A number without point and exponent. -/
  plain (negative : Bool) (digits dropped : Nat) (rest : List Char)
      (scaled : Option (Json × List Char)) : Option (Json × List Char) :=
    if dropped ≠ 0 then scaled
    else if !negative then some (integer digits, rest)
    else if digits = 0 ∨ 9223372036854775808 < digits then some (real (-Float.ofNat digits), rest)
    else some (integer (-digits), rest)

/-! ## Strings -/

/-- The value of a hexadecimal digit. -/
def hexValue? (c : Char) : Option Nat :=
  if '0' ≤ c ∧ c ≤ '9' then some (c.toNat - '0'.toNat)
  else if 'a' ≤ c ∧ c ≤ 'f' then some (c.toNat - 'a'.toNat + 10)
  else if 'A' ≤ c ∧ c ≤ 'F' then some (c.toNat - 'A'.toNat + 10)
  else none

/-- Four hexadecimal digits. -/
def readHex? : List Char → Option (Nat × List Char)
  | a :: b :: c :: d :: rest => do
    let a ← hexValue? a
    let b ← hexValue? b
    let c ← hexValue? c
    let d ← hexValue? d
    return (((a * 16 + b) * 16 + c) * 16 + d, rest)
  | _ => none

/-- The character of a `\u` escape, of which the high half of a pair needs its low half. -/
def readUnicode? (cs : List Char) : Option (Char × List Char) := do
  let (n, rest) ← readHex? cs
  if 0xDC00 ≤ n ∧ n < 0xE000 then none
  else if 0xD800 ≤ n ∧ n < 0xDC00 then
    match rest with
    | '\\' :: 'u' :: rest =>
      let (low, rest) ← readHex? rest
      if 0xDC00 ≤ low ∧ low < 0xE000 then
        return (Char.ofNat (0x10000 + (n - 0xD800) * 0x400 + (low - 0xDC00)), rest)
      else none
    | _ => none
  else return (Char.ofNat n, rest)

/-- The character of an escape, after its backslash. -/
def readEscape? : List Char → Option (Char × List Char)
  | '"' :: rest => some ('"', rest)
  | '\\' :: rest => some ('\\', rest)
  | '/' :: rest => some ('/', rest)
  | 'b' :: rest => some ('\x08', rest)
  | 'f' :: rest => some ('\x0c', rest)
  | 'n' :: rest => some ('\n', rest)
  | 'r' :: rest => some ('\r', rest)
  | 't' :: rest => some ('\t', rest)
  | 'u' :: rest => readUnicode? rest
  | _ => none

/-- A string after its opening quote. -/
def readString? (cs : List Char) : Option (String × List Char) :=
  go cs.length [] cs
where
  /-- Collects characters, last one first. -/
  go : Nat → List Char → List Char → Option (String × List Char)
    | 0, _, _ => none
    | _ + 1, _, [] => none
    | fuel + 1, read, c :: rest =>
      if c = '"' then some (String.ofList read.reverse, rest)
      else if c = '\\' then do
        let (c, rest) ← readEscape? rest
        go fuel (c :: read) rest
      else if c.toNat < 0x20 then none
      else go fuel (c :: read) rest

/-! ## Values -/

mutual
/-- A value inside which `depth` more levels may open. -/
def readValue? : Nat → Nat → List Char → Option (Json × List Char)
  | 0, _, _ => none
  | fuel + 1, depth, cs =>
    match skipSpace cs with
    | [] => none
    | c :: rest =>
      if c = '"' then (readString? rest).map fun (s, rest) => (string s, rest)
      else if c = '[' then
        match depth with
        | 0 => none
        | depth + 1 =>
          match skipSpace rest with
          | ']' :: rest => some (array [], rest)
          | rest => (readItems? fuel depth rest).map fun (items, rest) => (array items, rest)
      else if c = '\x7b' then
        match depth with
        | 0 => none
        | depth + 1 =>
          match skipSpace rest with
          | '\x7d' :: rest => some (object [], rest)
          | rest => (readMembers? fuel depth rest).map fun (members, rest) => (object members, rest)
      else if c = 't' then (expect? "rue".toList rest).map (bool true, ·)
      else if c = 'f' then (expect? "alse".toList rest).map (bool false, ·)
      else if c = 'n' then (expect? "ull".toList rest).map (null, ·)
      else readNumber? (c :: rest)

/-- The items of an array, up to its closing bracket. -/
def readItems? : Nat → Nat → List Char → Option (List Json × List Char)
  | 0, _, _ => none
  | fuel + 1, depth, cs => do
    let (item, rest) ← readValue? fuel depth cs
    match skipSpace rest with
    | ',' :: rest =>
      let (items, rest) ← readItems? fuel depth rest
      return (item :: items, rest)
    | ']' :: rest => return ([item], rest)
    | _ => none

/-- The members of an object, up to its closing brace. -/
def readMembers? : Nat → Nat → List Char → Option (List (String × Json) × List Char)
  | 0, _, _ => none
  | fuel + 1, depth, cs =>
    match skipSpace cs with
    | '"' :: rest => do
      let (key, rest) ← readString? rest
      match skipSpace rest with
      | ':' :: rest =>
        let (value, rest) ← readValue? fuel depth rest
        match skipSpace rest with
        | ',' :: rest =>
          let (members, rest) ← readMembers? fuel depth rest
          return ((key, value) :: members, rest)
        | '\x7d' :: rest => return ([(key, value)], rest)
        | _ => none
      | _ => none
    | _ => none
end

/-- A whole text as a value. Every level of the reading takes a character. -/
def read? (text : String) : Option Json := do
  let (value, rest) ← readValue? (2 * text.length + 2) maxDepth text.toList
  if (skipSpace rest).isEmpty then some value else none

/-- A whole text as a value with its objects in the order of their keys. -/
def readNormal? (text : String) : Option Json := (read? text).map normalize

end LogSearch.Json
