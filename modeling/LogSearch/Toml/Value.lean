import LogSearch.Json.Decode
import LogSearch.Json.Writer
import LogSearch.Time.Instant

/-!
# Values of a configuration file

* `Toml`: a value.
* `Toml.toJson`, `Toml.ofJson?`: the same value as JSON. A table is written with its plain values
  first, then its lists of tables, then its tables; a date is an object with one member.
* `Toml.moment?`: reads a date, a time, or both.
-/

namespace LogSearch

/-- A value. A date or time is kept as its text. -/
inductive Toml
  | string (text : String)
  | integer (value : Int)
  | real (value : Float)
  | boolean (value : Bool)
  | moment (text : String)
  | array (items : List Toml)
  | table (entries : List (String × Toml))

namespace Toml

/-! ## Dates and times -/

/-- A fraction of a second, if one follows. -/
def secondFraction? : List Char → Option (List Char × List Char)
  | '.' :: cs =>
    let ds := cs.takeWhile Number.isDigit
    if ds.isEmpty then none
    else some (((ds.take 9).reverse.dropWhile (· = '0')).reverse, cs.dropWhile Number.isDigit)
  | cs => some ([], cs)

/-- A date as text. -/
def date? (cs : List Char) : Option (String × List Char) := do
  let (year, cs) ← Instant.digits? 4 cs
  let cs ← Instant.oneOf? ['-'] cs
  let (month, cs) ← Instant.digits? 2 cs
  let cs ← Instant.oneOf? ['-'] cs
  let (day, cs) ← Instant.digits? 2 cs
  let date : Instant.Civil := ⟨year, month, day⟩
  if !date.isValid then none
  else return (Instant.padded 4 year ++ "-" ++ Instant.padded 2 month ++ "-" ++ Instant.padded 2 day, cs)

/-- A time of the day as text. -/
def time? (cs : List Char) : Option (String × List Char) := do
  let (hour, cs) ← Instant.digits? 2 cs
  let cs ← Instant.oneOf? [':'] cs
  let (minute, cs) ← Instant.digits? 2 cs
  let cs ← Instant.oneOf? [':'] cs
  let (second, cs) ← Instant.digits? 2 cs
  let (fraction, cs) ← secondFraction? cs
  if 23 < hour ∨ 59 < minute ∨ 60 < second then none
  else
    let point := if fraction.isEmpty then "" else "." ++ String.ofList fraction
    return (Instant.padded 2 hour ++ ":" ++ Instant.padded 2 minute ++ ":"
      ++ Instant.padded 2 second ++ point, cs)

/-- An offset from universal time as text, empty if none follows. -/
def offset? : List Char → Option String
  | [] => some ""
  | ['Z'] | ['z'] => some "Z"
  | c :: cs => do
    if c ≠ '+' ∧ c ≠ '-' then none
    else
      let (hours, cs) ← Instant.digits? 2 cs
      let cs ← Instant.oneOf? [':'] cs
      let (minutes, cs) ← Instant.digits? 2 cs
      if !cs.isEmpty || 23 < hours || 59 < minutes then none
      else
        let sign := if c = '-' ∧ (hours ≠ 0 ∨ minutes ≠ 0) then "-" else "+"
        return sign ++ Instant.padded 2 hours ++ ":" ++ Instant.padded 2 minutes

/-- A date, a time, or a date with time and maybe an offset; the text is in its usual form. -/
def moment? (cs : List Char) : Option String :=
  match date? cs with
  | some (date, []) => some date
  | some (date, rest) => do
    let rest ← Instant.oneOf? ['T', 't', ' '] rest
    let (time, rest) ← time? rest
    return date ++ "T" ++ time ++ (← offset? rest)
  | none =>
    match time? cs with
    | some (time, []) => some time
    | _ => none

/-! ## JSON -/

/-- The key of the object that a date is written as. -/
def momentKey : String := "$__toml_private_datetime"

/-- Whether a value is a table. -/
def isTable : Toml → Bool
  | table _ => true
  | _ => false

/-- The place of a value in a written table: plain values, lists of tables, tables. -/
def writeRank : Toml → Nat
  | table _ => 2
  | array items => if items.any isTable then 1 else 0
  | _ => 0

/-- Entries in the order in which they are written. -/
def inWriteOrder {α : Type} (entries : List (Nat × α)) : List α :=
  [0, 1, 2].flatMap fun rank => (entries.filter fun e => e.1 = rank).map Prod.snd

mutual
/-- The value as JSON. -/
def toJson : Toml → Json
  | string s => .string s
  | integer n => .integer n
  | real x => .real x
  | boolean b => .bool b
  | moment text => .object [(momentKey, .string text)]
  | array items => .array (itemsToJson items)
  | table entries => .object (inWriteOrder (entriesToJson entries))

/-- `toJson` on items. -/
def itemsToJson : List Toml → List Json
  | [] => []
  | v :: rest => toJson v :: itemsToJson rest

/-- `toJson` on entries, each with its place. -/
def entriesToJson : List (String × Toml) → List (Nat × String × Json)
  | [] => []
  | (key, v) :: rest => (writeRank v, key, toJson v) :: entriesToJson rest
end

mutual
/-- A value from JSON; there is no null, and no key may occur twice. -/
def ofJson? : Json → Option Toml
  | .null => none
  | .bool b => some (boolean b)
  | .integer n => if n ≤ Number.int64Max then some (integer n) else none
  | .real x => some (real x)
  | .string s => some (string s)
  | .array items => (itemsOfJson? items).map array
  | .object members =>
    match members with
    | [(key, .string text)] =>
      if key = momentKey then (moment? text.toList).map moment
      else some (table [(key, string text)])
    | members => do
      let entries ← entriesOfJson? members
      let d := Dict.ofList entries
      if d.length = entries.length then some (table d) else none

/-- `ofJson?` on items. -/
def itemsOfJson? : List Json → Option (List Toml)
  | [] => some []
  | j :: rest => do return (← ofJson? j) :: (← itemsOfJson? rest)

/-- `ofJson?` on members. -/
def entriesOfJson? : List (String × Json) → Option (List (String × Toml))
  | [] => some []
  | (key, j) :: rest => do return (key, ← ofJson? j) :: (← entriesOfJson? rest)
end

/-- A value as text: a string stands for itself, anything else is written as JSON. -/
def text : Toml → String
  | string s => s
  | v => v.toJson.compact

end Toml

end LogSearch
