import LogSearch.Json.Writer
import LogSearch.Number.Double
import LogSearch.Text.Blank
import LogSearch.Text.Search
import LogSearch.Time.Instant

/-!
# Fields

A field is a typed value with a list of errors. A field with errors is invalid but keeps its type,
so that a stage can carry a value that could not be computed.

* `Field`, `FieldValue`: fields and their values.
* `Field.asNumber?`, `Field.asDate?`, `Field.asBool`: what a field counts as.
* `Field.display`: the text of a field, used for grouping, comparing and exporting.
* `Field.toPlainJson`, `Field.ofPlainJson`: a field as JSON without types, and a field from JSON.
-/

namespace LogSearch

mutual
/-- The value of a field. Dates are instants. -/
inductive FieldValue
  | null
  | number (value : Double)
  | string (value : String)
  | date (millis : Int)
  | boolean (value : Bool)
  | array (items : List Field)
  | object (entries : List (String × Field))

/-- A value with the errors of its computation. -/
inductive Field
  | mk (value : FieldValue) (errors : List String)
end

namespace Field

/-- The value of a field. -/
def value : Field → FieldValue
  | mk v _ => v

/-- The errors of a field. -/
def errors : Field → List String
  | mk _ es => es

/-- A value without errors. -/
def of (v : FieldValue) : Field := mk v []

/-- The absent value. -/
def null : Field := of .null

/-- A number. -/
def number (x : Double) : Field := of (.number x)

/-- A text. -/
def string (s : String) : Field := of (.string s)

/-- A date. -/
def date (millis : Int) : Field := of (.date millis)

/-- A truth value. -/
def boolean (b : Bool) : Field := of (.boolean b)

/-- A number that could not be computed, and why. -/
def invalidNumber (error : String) : Field := mk (.number .notANumber) [error]

/-- Adds an error. -/
def withError (f : Field) (error : String) : Field := mk f.value (f.errors ++ [error])

/-- Whether a field has no errors. -/
def isValid (f : Field) : Bool := f.errors.isEmpty

/-- Whether the value is absent. -/
def isNull (f : Field) : Bool :=
  match f.value with
  | .null => true
  | _ => false

instance : Inhabited Field := ⟨null⟩

/-! ## What a field counts as -/

/-- The number that a text writes between blanks, if it is finite. -/
def textNumber? (s : String) : Option Double :=
  ((Number.readFloat? (Text.trim s.toList)).filter Number.isFinite).map .ofFloat

/-- The number that a field counts as. -/
def asNumber? (f : Field) : Option Double :=
  match f.value with
  | .number x => some x
  | .date ms => some (.ofInt ms)
  | .string s => textNumber? s
  | .boolean b => some (.ofFloat (if b then 1.0 else 0.0))
  | _ => none

/-- The instant that a text writes between blanks: a date with time, or a plain number. -/
def textDate? (s : String) : Option Int :=
  let cs := Text.trim s.toList
  Instant.read? cs <|> Number.readInt64? cs

/-- The instant that a field counts as. -/
def asDate? (f : Field) : Option Int :=
  match f.value with
  | .date ms => some ms
  | .number x => if x.isFinite then some (Number.toInt64 x.toFloat) else none
  | .string s => textDate? s
  | _ => none

/-- Whether a field counts as true. -/
def asBool (f : Field) : Bool :=
  match f.value with
  | .null => false
  | .boolean b => b
  | .number x => x.toFloat != 0.0 && !x.isNaN
  | .date _ => true
  | .string s => !s.isEmpty
  | .array items => !items.isEmpty
  | .object _ => true

/-! ## Text and JSON -/

mutual
/-- The field as JSON without types; a number that JSON does not have is null. -/
def toPlainJson : Field → Json
  | mk .null _ => .null
  | mk (.number x) _ => if x.isFinite then .real x.toFloat else .null
  | mk (.string s) _ => .string s
  | mk (.date ms) _ => .string (Instant.text ms)
  | mk (.boolean b) _ => .bool b
  | mk (.array items) _ => .array (itemsToPlainJson items)
  | mk (.object entries) _ => .object (entriesToPlainJson entries)

/-- `toPlainJson` on items. -/
def itemsToPlainJson : List Field → List Json
  | [] => []
  | f :: rest => toPlainJson f :: itemsToPlainJson rest

/-- `toPlainJson` on entries. -/
def entriesToPlainJson : List (String × Field) → List (String × Json)
  | [] => []
  | (key, f) :: rest => (key, toPlainJson f) :: entriesToPlainJson rest
end

/-- Whole numbers below this are written as integers. -/
def wholeLimit : Nat := 1000000000000000

/-- The text of a number: a whole number of moderate size has no sign for zero. -/
def numberText (x : Double) : String :=
  match x.value with
  | .finite v =>
    if v.isWhole ∧ v.whole < wholeLimit then toString v.truncate else Number.plainText x.toFloat
  | _ => Number.plainText x.toFloat

mutual
/-- The text of a field. -/
def display : Field → String
  | mk .null _ => ""
  | mk (.number x) _ => numberText x
  | mk (.string s) _ => s
  | mk (.date ms) _ => Instant.text ms
  | mk (.boolean b) _ => if b then "true" else "false"
  | mk (.array items) _ => Text.join "," (displayItems items)
  | mk (.object entries) _ => (Json.object (entriesToPlainJson entries)).compact

/-- The texts of items. -/
def displayItems : List Field → List String
  | [] => []
  | f :: rest => display f :: displayItems rest
end

mutual
/-- The field that a JSON value is, objects ordered by key. -/
def ofPlainJson : Json → Field
  | .null => null
  | .bool b => boolean b
  | .integer n => number (.ofInt n)
  | .real x => number (.ofFloat x)
  | .string s => string s
  | .array items => of (.array (itemsOfPlainJson items))
  | .object members => of (.object (Dict.ofList (entriesOfPlainJson members)))

/-- `ofPlainJson` on items. -/
def itemsOfPlainJson : List Json → List Field
  | [] => []
  | j :: rest => ofPlainJson j :: itemsOfPlainJson rest

/-- `ofPlainJson` on members. -/
def entriesOfPlainJson : List (String × Json) → List (String × Field)
  | [] => []
  | (key, j) :: rest => (key, ofPlainJson j) :: entriesOfPlainJson rest
end

end Field

end LogSearch
