import LogSearch.Field.Order
import LogSearch.Number.Machine
import LogSearch.Query.Tree
import LogSearch.Record
import LogSearch.Regex.Library
import LogSearch.Text.Case

/-!
# Evaluating expressions

Evaluation never fails. Arithmetic on what is no number, and a division by zero, give an invalid
number, which carries its errors into all arithmetic on it.

* `Field.operand`: a field as an operand, or the invalid number that stands for the result.
* `BinaryOp.apply`, `Field.compares`: arithmetic and comparisons.
* `Function.apply`: the functions.
* `Expr.eval`, `Expr.holds`: the value of an expression on a record, and its truth.
-/

namespace LogSearch

/-! ## Arithmetic -/

/-- The number of an operand of `operation`, or the invalid number in the place of the result. -/
def Field.operand (operation : String) (f : Field) : Except Field Double :=
  if !f.isValid then .error (.mk (.number .notANumber) f.errors)
  else match f.asNumber? with
    | some x => .ok x
    | none =>
      if f.isNull then .error (invalidNumber (operation ++ ": operand is absent"))
      else .error (invalidNumber (operation ++ ": '" ++ f.display ++ "' is not a number"))

/-- A field, whichever way it came. -/
def Field.merge : Except Field Field → Field
  | .ok f => f
  | .error f => f

/-- A function of numbers on a field. -/
def Field.mapNumber (operation : String) (f : Double → Double) (x : Field) : Field :=
  merge ((x.operand operation).map fun n => number (f n))

/-- A function of texts on a field; null stays null. -/
def Field.mapText (f : String → String) (x : Field) : Field :=
  if x.isNull then null else string (f x.display)

/-- A test of the text of a field; null fails it. -/
def Field.testText (test : String → Bool) (x : Field) : Field :=
  boolean (!x.isNull && test x.display)

/-! ## Comparisons -/

/-- The order of numbers; nothing is ordered with what is no number. -/
def Number.partialCompare (x y : Float) : Option Ordering :=
  if x < y then some .lt else if y < x then some .gt else if x == y then some .eq else none

/-- The order of two fields: as numbers if both are numbers, else by their texts. -/
def Field.partialCompare (a b : Field) : Option Ordering :=
  match a.asNumber?, b.asNumber? with
  | some x, some y => Number.partialCompare x.toFloat y.toFloat
  | _, _ => some (compareText a.display b.display)

/-- Whether an operator accepts an order; unordered values are just unequal. -/
def BinaryOp.acceptsOrder : BinaryOp → Option Ordering → Bool
  | equal, o => o == some .eq
  | notEqual, o => o != some .eq
  | greater, o => o == some .gt
  | greaterEqual, o => o == some .gt || o == some .eq
  | less, o => o == some .lt
  | lessEqual, o => o == some .lt || o == some .eq
  | _, _ => false

/-- Whether a comparison holds. Null equals null only, and is not ordered with anything. -/
def Field.compares (op : BinaryOp) (a b : Field) : Bool :=
  match a.isNull, b.isNull with
  | true, true => op = .equal
  | true, false | false, true => op = .notEqual
  | false, false => op.acceptsOrder (a.partialCompare b)

/-! ## Operators and functions -/

/-- The field of a constant. -/
def Literal.field : Literal → Field
  | number x => .number (.ofFloat x)
  | string s => .string s
  | boolean b => .boolean b
  | null => .null

/-- Arithmetic on two fields. -/
def Field.arithmetic (op : BinaryOp) (compute : Double → Double → Field) (a b : Field) : Field :=
  merge do
    let x ← a.operand op.text
    let y ← b.operand op.text
    return compute x y

variable [Machine]

/-- A quotient. -/
def Field.quotient (x y : Double) : Field :=
  if y.toFloat == 0.0 then invalidNumber "division by zero" else number (x.div y)

/-- The result of an operator. -/
def BinaryOp.apply (op : BinaryOp) (a b : Field) : Field :=
  match op with
  | add => Field.arithmetic op (fun x y => .number (x.add y)) a b
  | sub => Field.arithmetic op (fun x y => .number (x.sub y)) a b
  | mul => Field.arithmetic op (fun x y => .number (x.mul y)) a b
  | div => Field.arithmetic op Field.quotient a b
  | and => .boolean (a.asBool && b.asBool)
  | or => .boolean (a.asBool || b.asBool)
  | _ => .boolean (a.compares op b)

variable [Regex.Library]

/-- Whether the text of a field has a match; a pattern that cannot be read is an error. -/
def Field.matchesPattern (x : Field) (pattern : String) : Field :=
  if x.isNull then boolean false
  else match Regex.compile pattern with
    | .ok r => boolean (r.isMatch x.display)
    | .error reason => (boolean false).withError ("invalid regex: " ++ reason)

/-- The power of ten for a number of digits, which is cut to an integer of thirty-two bits. -/
def Number.decimalScale (digits : Double) : Double :=
  .ofFloat (powInt 10.0 (toIntWithin (-2147483648) 2147483647 digits.toFloat))

/-- A number rounded to a number of digits. -/
def Field.roundTo (x : Field) (digits : Except Field Double) : Field :=
  match digits with
  | .error f => f
  | .ok d =>
    let scale := Number.decimalScale d
    x.mapNumber "round" fun n => (n.mul scale).round.div scale

/-- The number of items of an array, or of characters of any other value. -/
def Field.length (x : Field) : Field :=
  match x.value with
  | .null => null
  | .array items => number (.ofInt items.length)
  | _ => number (.ofInt x.display.length)

/-- The value after the first true condition; a value without condition stands for the rest. -/
def Field.firstCase : List Field → Field
  | condition :: value :: rest => if condition.asBool then value else firstCase rest
  | [default] => default
  | [] => null

/-- The first value that is not null. -/
def Field.coalesce (values : List Field) : Field := (values.find? fun v => !v.isNull).getD null

/-- The result of a function; arguments that are not given are null. -/
def Function.apply (f : Function) (arguments : List Field) : Field :=
  let x := arguments.headD .null
  let y := (arguments[1]?).getD .null
  match f with
  | contains => x.testText fun s => Text.contains s y.display
  | startsWith => x.testText fun s => Text.startsWith s y.display
  | endsWith => x.testText fun s => Text.endsWith s y.display
  | matchesPattern => x.matchesPattern y.display
  | isNull => .boolean x.isNull
  | isNotNull => .boolean !x.isNull
  | lower => x.mapText Text.lowerCase
  | upper => x.mapText Text.upperCase
  | length => x.length
  | abs => x.mapNumber "abs" Double.abs
  | floor => x.mapNumber "floor" Double.floor
  | ceil => x.mapNumber "ceil" Double.ceil
  | round => x.roundTo (if 1 < arguments.length then y.operand "round" else .ok (.ofFloat 0.0))
  | toNumber => if x.isNull then .null else x.mapNumber "toNumber" id
  | toText => x.mapText id
  | choose => if x.asBool then y else (arguments[2]?).getD .null
  | case => Field.firstCase arguments
  | coalesce => Field.coalesce arguments

/-! ## Expressions -/

namespace Expr

mutual
/-- The value of an expression on a record. -/
def eval (r : Record) : Expr → Field
  | literal l => l.field
  | column name => r.getD name
  | not e => .boolean !(eval r e).asBool
  | negate e => (eval r e).mapNumber "-" Double.neg
  | binary op a b => op.apply (eval r a) (eval r b)
  | member e list => .boolean (list.any fun l => (eval r e).compares .equal l.field)
  | call f arguments => f.apply (evalAll r arguments)

/-- The values of expressions. -/
def evalAll (r : Record) : List Expr → List Field
  | [] => []
  | e :: rest => eval r e :: evalAll r rest
end

/-- Whether the value of an expression counts as true. -/
def holds (e : Expr) (r : Record) : Bool := (e.eval r).asBool

end Expr

end LogSearch
