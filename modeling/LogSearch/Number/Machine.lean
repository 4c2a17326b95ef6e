import LogSearch.Number.Double

/-!
# What differs between machines

Two things are left to the machine that runs the program and to the way in which it was built:
whether arithmetic on words stops where a result does not fit or goes on with what is left of it,
and which word a computation has that gives no number.

* `Machine`: a machine.
* `Machine.word`: the result of a step of integer arithmetic.
* `Double.add` and the like: arithmetic on doubles.
-/

namespace LogSearch

/-- A computation on doubles. -/
inductive Computation
  | add
  | sub
  | mul
  | div
  | floor
  | ceil
  | round
deriving DecidableEq, Repr

/-- A machine that runs the program. -/
class Machine where
  /-- Whether a result that does not fit in a word stops the program; if not, it wraps around. -/
  checked : Bool
  /-- The result of a computation that gives no number. -/
  invalid : Computation → List Double → { x : Double // x.isNaN = true }

namespace Machine

/-- Whether an integer fits in a word. -/
def Fits (n : Int) : Prop := Number.int64Min ≤ n ∧ n ≤ Number.int64Max

instance (n : Int) : Decidable (Fits n) := inferInstanceAs (Decidable (_ ∧ _))

/-- What is left of an integer in a word: its remainder, taken around zero. -/
def wrap (n : Int) : Int := n.bmod 18446744073709551616

/-- A machine that stops, where what is no number has no sign. -/
@[reducible] def stopping : Machine := ⟨true, fun _ _ => ⟨.notANumber, by decide +kernel⟩⟩

variable [Machine]

/-- A result of integer arithmetic in a word; nothing if it stops the program. -/
def word (n : Int) : Option Int :=
  if Fits n then some n else if checked then none else some (wrap n)

/-- How many items a list is made for; nothing if there are fewer than none of them, or if they take
more bytes than there are addresses, which stops the program. -/
def capacity (itemBytes : Nat) (count : Int) : Option Nat :=
  if 0 ≤ count ∧ itemBytes * count ≤ Number.int64Max then some count.toNat else none

end Machine

namespace Double

variable [Machine]

/-- The result of a computation as a double. -/
def result (op : Computation) (operands : List Double) (x : Float) : Double :=
  if x.isNaN then Machine.invalid op operands else ofFloat x

/-- A sum. -/
def add (x y : Double) : Double := result .add [x, y] (x.toFloat + y.toFloat)

/-- A difference. -/
def sub (x y : Double) : Double := result .sub [x, y] (x.toFloat - y.toFloat)

/-- A product. -/
def mul (x y : Double) : Double := result .mul [x, y] (x.toFloat * y.toFloat)

/-- A quotient. -/
def div (x y : Double) : Double := result .div [x, y] (x.toFloat / y.toFloat)

/-- The greatest integer not above `x`. -/
def floor (x : Double) : Double := result .floor [x] (Number.floor x.toFloat)

/-- The least integer not below `x`. -/
def ceil (x : Double) : Double := result .ceil [x] (Number.ceil x.toFloat)

/-- The nearest integer; a half goes away from zero. -/
def round (x : Double) : Double := result .round [x] (Number.roundHalfAway x.toFloat)

end Double

end LogSearch
