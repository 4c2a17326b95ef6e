import LogSearch.Number.Binary64

/-!
# Doubles by their bits

The numbers of fields are doubles of which every bit counts: what is no number has a sign and a
fraction too, and the total order of doubles goes by them. `Float` has one such value only, so a
number is kept as its word and becomes a `Float` for arithmetic.

* `Double`: a word of sixty-four bits.
* `Double.toFloat`, `Double.ofFloat`: the same number as a `Float`.
* `Double.neg`, `Double.abs`: the sign bit turned round or cleared.
* `Double.totalCompare`: the total order, in which `-0` comes before `0`.
-/

namespace LogSearch

/-- A double, by its sixty-four bits. -/
structure Double where
  bits : UInt64
deriving DecidableEq, Repr

namespace Double

/-- What the bits stand for. -/
def value (x : Double) : Number.Value := .ofBits x.bits.toNat

/-- Whether the sign bit is set. -/
def isNegative (x : Double) : Bool := Number.signBit ≤ x.bits.toNat

/-- The bits of the fraction. -/
def fraction (x : Double) : Nat := x.bits.toNat % Number.hiddenBit

/-- The number as a `Float`, in which all that is no number is one. -/
def toFloat (x : Double) : Float := Float.ofBits x.bits

/-- The number of a `Float`. -/
def ofFloat (x : Float) : Double := ⟨x.toBits⟩

/-- The nearest double of an integer. -/
def ofInt (n : Int) : Double := ofFloat (Number.ofInt n)

/-- Whether a double is no number. -/
def isNaN (x : Double) : Bool := x.toFloat.isNaN

/-- Whether a double is a finite number. -/
def isFinite (x : Double) : Bool := Number.isFinite x.toFloat

/-- What is no number, with the first bit of the fraction and no other. -/
def notANumber : Double := ⟨9221120237041090560⟩

/-- The double with the other sign. -/
def neg (x : Double) : Double := ⟨x.bits ^^^ 9223372036854775808⟩

/-- The double without its sign. -/
def abs (x : Double) : Double := ⟨x.bits &&& 9223372036854775807⟩

instance : LT Double := ⟨fun x y => x.toFloat < y.toFloat⟩

instance : LE Double := ⟨fun x y => x.toFloat ≤ y.toFloat⟩

instance (x y : Double) : Decidable (x < y) := inferInstanceAs (Decidable (x.toFloat < y.toFloat))

/-- The key of a double in the total order: bits without sign, negative below zero. -/
def orderKey (x : Double) : Int :=
  let bits := x.bits.toNat
  if Number.signBit ≤ bits then -((bits : Int) - Number.signBit) - 1 else bits

/-- The total order on doubles: what is no number is outside of the infinities, on the side of its
sign, and further out with a greater fraction. -/
def totalCompare (x y : Double) : Ordering := compare x.orderKey y.orderKey

end Double

end LogSearch
