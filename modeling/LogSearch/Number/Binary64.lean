/-!
# The value of a double

A finite double is `± mantissa · 2 ^ exponent`; everything here is exact arithmetic on that form.

* `Value.ofFloat`: the value that the bits of a double stand for.
* `roundWith`: rounding to an integer, of which `floor`, `ceil` and `roundHalfAway` are the cases.
* `toInt64`: the integer part, held within sixty-four bits.
-/

namespace LogSearch.Number

/-- A finite magnitude with its sign: `± mantissa · 2 ^ exponent`. -/
structure Finite where
  negative : Bool
  mantissa : Nat
  exponent : Int
deriving DecidableEq, Repr

/-- What a double stands for. -/
inductive Value
  | finite (value : Finite)
  | infinite (negative : Bool)
  | notANumber
deriving DecidableEq, Repr

/-- The bit above the fraction, which doubles leave out: the fifty-second power of two. -/
def hiddenBit : Nat := 4503599627370496

/-- The bit of the sign: the sixty-third power of two. -/
def signBit : Nat := 9223372036854775808

/-- The value that the bits of a double stand for: sign, eleven bits of exponent, fraction. -/
def Value.ofBits (bits : Nat) : Value :=
  let negative := decide (signBit ≤ bits)
  let exponent : Nat := bits / hiddenBit % 2048
  let fraction : Nat := bits % hiddenBit
  if exponent = 2047 then
    if fraction = 0 then infinite negative else notANumber
  else if exponent = 0 then finite ⟨negative, fraction, -1074⟩
  else finite ⟨negative, hiddenBit + fraction, (exponent : Int) - 1075⟩

/-- The value of a double. -/
def Value.ofFloat (x : Float) : Value := .ofBits x.toBits.toNat

/-- Whether a double is a finite number. -/
def isFinite (x : Float) : Bool :=
  match Value.ofFloat x with
  | .finite _ => true
  | _ => false

namespace Finite

/-- Integer part of the magnitude. -/
def whole (v : Finite) : Nat :=
  if 0 ≤ v.exponent then v.mantissa * Nat.pow 2 v.exponent.toNat
  else v.mantissa / Nat.pow 2 (-v.exponent).toNat

/-- Twice the fraction of the magnitude compared with one, and whether the fraction is zero. -/
def fraction (v : Finite) : Option Ordering :=
  if 0 ≤ v.exponent then none
  else
    let unit := Nat.pow 2 (-v.exponent).toNat
    let rest := v.mantissa % unit
    if rest = 0 then none else some (compare (2 * rest) unit)

/-- Whether the value is an integer. -/
def isWhole (v : Finite) : Bool := v.fraction.isNone

/-- The integer part with its sign. -/
def truncate (v : Finite) : Int := if v.negative then -(v.whole : Int) else v.whole

end Finite

/-- Rounds to an integer that keeps the sign; `up v f` says whether the magnitude of `v`, whose
fraction compares with one half as `f`, goes up. -/
def roundWith (up : Finite → Ordering → Bool) (x : Float) : Float :=
  match Value.ofFloat x with
  | .finite v =>
    match v.fraction with
    | none => x
    | some f =>
      let n := Float.ofNat (v.whole + if up v f then 1 else 0)
      if v.negative then -n else n
  | _ => x

/-- The greatest integer not above `x`. -/
def floor : Float → Float := roundWith fun v _ => v.negative

/-- The least integer not below `x`. -/
def ceil : Float → Float := roundWith fun v _ => !v.negative

/-- The nearest integer; a half goes away from zero. -/
def roundHalfAway : Float → Float := roundWith fun _ f => f != .lt

/-- Holds an integer within `low` and `high`. -/
def clamp (low high n : Int) : Int := max low (min high n)

/-- The least and the greatest signed integer of sixty-four bits. -/
def int64Min : Int := -9223372036854775808

/-- The greatest signed integer of sixty-four bits. -/
def int64Max : Int := 9223372036854775807

/-- Holds an integer within sixty-four bits. -/
def clamp64 (n : Int) : Int := clamp int64Min int64Max n

/-- The integer part of `x`, held between `low` and `high`; zero when `x` is no number. -/
def toIntWithin (low high : Int) (x : Float) : Int :=
  match Value.ofFloat x with
  | .finite v => clamp low high v.truncate
  | .infinite negative => if negative then low else high
  | .notANumber => 0

/-- The integer part of `x`, held within sixty-four bits. -/
def toInt64 : Float → Int := toIntWithin int64Min int64Max

/-- The nearest double of an integer. -/
def ofInt (n : Int) : Float := if n < 0 then -Float.ofNat n.natAbs else Float.ofNat n.natAbs

/-- `base ^ exponent` by repeated squaring. -/
def powNat (base : Float) (exponent : Nat) : Float :=
  go exponent base exponent 1.0
where
  /-- Squares `base` once per binary digit of `n` and multiplies where the digit is one. -/
  go : Nat → Float → Nat → Float → Float
    | 0, _, _, result => result
    | fuel + 1, base, n, result =>
      let result := if n % 2 = 1 then result * base else result
      if n / 2 = 0 then result else go fuel (base * base) (n / 2) result

/-- `base ^ exponent`; a negative power is the reciprocal of the positive one. -/
def powInt (base : Float) (exponent : Int) : Float :=
  let power := powNat base exponent.natAbs
  if exponent < 0 then 1.0 / power else power

end LogSearch.Number
