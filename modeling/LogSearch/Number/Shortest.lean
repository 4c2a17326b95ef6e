import LogSearch.Number.Binary64

/-!
# The shortest decimal that reads back

Every double is the nearest double of all decimals in an interval around it. The decimal with the
fewest digits in that interval lies on the coarsest grid `10 ^ t` that meets it; of the two grid
points next to the value the nearer is taken.

* `Interval`: the decimals that read back as a given double, as one scaled fraction.
* `shortest`: digits and power of ten of the shortest decimal.
-/

namespace LogSearch.Number

/-- What to do with a value half-way between two shortest decimals. -/
inductive Tie
  /-- Away from zero. -/
  | up
  /-- To the even digit. -/
  | even
deriving DecidableEq, Repr

/-- A decimal `digits · 10 ^ exponent`. -/
structure Decimal where
  digits : Nat
  exponent : Int
deriving DecidableEq, Repr

/-- The decimals that read back as a double: `low`, `value` and `high` over `unit`. -/
structure Interval where
  low : Nat
  value : Nat
  high : Nat
  unit : Nat
  /-- Whether the ends belong to the interval. -/
  closed : Bool

/-- The interval of a positive finite double. Below a power of two the neighbour is half as far. -/
def Interval.ofFinite (v : Finite) : Interval :=
  let below := if v.mantissa = hiddenBit ∧ v.exponent ≠ -1074 then 1 else 2
  let scale := Nat.pow 2 v.exponent.toNat
  { low := (4 * v.mantissa - below) * scale
    value := 4 * v.mantissa * scale
    high := (4 * v.mantissa + 2) * scale
    unit := 4 * Nat.pow 2 (-v.exponent).toNat
    closed := v.mantissa % 2 = 0 }

namespace Interval

/-- Whether `n · step` lies in the interval, where the interval is measured in `scale`. -/
def holds (i : Interval) (scale step n : Nat) : Bool :=
  let point := n * step
  if i.closed then i.low * scale ≤ point && point ≤ i.high * scale
  else i.low * scale < point && point < i.high * scale

/-- The multiple of `10 ^ t` in the interval that is next to the value, if there is one. -/
def onGrid? (i : Interval) (tie : Tie) (t : Int) : Option Nat :=
  let scale := Nat.pow 10 (-t).toNat
  let step := i.unit * Nat.pow 10 t.toNat
  let below := i.value * scale / step
  let rest := i.value * scale % step
  let above := below + 1
  match i.holds scale step below, i.holds scale step above with
  | false, false => none
  | true, false => some below
  | false, true => some above
  | true, true =>
    match compare (2 * rest) step with
    | .lt => some below
    | .gt => some above
    | .eq =>
      match tie with
      | .up => some above
      | .even => some (if below % 2 = 0 then below else above)

/-- The first grid from `10 ^ t` down that meets the interval. -/
def coarsest (i : Interval) (tie : Tie) : Nat → Int → Decimal
  | 0, t => ⟨i.value * Nat.pow 10 (-t).toNat / (i.unit * Nat.pow 10 t.toNat), t⟩
  | fuel + 1, t =>
    match i.onGrid? tie t with
    | some n => ⟨n, t⟩
    | none => i.coarsest tie fuel (t - 1)

end Interval

/-- A power of ten above a positive finite double. -/
def Finite.decimalBound (v : Finite) : Int :=
  (v.exponent + (v.mantissa.log2 : Int) + 1) * 30103 / 100000 + 1

/-- The shortest decimal that reads back as a positive finite double. Seventeen digits always do,
and the search starts at most two powers of ten above the first digit. -/
def shortest (tie : Tie) (v : Finite) : Decimal :=
  (Interval.ofFinite v).coarsest tie 20 v.decimalBound

end LogSearch.Number
