import LogSearch.Number.Shortest

/-!
# Written numbers

Two layouts of the shortest decimal: plain text, which never has an exponent, and the layout of
JSON, which has one outside a range of magnitudes.

* `plainText`: `1`, `2.5`, `-0`, `NaN`, `inf`.
* `jsonText?`: `1.0`, `2.5`, `1e16`; nothing for a number that JSON does not have.
-/

namespace LogSearch.Number

/-- Decimal digits of a natural number. -/
def digitsOf (n : Nat) : List Char := Nat.toDigits 10 n

/-- `digits · 10 ^ exponent` with a point and no exponent, `fraction` standing for an empty
fraction. -/
def positional (fraction : String) (d : Decimal) : String :=
  let digits := digitsOf d.digits
  if 0 ≤ d.exponent then
    String.ofList (digits ++ List.replicate d.exponent.toNat '0') ++ fraction
  else
    let places := (-d.exponent).toNat
    let padded := List.replicate (places + 1 - digits.length) '0' ++ digits
    let whole := padded.take (padded.length - places)
    String.ofList whole ++ "." ++ String.ofList (padded.drop (padded.length - places))

/-- `d.ddde±x`: one digit before the point and the power of ten after an `e`. -/
def scientific (d : Decimal) : String :=
  match digitsOf d.digits with
  | [] => ""
  | first :: rest =>
    let power := d.exponent + rest.length
    let fraction := if rest.isEmpty then "" else "." ++ String.ofList rest
    let sign := if power < 0 then "-" else "+"
    String.singleton first ++ fraction ++ "e" ++ sign ++ toString power.natAbs

/-- Plain text: the shortest decimal without exponent; a value half-way goes up. -/
def plainText (x : Float) : String :=
  match Value.ofFloat x with
  | .notANumber => "NaN"
  | .infinite negative => if negative then "-inf" else "inf"
  | .finite v =>
    let sign := if v.negative then "-" else ""
    if v.mantissa = 0 then sign ++ "0" else sign ++ positional "" (shortest .up v)

/-- The layout of JSON: positional with a fraction where the power of ten of the first digit is at
least `-5` and below `16`, otherwise with an exponent; a value half-way goes to the even digit. -/
def jsonText? (x : Float) : Option String :=
  match Value.ofFloat x with
  | .finite v =>
    let sign := if v.negative then "-" else ""
    if v.mantissa = 0 then some (sign ++ "0.0")
    else
      let d := shortest .even v
      let power := d.exponent + ((digitsOf d.digits).length : Int) - 1
      some (sign ++ if -5 ≤ power ∧ power < 16 then positional ".0" d else scientific d)
  | _ => none

end LogSearch.Number
