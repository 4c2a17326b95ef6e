import LogSearch.Text.Blank
import LogSearch.Text.CaseTable

/-!
# Lower and upper case

* `lowerCase`: the lower case of a text; a capital sigma at the end of a word becomes a final one.
* `upperCase`: the upper case of a text.
-/

namespace LogSearch.Text

/-- The code point to which the runs map `n`, if one of them holds it. -/
def mapByRuns? (runs : List CaseRun) (n : Nat) : Option Nat :=
  runs.findSome? fun (first, last, step, shift) =>
    if first ≤ n ∧ n ≤ last ∧ (n - first) % step = 0 then some ((n : Int) + shift).toNat else none

/-- The code points to which a mapping takes `n`. -/
def mapCode (special : List (Nat × List Nat)) (runs : List CaseRun) (n : Nat) : List Nat :=
  match special.lookup n with
  | some codes => codes
  | none => [(mapByRuns? runs n).getD n]

/-- The characters to which a mapping takes `c`. -/
def mapChar (special : List (Nat × List Nat)) (runs : List CaseRun) (c : Char) : List Char :=
  (mapCode special runs c.toNat).map Char.ofNat

/-- The lower case of a character on its own. -/
def lowerChar (c : Char) : List Char :=
  if c.toNat < 0x80 then [c.toLower] else mapChar lowerSpecial lowerRuns c

/-- The upper case of a character. -/
def upperChar (c : Char) : List Char :=
  if c.toNat < 0x80 then [c.toUpper] else mapChar upperSpecial upperRuns c

/-- Whether, after characters that do not separate letters, a letter with case follows. -/
def casedFollows (cs : List Char) : Bool :=
  match cs.dropWhile fun c => inRanges ignorableRanges c.toNat with
  | [] => false
  | c :: _ => inRanges casedRanges c.toNat

/-- The capital sigma. -/
def capitalSigma : Char := Char.ofNat 0x3A3

/-- The lower case of `cs`, where `before` is the text before it, last character first. -/
def lowerAfter (before : List Char) : List Char → List Char
  | [] => []
  | c :: rest =>
    let mapped :=
      if c = capitalSigma then
        [Char.ofNat (if casedFollows before && !casedFollows rest then 0x3C2 else 0x3C3)]
      else lowerChar c
    mapped ++ lowerAfter (c :: before) rest

/-- The lower case of a text. -/
def lowerCase (s : String) : String := String.ofList (lowerAfter [] s.toList)

/-- The upper case of a text. -/
def upperCase (s : String) : String := String.ofList (s.toList.flatMap upperChar)

end LogSearch.Text
