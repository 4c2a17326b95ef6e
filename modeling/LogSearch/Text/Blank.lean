/-!
# Blank characters

The characters with the Unicode property `White_Space`, and the trimming that goes with them.

* `isBlank c`: `c` is one of the twenty-five blank characters.
* `trim cs`: `cs` without the blanks at either end.
-/

namespace LogSearch.Text

/-- Blank characters, as the inclusive code point ranges of the property `White_Space`. -/
def blankRanges : List (Nat × Nat) :=
  [(0x09, 0x0D), (0x20, 0x20), (0x85, 0x85), (0xA0, 0xA0), (0x1680, 0x1680), (0x2000, 0x200A),
    (0x2028, 0x2029), (0x202F, 0x202F), (0x205F, 0x205F), (0x3000, 0x3000)]

/-- Whether `n` lies in one of the inclusive ranges. -/
def inRanges (ranges : List (Nat × Nat)) (n : Nat) : Bool :=
  ranges.any fun r => r.1 ≤ n && n ≤ r.2

/-- Whether `c` is white space. -/
def isBlank (c : Char) : Bool := inRanges blankRanges c.toNat

/-- `cs` without its leading blanks. -/
def trimLeft (cs : List Char) : List Char := cs.dropWhile isBlank

/-- `cs` without its trailing blanks. -/
def trimRight (cs : List Char) : List Char := (cs.reverse.dropWhile isBlank).reverse

/-- `cs` without the blanks at either end. -/
def trim (cs : List Char) : List Char := trimRight (trimLeft cs)

/-- `s` without the blanks at either end. -/
def trimText (s : String) : String := String.ofList (trim s.toList)

end LogSearch.Text
