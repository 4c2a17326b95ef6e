import LogSearch.Regex.CategoryTable
import LogSearch.Regex.FoldingTable
import LogSearch.Text.Blank

/-!
# Sets of code points

A set of code points is an ascending list of inclusive ranges that do not touch.

* `CodeSet.ofRanges`: the set that ranges in any order make up.
* `union`, `complement`, `intersect`, `difference`, `symmetricDifference`.
* `foldClosure`: the set with all characters that differ in case only.
* `digits`, `wordCharacters`, `blanks`, `category?`: the sets that a pattern can name.
-/

namespace LogSearch.Regex

/-- Ascending inclusive ranges that do not touch. -/
abbrev CodeSet := List (Nat × Nat)

namespace CodeSet

/-- The greatest code point. -/
def maxCode : Nat := 0x10FFFF

/-- Joins ranges, in ascending order of their starts, that overlap or touch. -/
def merge : List (Nat × Nat) → CodeSet
  | [] => []
  | r :: rest => go r rest
where
  /-- Extends the current range or starts the next one. -/
  go (current : Nat × Nat) : List (Nat × Nat) → CodeSet
    | [] => [current]
    | r :: rest =>
      if r.1 ≤ current.2 + 1 then go (current.1, max current.2 r.2) rest
      else current :: go r rest

/-- The set that ranges make up. -/
def ofRanges (ranges : List (Nat × Nat)) : CodeSet :=
  merge (ranges.mergeSort fun a b => a.1 ≤ b.1)

/-- The set of one code point. -/
def single (n : Nat) : CodeSet := [(n, n)]

/-- Whether a set holds a code point. -/
def holds (s : CodeSet) (n : Nat) : Bool := Text.inRanges s n

/-- What is in either set. -/
def union (a b : CodeSet) : CodeSet := ofRanges (a ++ b)

/-- What is not in a set. -/
def complement (s : CodeSet) : CodeSet := go 0 s
where
  /-- The gaps from `start` on. -/
  go (start : Nat) : List (Nat × Nat) → CodeSet
    | [] => if start ≤ maxCode then [(start, maxCode)] else []
    | (first, last) :: rest =>
      if start < first then (start, first - 1) :: go (last + 1) rest else go (last + 1) rest

/-- What is in both sets. -/
def intersect (a b : CodeSet) : CodeSet := complement (union (complement a) (complement b))

/-- What is in the first set only. -/
def difference (a b : CodeSet) : CodeSet := intersect a (complement b)

/-- What is in exactly one of the sets. -/
def symmetricDifference (a b : CodeSet) : CodeSet := difference (union a b) (intersect a b)

/-! ## Case -/

/-- Every code point that folds to another, with the one it folds to. -/
def foldingPairs : List (Nat × Nat) :=
  foldingRuns.flatMap fun (first, last, step, shift) =>
    (List.range ((last - first) / step + 1)).map fun i =>
      (first + i * step, ((first + i * step : Nat) + shift).toNat)

/-- The set with all code points that fold to the same as one of its members; `ascii` restricts
the folding to ASCII. -/
def foldClosure (ascii : Bool) (s : CodeSet) : CodeSet :=
  let pairs := if ascii then foldingPairs.filter fun p => p.1 < 128 && p.2 < 128 else foldingPairs
  let hit := (pairs.filter fun p => s.holds p.1 || s.holds p.2).map Prod.snd
  let added := pairs.filter fun p => hit.contains p.2
  ofRanges (s ++ added.map (fun p => (p.1, p.1)) ++ hit.map fun f => (f, f))

/-! ## Named sets -/

/-- The value of hexadecimal digits. -/
def hexValue (cs : List Char) : Nat :=
  cs.foldl (fun n c => 16 * n + (if c.isDigit then c.toNat - 48 else c.toNat - 87)) 0

/-- The ranges that the entries of a table write, the last range having ended before `start`. -/
def decodeEntries (start : Nat) : List (List Char) → CodeSet
  | [] => []
  | entry :: rest =>
    let gap := entry.takeWhile (· ≠ '+')
    let first := start + hexValue gap
    let last := first + hexValue (entry.drop (gap.length + 1))
    (first, last) :: decodeEntries (last + 1) rest

/-- The set that a table writes. -/
def decode (lines : List String) : CodeSet :=
  decodeEntries 0 (lines.flatMap fun line => line.toList.splitOn ' ')

/-- All categories whose name begins with `name`. -/
def ofCategory (name : String) : CodeSet :=
  ofRanges ((Category.tables.filter fun t => name.toList.isPrefixOf t.1.toList).flatMap
    fun t => decode t.2)

/-- Decimal digits. -/
def digits : CodeSet := ofCategory "Nd"

/-- White space. -/
def blanks : CodeSet := Text.blankRanges

/-- Letters: the letters of all categories, letter numbers and enclosed letters. -/
def alphabetic : CodeSet :=
  ofRanges (ofCategory "L" ++ ofCategory "Nl"
    ++ [(0x24B6, 0x24E9), (0x1F130, 0x1F149), (0x1F150, 0x1F169), (0x1F170, 0x1F189)])

/-- Characters of words: letters, marks, digits, connectors and the two joiners. -/
def wordCharacters : CodeSet :=
  ofRanges (alphabetic ++ ofCategory "M" ++ digits ++ ofCategory "Pc" ++ [(0x200C, 0x200D)])

/-- Characters of words within ASCII. -/
def asciiWordCharacters : CodeSet := [(48, 57), (65, 90), (95, 95), (97, 122)]

/-- ASCII digits. -/
def asciiDigits : CodeSet := [(48, 57)]

/-- White space within ASCII. -/
def asciiBlanks : CodeSet := [(9, 13), (32, 32)]

/-- The sets in brackets with colons, all within ASCII. -/
def posix? : String → Option CodeSet
  | "alnum" => some [(48, 57), (65, 90), (97, 122)]
  | "alpha" => some [(65, 90), (97, 122)]
  | "ascii" => some [(0, 127)]
  | "blank" => some [(9, 9), (32, 32)]
  | "cntrl" => some [(0, 31), (127, 127)]
  | "digit" => some [(48, 57)]
  | "graph" => some [(33, 126)]
  | "lower" => some [(97, 122)]
  | "print" => some [(32, 126)]
  | "punct" => some [(33, 47), (58, 64), (91, 96), (123, 126)]
  | "space" => some [(9, 13), (32, 32)]
  | "upper" => some [(65, 90)]
  | "word" => some asciiWordCharacters
  | "xdigit" => some [(48, 57), (65, 70), (97, 102)]
  | _ => none

/-- The long names of categories, and the short names that they stand for. -/
def categoryNames : List (String × String) :=
  [("letter", "L"), ("uppercaseletter", "Lu"), ("lowercaseletter", "Ll"), ("titlecaseletter", "Lt"),
    ("modifierletter", "Lm"), ("otherletter", "Lo"), ("mark", "M"), ("combiningmark", "M"),
    ("nonspacingmark", "Mn"), ("spacingmark", "Mc"), ("enclosingmark", "Me"), ("number", "N"),
    ("decimalnumber", "Nd"), ("digit", "Nd"), ("letternumber", "Nl"), ("othernumber", "No"),
    ("punctuation", "P"), ("punct", "P"), ("connectorpunctuation", "Pc"), ("dashpunctuation", "Pd"),
    ("openpunctuation", "Ps"), ("closepunctuation", "Pe"), ("initialpunctuation", "Pi"),
    ("finalpunctuation", "Pf"), ("otherpunctuation", "Po"), ("symbol", "S"), ("mathsymbol", "Sm"),
    ("currencysymbol", "Sc"), ("modifiersymbol", "Sk"), ("othersymbol", "So"), ("separator", "Z"),
    ("spaceseparator", "Zs"), ("lineseparator", "Zl"), ("paragraphseparator", "Zp"),
    ("control", "Cc"), ("cntrl", "Cc"), ("format", "Cf"), ("privateuse", "Co")]

/-- A name of a set without case, blanks, hyphens, underscores and a leading `is`. -/
def looseName (name : String) : String :=
  let cs := (name.toList.filter fun c => c ≠ ' ' && c ≠ '_' && c ≠ '-').map Char.toLower
  match cs with
  | 'i' :: 's' :: rest => String.ofList (if rest.isEmpty then cs else rest)
  | _ => String.ofList cs

/-- The set that a name stands for: a general category, or one of a few others. -/
def category? (name : String) : Option CodeSet :=
  let loose := looseName name
  let short := (categoryNames.lookup loose).getD loose
  match loose with
  | "any" => some [(0, maxCode)]
  | "ascii" => some [(0, 127)]
  | "alphabetic" | "alpha" => some alphabetic
  | "whitespace" | "wspace" | "space" => some blanks
  | "uppercase" | "upper" => some (ofCategory "Lu")
  | "lowercase" | "lower" => some (ofCategory "Ll")
  | _ =>
    match (Category.tables.filter fun t =>
        short.toList.isPrefixOf (t.1.toList.map Char.toLower)
          || short.toList.isPrefixOf t.1.toList) with
    | [] => none
    | tables => if short.isEmpty then none else some (ofRanges (tables.flatMap fun t => decode t.2))

end CodeSet

end LogSearch.Regex
