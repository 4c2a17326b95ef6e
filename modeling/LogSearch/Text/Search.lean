/-!
# Texts inside texts

* `startsWith`, `endsWith`, `contains`: whether one text begins, ends or lies within another.
* `splitOn`: the parts of a text between the occurrences of a character.
-/

namespace LogSearch.Text

/-- Whether `s` begins with `part`. -/
def startsWith (s part : String) : Bool := part.toList.isPrefixOf s.toList

/-- Whether `s` ends with `part`. -/
def endsWith (s part : String) : Bool := part.toList.isSuffixOf s.toList

/-- Whether `part` lies within `cs`. -/
def holdsPart (part : List Char) : List Char → Bool
  | [] => part.isEmpty
  | c :: cs => part.isPrefixOf (c :: cs) || holdsPart part cs

/-- Whether `part` lies within `s`. -/
def contains (s part : String) : Bool := holdsPart part.toList s.toList

/-- The parts of `cs` between the occurrences of `separator`. -/
def splitOn (separator : Char) : List Char → List (List Char)
  | [] => [[]]
  | c :: cs =>
    if c = separator then [] :: splitOn separator cs
    else
      match splitOn separator cs with
      | [] => [[c]]
      | part :: parts => (c :: part) :: parts

/-- Texts with `separator` between them. -/
def join (separator : String) : List String → String
  | [] => ""
  | [s] => s
  | s :: rest => s ++ separator ++ join separator rest

end LogSearch.Text
