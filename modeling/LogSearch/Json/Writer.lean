import LogSearch.Json.Value
import LogSearch.Number.Text
import LogSearch.Text.Search

/-!
# Writing JSON

* `Json.escape`: a text between quotes; only `"`, the backslash and control characters are escaped.
* `Json.compact`: no blanks at all.
* `Json.pretty`: one member or item a line, two blanks a level.
-/

namespace LogSearch.Json

/-- A lower-case hexadecimal digit. -/
def hexDigit (n : Nat) : Char := Nat.digitChar (n % 16)

/-- The written form of one character of a string. -/
def escapeChar (c : Char) : List Char :=
  if c = '"' then ['\\', '"']
  else if c = '\\' then ['\\', '\\']
  else if c = '\n' then ['\\', 'n']
  else if c = '\r' then ['\\', 'r']
  else if c = '\t' then ['\\', 't']
  else if c = '\x08' then ['\\', 'b']
  else if c = '\x0c' then ['\\', 'f']
  else if c.toNat < 0x20 then
    ['\\', 'u', '0', '0', hexDigit (c.toNat / 16), hexDigit c.toNat]
  else [c]

/-- A text between quotes. -/
def escape (s : String) : String := String.ofList ('"' :: s.toList.flatMap escapeChar ++ ['"'])

/-- A number that is no integer; JSON has no infinities and no NaN. -/
def realText (x : Float) : String := (Number.jsonText? x).getD "null"

mutual
/-- The value without blanks. -/
def compact : Json → String
  | null => "null"
  | bool value => if value then "true" else "false"
  | integer value => toString value
  | real value => realText value
  | string value => escape value
  | array items => "[" ++ Text.join "," (compactItems items) ++ "]"
  | object members => "\x7b" ++ Text.join "," (compactMembers members) ++ "\x7d"

/-- The items of an array without blanks. -/
def compactItems : List Json → List String
  | [] => []
  | item :: items => compact item :: compactItems items

/-- The members of an object without blanks. -/
def compactMembers : List (String × Json) → List String
  | [] => []
  | (key, value) :: members => (escape key ++ ":" ++ compact value) :: compactMembers members
end

/-- A line break and the indent of a level. -/
def newline (level : Nat) : String :=
  String.ofList ('\n' :: List.replicate (2 * level) ' ')

mutual
/-- The value in lines, inside `level` levels. -/
def prettyAt (level : Nat) : Json → String
  | array [] => "[]"
  | array (item :: items) =>
    "[" ++ newline (level + 1)
      ++ Text.join ("," ++ newline (level + 1)) (prettyItems (level + 1) (item :: items))
      ++ newline level ++ "]"
  | object [] => "\x7b\x7d"
  | object (member :: members) =>
    "\x7b" ++ newline (level + 1)
      ++ Text.join ("," ++ newline (level + 1)) (prettyMembers (level + 1) (member :: members))
      ++ newline level ++ "\x7d"
  | null => "null"
  | bool value => if value then "true" else "false"
  | integer value => toString value
  | real value => realText value
  | string value => escape value

/-- The items of an array in lines. -/
def prettyItems (level : Nat) : List Json → List String
  | [] => []
  | item :: items => prettyAt level item :: prettyItems level items

/-- The members of an object in lines. -/
def prettyMembers (level : Nat) : List (String × Json) → List String
  | [] => []
  | (key, value) :: members =>
    (escape key ++ ": " ++ prettyAt level value) :: prettyMembers level members
end

/-- The value in lines. -/
def pretty (value : Json) : String := prettyAt 0 value

end LogSearch.Json
