import LogSearch.Number.Read
import LogSearch.Query.Token
import LogSearch.Text.Blank
import LogSearch.Text.Bytes

/-!
# Reading a text as tokens

The text is cut into lexemes: blanks, comments, tokens and faults. What a lexeme is depends on its
place: on the segment, and on whether a blank or nothing stands before it.

* `scan`: the lexeme that starts at a character.
* `lexemes`: all lexemes of a text; `text_lexemes` says that together they are the text.
* `tokenize`: the tokens, with the end of input as the last one, and the faults.
-/

namespace LogSearch.Query

open Text (isBlank byteLength)

/-- What can be wrong with a lexeme. -/
inductive LexFault
  | loneAmpersand
  | unterminatedString
  | unterminatedBacktick
  /-- A character that nothing starts with. -/
  | unexpectedCharacter (c : Char)
deriving DecidableEq, Repr

/-- The wording of a fault. -/
def LexFault.message : LexFault → String
  | loneAmpersand => "unexpected character '&' (did you mean '&&'?)"
  | unterminatedString => "unterminated string literal"
  | unterminatedBacktick => "unterminated backtick literal"
  | unexpectedCharacter c => "unexpected character '" ++ String.singleton c ++ "'"

/-- What a lexeme is. -/
inductive Piece
  | blank
  | comment
  | token (kind : TokenKind)
  | fault (fault : LexFault)
deriving DecidableEq

/-- What is known before a lexeme. -/
structure Place where
  segment : Segment
  /-- Whether a blank or nothing stands before. -/
  fresh : Bool
deriving DecidableEq

/-- The place at the start of a text. -/
def Place.initial : Place := ⟨.search, true⟩

/-- A lexeme's piece and how many characters it takes after its first. -/
structure Scan where
  piece : Piece
  extra : Nat

/-! ## Words -/

/-- Whether `c`, standing before `next`, may continue a word. -/
def continuesWord (s : Segment) (c : Char) (next : Option Char) : Bool :=
  !isBlank c && !"|()\"`=".toList.contains c
    && !(c = '!' && next = some '=')
    && !(c = ',' && s ≠ .search)
    && !(s.hasOperators && "+-*/><&![]".toList.contains c)

/-- Number of characters that continue a word. -/
def wordLength (s : Segment) : List Char → Nat
  | [] => 0
  | c :: rest => if continuesWord s c rest.head? then wordLength s rest + 1 else 0

/-- Whether a word is a number: digits, or digits, a point and digits. -/
def isNumeral (word : List Char) : Bool :=
  let whole := word.takeWhile Number.isDigit
  match word.dropWhile Number.isDigit with
  | [] => !whole.isEmpty
  | '.' :: fraction => !whole.isEmpty && !fraction.isEmpty && fraction.all Number.isDigit
  | _ => false

/-- The number that a numeral writes. -/
def numeralValue (word : List Char) : Float := (Number.readFloat? word).getD 0.0

/-- The token that a whole word is in a segment. -/
def wordKind (s : Segment) (word : List Char) : TokenKind :=
  let text := String.ofList word
  match s with
  | .opening =>
    match Command.ofName? text with
    | some c => .command c
    | none => .word text
  | _ =>
    match s.keyword? text with
    | some k => .keyword k
    | none => if isNumeral word then .number (numeralValue word) else .word text

/-! ## Symbols -/

/-- The symbol that starts at `c`, which stands before `next`. -/
def symbol? (s : Segment) (c : Char) (next : Option Char) : Option Symbol :=
  let ops := s.hasOperators
  let pair (second : Char) : Bool := next = some second
  match c with
  | '|' => some (if ops && pair '|' then .orOr else .pipe)
  | '(' => some .leftParen
  | ')' => some .rightParen
  | ',' => if s ≠ .search then some .comma else none
  | '!' => if pair '=' then some .notEqual else if ops then some .bang else none
  | '=' => some (if ops && pair '=' then .doubleEqual else .equal)
  | '>' => if ops then some (if pair '=' then .greaterEqual else .greater) else none
  | '<' => if ops then some (if pair '=' then .lessEqual else .less) else none
  | '+' => if ops then some .plus else none
  | '-' => if ops then some .minus else none
  | '*' => if ops then some .star else none
  | '/' => if ops then some .slash else none
  | '&' => if ops && pair '&' then some .andAnd else none
  | '[' => if ops then some .leftBracket else none
  | ']' => if ops then some .rightBracket else none
  | _ => none

/-! ## Quoted texts and comments -/

/-- The character that an escape stands for. -/
def escaped? : Char → Option Char
  | 'n' => some '\n'
  | 't' => some '\t'
  | '"' => some '"'
  | '\\' => some '\\'
  | _ => none

/-- The text up to the closing quote, and how many characters it takes with the quote; an unknown
escape keeps its backslash. -/
def quotedText? : List Char → Option (List Char × Nat)
  | [] => none
  | '"' :: _ => some ([], 1)
  | ['\\'] => none
  | '\\' :: c :: rest =>
    let value := match escaped? c with
      | some e => [e]
      | none => ['\\', c]
    (quotedText? rest).map fun (text, n) => (value ++ text, n + 2)
  | c :: rest => (quotedText? rest).map fun (text, n) => (c :: text, n + 1)

/-- The lexeme after an opening quote. -/
def scanQuoted (rest : List Char) : Scan :=
  match quotedText? rest with
  | some (text, n) => ⟨.token (.quoted (String.ofList text)), n⟩
  | none => ⟨.fault .unterminatedString, rest.length⟩

/-- The lexeme after an opening backtick; no escapes exist inside. -/
def scanBacktick (rest : List Char) : Scan :=
  let text := rest.takeWhile (· ≠ '\x60')
  if text.length < rest.length then ⟨.token (.backtick (String.ofList text)), text.length + 1⟩
  else ⟨.fault .unterminatedBacktick, rest.length⟩

/-- Characters of a comment after its first; the line break belongs to it. -/
def commentLength (rest : List Char) : Nat :=
  let line := rest.takeWhile (· ≠ '\n')
  if line.length < rest.length then line.length + 1 else rest.length

/-! ## Lexemes -/

/-- The word that starts with `c`, as long as it goes; where none does, `c` is at fault. -/
def scanWord (s : Segment) (c : Char) (rest : List Char) : Scan :=
  match wordLength s (c :: rest) with
  | 0 => ⟨.fault (.unexpectedCharacter c), 0⟩
  | n + 1 => ⟨.token (wordKind s (c :: rest.take n)), n⟩

/-- The lexeme that starts with `c` at a place. -/
def scan (p : Place) (c : Char) (rest : List Char) : Scan :=
  if isBlank c then ⟨.blank, 0⟩
  else if c = '/' ∧ rest.head? = some '/' ∧ p.fresh then ⟨.comment, commentLength rest⟩
  else if c = '"' then scanQuoted rest
  else if c = '\x60' then scanBacktick rest
  else
    match symbol? p.segment c rest.head? with
    | some s => ⟨.token (.symbol s), s.text.length - 1⟩
    | none =>
      if c = '&' ∧ p.segment.hasOperators then ⟨.fault .loneAmpersand, 0⟩
      else scanWord p.segment c rest

/-- A lexeme, where it starts and how it is written. -/
structure Lexeme where
  piece : Piece
  start : Nat
  text : List Char
deriving DecidableEq

namespace Lexeme

/-- The byte positions of a lexeme. -/
def span (l : Lexeme) : Span := ⟨l.start, l.start + byteLength l.text⟩

/-- The token of a lexeme that is one. -/
def token? (l : Lexeme) : Option Token :=
  match l.piece with
  | .token kind => some ⟨kind, l.span, String.ofList l.text⟩
  | _ => none

/-- The fault of a lexeme that is one. -/
def fault? (l : Lexeme) : Option (LexFault × Span) :=
  match l.piece with
  | .fault f => some (f, l.span)
  | _ => none

end Lexeme

/-- The place after a lexeme. -/
def Place.after (p : Place) (piece : Piece) (text : List Char) : Place :=
  { segment := match piece with
      | .token kind => p.segment.after kind
      | _ => p.segment
    fresh := text.getLast?.all isBlank }

/-- The lexemes of a text that stands at byte `start`, after its first `skip` characters. -/
def lexemesFrom (p : Place) (start : Nat) : Nat → List Char → List Lexeme
  | _, [] => []
  | skip + 1, _ :: rest => lexemesFrom p start skip rest
  | 0, c :: rest =>
    let s := scan p c rest
    let text := c :: rest.take s.extra
    ⟨s.piece, start, text⟩
      :: lexemesFrom (p.after s.piece text) (start + byteLength text) s.extra rest

/-- The lexemes of a text. -/
def lexemes (text : List Char) : List Lexeme := lexemesFrom .initial 0 0 text

/-- Lexemes tile what is left of the text. -/
theorem text_lexemesFrom (p : Place) (start skip : Nat) (text : List Char) :
    (lexemesFrom p start skip text).flatMap Lexeme.text = text.drop skip := by
  induction text generalizing p start skip with
  | nil => simp [lexemesFrom]
  | cons c rest ih =>
    cases skip with
    | succ skip => simp [lexemesFrom, ih]
    | zero => simp [lexemesFrom, ih]

/-- Lexemes tile the text. -/
theorem text_lexemes (text : List Char) : (lexemes text).flatMap Lexeme.text = text := by
  simp [lexemes, text_lexemesFrom]

/-- The tokens and the faults of a text. -/
structure Tokens where
  /-- The tokens, the last one being the end of input. -/
  tokens : List Token
  faults : List (LexFault × Span)

/-- Reads a text as tokens. -/
def tokenize (text : String) : Tokens :=
  let chars := text.toList
  let all := lexemes chars
  let stop := byteLength chars
  { tokens := all.filterMap Lexeme.token? ++ [⟨.endOfInput, ⟨stop, stop⟩, ""⟩]
    faults := all.filterMap Lexeme.fault? }

end LogSearch.Query
