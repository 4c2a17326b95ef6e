import LogSearch.Number.Read
import LogSearch.Regex.Pattern

/-!
# Reading patterns

* `Pattern.read`: a pattern and the names of its groups, or what is wrong with the text.
* `PatternFault.message`: the wording of what is wrong.

A pattern has alternatives `a|b`, sequences, repetitions (`*`, `+`, `?`, counted, each lazy with a
further `?`), groups that capture or not, options such as `(?i)`, sets in brackets with operations,
escapes, named sets and anchors.
-/

namespace LogSearch.Regex

/-- What can be wrong with a pattern. -/
inductive PatternFault
  | unclosedGroup
  | unopenedGroup
  | emptyGroupName
  | badGroupName
  | duplicateGroupName (name : String)
  | unknownFlag
  | repeatedFlag
  | danglingNegation
  | lookAround
  | nothingToRepeat
  | badCount
  | unclosedCount
  | unclosedSet
  | badRange
  | unknownEscape
  | badEscape
  | backreference
  | unknownSet
  | notText
  | tooDeep
  | tooLarge
deriving DecidableEq, Repr

/-- The wording of a fault. -/
def PatternFault.message : PatternFault → String
  | unclosedGroup => "unclosed group"
  | unopenedGroup => "unopened group"
  | emptyGroupName => "empty capture group name"
  | badGroupName => "invalid capture group character"
  | duplicateGroupName name => "duplicate capture group name '" ++ name ++ "'"
  | unknownFlag => "unrecognized flag"
  | repeatedFlag => "duplicate flag"
  | danglingNegation => "dangling flag negation operator"
  | lookAround => "look-around is not supported"
  | nothingToRepeat => "repetition operator missing expression"
  | badCount => "invalid repetition count"
  | unclosedCount => "unclosed counted repetition"
  | unclosedSet => "unclosed character class"
  | badRange => "invalid character class range"
  | unknownEscape => "unrecognized escape sequence"
  | badEscape => "invalid escape sequence"
  | backreference => "backreferences are not supported"
  | unknownSet => "character class not found"
  | notText => "pattern can match text that is not valid"
  | tooDeep => "pattern is nested too deeply"
  | tooLarge => "pattern is too large"

/-- Options in force. -/
structure Flags where
  ignoreCase : Bool := false
  multiLine : Bool := false
  dotAll : Bool := false
  swapGreed : Bool := false
  unicode : Bool := true
  crlf : Bool := false
  verbose : Bool := false
deriving DecidableEq, Repr

/-- What is left to read, the options in force and the groups seen. -/
structure ReadState where
  rest : List Char
  flags : Flags
  /-- Number of the next group. -/
  nextGroup : Nat
  names : List (String × Nat)

/-- A step of reading. -/
abbrev Read (α : Type) := StateT ReadState (Except PatternFault) α

namespace Read

/-- How deep groups and sets may nest. -/
def maxDepth : Nat := 250

/-- The characters left. -/
def rest : Read (List Char) := return (← get).rest

/-- Continues with `cs`. -/
def continueWith (cs : List Char) : Read Unit := modify fun s => { s with rest := cs }

/-- The options in force. -/
def flags : Read Flags := return (← get).flags

/-- Puts options in force. -/
def setFlags (f : Flags) : Read Unit := modify fun s => { s with flags := f }

/-- Text after blanks and comments. -/
def afterSpace : Nat → List Char → List Char
  | 0, cs => cs
  | _ + 1, [] => []
  | fuel + 1, c :: cs =>
    if Text.isBlank c then afterSpace fuel cs
    else if c = '#' then afterSpace fuel (cs.dropWhile (· ≠ '\n'))
    else c :: cs

/-- Skips blanks and comments where the options ask for it. -/
def skipSpace : Read Unit := do
  if (← flags).verbose then
    let cs ← rest
    continueWith (afterSpace cs.length cs)

/-! ## Escapes -/

/-- What an escape stands for. -/
inductive Escape
  | character (c : Nat)
  | set (s : CodeSet)
  | look (l : Look)

/-- Hexadecimal digits of a code point, as many as `count` or up to a closing brace. -/
def hexEscape (count : Nat) : Read Escape := do
  let cs ← rest
  let isHex (c : Char) : Bool := c.isDigit || ('a' ≤ c.toLower && c.toLower ≤ 'f')
  let code (digits : List Char) : Read Escape := do
    let n := CodeSet.hexValue (digits.map Char.toLower)
    if n ≤ CodeSet.maxCode ∧ ¬(0xD800 ≤ n ∧ n < 0xE000) then
      if !(← flags).unicode && count = 2 && 127 < n && n < 256 then throw .notText
      return .character n
    else throw .badEscape
  match cs with
  | '\x7b' :: cs =>
    let digits := cs.takeWhile (· ≠ '\x7d')
    if digits.length = cs.length ∨ digits.isEmpty ∨ !digits.all isHex then throw .badEscape
    continueWith (cs.drop (digits.length + 1))
    code digits
  | cs =>
    let digits := cs.take count
    if digits.length < count ∨ !digits.all isHex then throw .badEscape
    continueWith (cs.drop count)
    code digits

/-- A named set after `\p` or `\P`. -/
def namedSet (negated : Bool) : Read Escape := do
  let known (s : Option CodeSet) (negated : Bool) : Read Escape := do
    if !(← flags).unicode then throw .unknownSet
    match s with
    | none => throw .unknownSet
    | some s =>
      let s := if (← flags).ignoreCase then s.foldClosure false else s
      return .set (if negated then s.complement else s)
  match ← rest with
  | [] => throw .badEscape
  | '\\' :: _ => throw .badEscape
  | '\x7b' :: cs =>
    let name := cs.takeWhile (· ≠ '\x7d')
    if name.length = cs.length then throw .badEscape
    continueWith (cs.drop (name.length + 1))
    let key := name.takeWhile fun c => c ≠ '=' && c ≠ ':' && c ≠ '!'
    match name.drop key.length with
    | [] => known (CodeSet.category? (String.ofList name)) negated
    | mark :: value =>
      let general := CodeSet.looseName (String.ofList key)
      let (value, negated) :=
        match mark, value with
        | '!', '=' :: value => (value, !negated)
        | _, _ => (value, negated)
      if general = "gc" ∨ general = "generalcategory" then
        known (CodeSet.category? (String.ofList value)) negated
      else throw .unknownSet
  | c :: cs =>
    continueWith cs
    known (CodeSet.category? (String.singleton c)) negated

/-- One of the short named sets; its complement holds what is no ASCII too. -/
def shortSet (ascii full : CodeSet) (negated : Bool) : Read Escape := do
  let unicode := (← flags).unicode
  if negated ∧ !unicode then throw .notText
  let s := if unicode then full else ascii
  return .set (if negated then s.complement else s)

/-- Drops `word` from the text if it comes next. -/
def eat (word : String) : Read Bool := do
  let cs ← rest
  if word.toList.isPrefixOf cs then
    continueWith (cs.drop word.length)
    return true
  else return false

/-- An escape after its backslash. -/
def escape : Read Escape := do
  match ← rest with
  | [] => throw .badEscape
  | c :: cs =>
    continueWith cs
    let ascii := !(← flags).unicode
    if c.isDigit then throw .backreference
    match c with
    | 'x' => hexEscape 2
    | 'u' => hexEscape 4
    | 'U' => hexEscape 8
    | 'p' => namedSet false
    | 'P' => namedSet true
    | 'd' => shortSet CodeSet.asciiDigits CodeSet.digits false
    | 'D' => shortSet CodeSet.asciiDigits CodeSet.digits true
    | 's' => shortSet CodeSet.asciiBlanks CodeSet.blanks false
    | 'S' => shortSet CodeSet.asciiBlanks CodeSet.blanks true
    | 'w' => shortSet CodeSet.asciiWordCharacters CodeSet.wordCharacters false
    | 'W' => shortSet CodeSet.asciiWordCharacters CodeSet.wordCharacters true
    | 'a' => return .character 7
    | 'f' => return .character 12
    | 't' => return .character 9
    | 'n' => return .character 10
    | 'r' => return .character 13
    | 'v' => return .character 11
    | 'A' => return .look .textStart
    | 'z' => return .look .textEnd
    | 'B' => return .look (.notWordBoundary ascii)
    | '<' => return .look (.wordStart ascii)
    | '>' => return .look (.wordEnd ascii)
    | 'b' =>
      if ← eat "\x7bstart\x7d" then return .look (.wordStart ascii)
      if ← eat "\x7bend\x7d" then return .look (.wordEnd ascii)
      if ← eat "\x7bstart-half\x7d" then return .look (.wordStartHalf ascii)
      if ← eat "\x7bend-half\x7d" then return .look (.wordEndHalf ascii)
      return .look (.wordBoundary ascii)
    | c =>
      if c.toNat < 128 ∧ !c.isAlphanum then return .character c.toNat
      throw .unknownEscape

/-! ## Sets in brackets -/

/-- A set with the characters that differ in case only, where the options ask for it. -/
def foldCase (s : CodeSet) : Read CodeSet := do
  let f ← flags
  return if f.ignoreCase then s.foldClosure (!f.unicode) else s

/-- An item of a set: one character, or a set that cannot end a range. -/
def setItem : Read (Nat ⊕ CodeSet) := do
  match ← rest with
  | [] => throw .unclosedSet
  | '\\' :: cs =>
    continueWith cs
    match ← escape with
    | .character n => return .inl n
    | .set s => return .inr s
    | .look _ => throw .badEscape
  | c :: cs =>
    continueWith cs
    return .inl c.toNat

/-- An item of a set or a range of characters. -/
def setRange : Read CodeSet := do
  let item ← setItem
  let whole : CodeSet := match item with
    | .inl n => CodeSet.single n
    | .inr s => s
  skipSpace
  match ← rest with
  | [] => throw .unclosedSet
  | '-' :: cs =>
    let state ← get
    continueWith cs
    skipSpace
    match ← rest with
    | ']' :: _ | '-' :: _ =>
      set state
      return whole
    | [] => throw .unclosedSet
    | _ =>
      match item, ← setItem with
      | .inl first, .inl last => if first ≤ last then return [(first, last)] else throw .badRange
      | _, _ => throw .badRange
  | _ => return whole

/-- A set such as `[:alpha:]`, of which `cs` is the text after the bracket. -/
def posixSet? (cs : List Char) : Option (CodeSet × List Char) :=
  match cs with
  | ':' :: cs =>
    let (negated, cs) := match cs with
      | '^' :: cs => (true, cs)
      | _ => (false, cs)
    let name := cs.takeWhile (· ≠ ':')
    match cs.drop name.length with
    | ':' :: ']' :: rest =>
      (CodeSet.posix? (String.ofList name)).map fun s =>
        (if negated then s.complement else s, rest)
    | _ => none
  | _ => none

/-- Hyphens at the start of a set stand for themselves. -/
def leadingHyphens : Nat → Read CodeSet
  | 0 => return []
  | fuel + 1 => do
    match ← rest with
    | '-' :: cs =>
      continueWith cs
      skipSpace
      return (45, 45) :: (← leadingHyphens fuel)
    | _ => return []

/-- An operation between two sets. -/
inductive SetOp
  | intersect
  | difference
  | symmetricDifference

/-- The set that an operation makes of two. -/
def SetOp.apply : SetOp → CodeSet → CodeSet → CodeSet
  | intersect => CodeSet.intersect
  | difference => CodeSet.difference
  | symmetricDifference => CodeSet.symmetricDifference

/-- The left operand, if there is one, combined with the items after its operation. -/
def combine (left : Option (CodeSet × SetOp)) (items : CodeSet) : Read CodeSet := do
  let items ← foldCase (CodeSet.ofRanges items)
  match left with
  | none => return items
  | some (l, op) => return op.apply l items

mutual
/-- A set after its opening bracket. -/
def bracketSet : Nat → Read CodeSet
  | 0 => throw .tooDeep
  | fuel + 1 => do
    skipSpace
    let negated ← eat "^"
    skipSpace
    let hyphens ← leadingHyphens (← rest).length
    let items ← if hyphens.isEmpty then
        if ← eat "]" then pure [(93, 93)] else pure []
      else pure hyphens
    let s ← bracketItems fuel none items
    return if negated then s.complement else s

/-- The items of a set up to its closing bracket, after the left operand of an operation. -/
def bracketItems : Nat → Option (CodeSet × SetOp) → CodeSet → Read CodeSet
  | 0, _, _ => throw .tooDeep
  | fuel + 1, left, items => do
    skipSpace
    let operation (op : SetOp) (cs : List Char) : Read CodeSet := do
      continueWith cs
      bracketItems fuel (some (← combine left items, op)) []
    match ← rest with
    | [] => throw .unclosedSet
    | ']' :: cs =>
      continueWith cs
      combine left items
    | '&' :: '&' :: cs => operation .intersect cs
    | '-' :: '-' :: cs => operation .difference cs
    | '~' :: '~' :: cs => operation .symmetricDifference cs
    | '[' :: cs =>
      match posixSet? cs with
      | some (s, cs) =>
        continueWith cs
        bracketItems fuel left (items ++ s)
      | none =>
        continueWith cs
        let inner ← bracketSet fuel
        bracketItems fuel left (items ++ inner)
    | _ =>
      let range ← setRange
      bracketItems fuel left (items ++ range)
end

/-! ## Groups and options -/

/-- Whether `c` may stand in the name of a group. -/
def isNameChar (first : Bool) (c : Char) : Bool :=
  c = '_' || CodeSet.holds CodeSet.alphabetic c.toNat
    || (!first && (c = '.' || c = '[' || c = ']' || CodeSet.holds (CodeSet.ofCategory "N") c.toNat))

/-- The name of a group, up to the closing angle bracket. -/
def groupName : Read String := do
  let cs ← rest
  let name := cs.takeWhile (· ≠ '>')
  if name.isEmpty then throw .emptyGroupName
  let valid := match name with
    | [] => false
    | c :: more => isNameChar true c && more.all (isNameChar false)
  if !valid then throw .badGroupName
  if name.length = cs.length then throw .unclosedGroup
  continueWith (cs.drop (name.length + 1))
  return String.ofList name

/-- The options with one of them set or cleared. -/
def changeFlag (f : Flags) (on : Bool) : Char → Option Flags
  | 'i' => some { f with ignoreCase := on }
  | 'm' => some { f with multiLine := on }
  | 's' => some { f with dotAll := on }
  | 'U' => some { f with swapGreed := on }
  | 'u' => some { f with unicode := on }
  | 'R' => some { f with crlf := on }
  | 'x' => some { f with verbose := on }
  | _ => none

/-- The options that a list of letters asks for; letters after a hyphen clear theirs. -/
def flagLetters (f : Flags) (on : Bool) (seen : List Char) : List Char → Read Flags
  | [] => if seen.head? = some '-' then throw .danglingNegation else return f
  | c :: cs =>
    if seen.contains c then throw .repeatedFlag
    else if c = '-' then flagLetters f false (c :: seen) cs
    else
      match changeFlag f on c with
      | some f => flagLetters f on (c :: seen) cs
      | none => throw .unknownFlag

/-- What follows an opening parenthesis. -/
inductive Opening
  | capture (index : Nat)
  | scope
  | options

/-- Reads what follows an opening parenthesis and puts options in force. -/
def opening : Read Opening := do
  skipSpace
  let capture (name : Option String) : Read Opening := do
    let s ← get
    match name with
    | none => set { s with nextGroup := s.nextGroup + 1 }
    | some name =>
      if (s.names.lookup name).isSome then throw (.duplicateGroupName name)
      set { s with
        nextGroup := s.nextGroup + 1
        names := s.names ++ [(name, s.nextGroup)] }
    return .capture s.nextGroup
  for look in ["?=", "?!", "?<=", "?<!"] do
    if look.toList.isPrefixOf (← rest) then throw .lookAround
  if (← eat "?P<") || (← eat "?<") then capture (some (← groupName))
  else if ← eat "?" then
    let cs ← rest
    let letters := cs.takeWhile fun c => c ≠ ':' && c ≠ ')'
    let f ← flagLetters (← flags) true [] letters
    match cs.drop letters.length with
    | ':' :: cs =>
      continueWith cs
      setFlags f
      return .scope
    | ')' :: cs =>
      if letters.isEmpty then throw .nothingToRepeat
      continueWith cs
      setFlags f
      return .options
    | _ => throw .unclosedGroup
  else capture none

/-! ## Repetitions -/

/-- Whether a repetition takes as much as it can. -/
def greedy : Read Bool := do
  let lazyMark ← eat "?"
  return lazyMark = (← flags).swapGreed

/-- A count in braces. -/
def count : Read Nat := do
  let cs := (← rest).dropWhile Text.isBlank
  let digits := cs.takeWhile Number.isDigit
  if digits.isEmpty then throw .badCount
  let n := Number.ofDigits digits
  if 4294967296 ≤ n then throw .badCount
  continueWith ((cs.drop digits.length).dropWhile Text.isBlank)
  return n

/-- The counts of a repetition after its opening brace. -/
def counts : Read (Nat × Option Nat) := do
  if (← rest).isEmpty then throw .unclosedCount
  let least ← count
  let most ← if ← eat "," then
      skipSpace
      match ← rest with
      | [] => throw .unclosedCount
      | '\x7d' :: _ => pure none
      | _ => pure (some (← count))
    else pure (some least)
  if !(← eat "\x7d") then throw .unclosedCount
  match most with
  | some m => if m < least then throw .badCount
  | none => pure ()
  return (least, most)

/-! ## Patterns -/

/-- A piece of a sequence. -/
inductive Item
  | pattern (p : Pattern)
  | options

/-- The sequence of pieces, of which the last comes first. -/
def sequence (items : List Item) : Pattern :=
  let patterns := items.reverse.filterMap fun
    | .pattern p => some p
    | .options => none
  match patterns with
  | [] => .empty
  | p :: ps => ps.foldl .seq p

/-- The pattern of one character. -/
def character (n : Nat) : Read Pattern := return .one (← foldCase (CodeSet.single n))

/-- Any character but line ends, or any at all, as the options say. -/
def dot : Read Pattern := do
  let f ← flags
  if !f.unicode then throw .notText
  let excluded : CodeSet :=
    if f.dotAll then [] else if f.crlf then [(10, 10), (13, 13)] else [(10, 10)]
  return .one excluded.complement

/-- The pieces of a sequence with the last one repeated. -/
def repeatLast (least : Nat) (most : Option Nat) (items : List Item) : Read (List Item) := do
  match items with
  | .pattern p :: items => return .pattern (.repeated least most (← greedy) p) :: items
  | _ => throw .nothingToRepeat

mutual
/-- Alternatives inside `depth` levels. -/
def alternatives : Nat → Nat → Read Pattern
  | 0, _ => throw .tooDeep
  | fuel + 1, depth => do
    let first ← pieces fuel depth []
    match ← rest with
    | '|' :: cs =>
      continueWith cs
      return .alt first (← alternatives fuel depth)
    | _ => return first

/-- The rest of a sequence, the pieces before it given with the last one first. -/
def pieces : Nat → Nat → List Item → Read Pattern
  | 0, _, _ => throw .tooDeep
  | fuel + 1, depth, items => do
    skipSpace
    let add (p : Pattern) : Read Pattern := pieces fuel depth (.pattern p :: items)
    match ← rest with
    | [] | '|' :: _ | ')' :: _ => return sequence items
    | c :: cs =>
      continueWith cs
      let f ← flags
      match c with
      | '(' =>
        if maxDepth ≤ depth then throw .tooDeep
        match ← opening with
        | .options => pieces fuel depth (.options :: items)
        | kind =>
          let body ← alternatives fuel (depth + 1)
          if !(← eat ")") then throw .unclosedGroup
          setFlags f
          match kind with
          | .capture index => add (.group index body)
          | _ => add body
      | '[' => add (.one (← bracketSet fuel))
      | '.' => add (← dot)
      | '^' => add (.look (if f.multiLine then .lineStart f.crlf else .textStart))
      | '$' => add (.look (if f.multiLine then .lineEnd f.crlf else .textEnd))
      | '\\' =>
        match ← escape with
        | .character n => add (← character n)
        | .set s => add (.one s)
        | .look l => add (.look l)
      | '*' => pieces fuel depth (← repeatLast 0 none items)
      | '+' => pieces fuel depth (← repeatLast 1 none items)
      | '?' => pieces fuel depth (← repeatLast 0 (some 1) items)
      | '\x7b' =>
        match items with
        | .pattern _ :: _ =>
          let (least, most) ← counts
          pieces fuel depth (← repeatLast least most items)
        | _ => throw .nothingToRepeat
      | c => add (← character c.toNat)
end

end Read

/-- A pattern and the names of its groups with their numbers. -/
structure NamedPattern where
  pattern : Pattern
  groups : Nat
  names : List (String × Nat)

/-- Reads a pattern. -/
def NamedPattern.read (text : String) : Except PatternFault NamedPattern := do
  let start : ReadState := ⟨text.toList, {}, 1, []⟩
  let (p, s) ← (Read.alternatives (4 * text.length + 4) 0).run start
  if !s.rest.isEmpty then throw .unopenedGroup
  if Pattern.maxWeight < p.weight then throw .tooLarge
  return ⟨p, s.nextGroup, s.names⟩

end LogSearch.Regex
