import LogSearch.Regex.Library
import LogSearch.Regex.Parser

/-!
# Matching

A pattern becomes a list of instructions; a search tries them in order of preference and never
visits one instruction at one position twice.

* `Program.ofPattern`: the instructions of a pattern.
* `Program.search`: the first match from a position on, as the bounds of its groups.
* `Regex.standard`: the library of these patterns.
-/

namespace LogSearch.Regex

/-- An instruction; the numbers are positions in the program. -/
inductive Instruction
  /-- Takes a character of the set. -/
  | one (set : CodeSet) (next : Nat)
  | look (look : Look) (next : Nat)
  /-- Tries the first, then the second. -/
  | fork (first second : Nat)
  /-- Notes the position in a slot. -/
  | save (slot : Nat) (next : Nat)
  | done
deriving Repr

/-- Instructions; a pattern is laid out before what follows it. -/
abbrev Program := Array Instruction

namespace Program

/-- Adds an instruction and says where it stands. -/
def add (program : Program) (i : Instruction) : Nat × Program := (program.size, program.push i)

/-- Adds a choice between the body and leaving, in order of preference. -/
def addFork (program : Program) (greedy : Bool) (body leave : Nat) : Nat × Program :=
  program.add (if greedy then .fork body leave else .fork leave body)

/-- Adds `count` copies of what `body` lays out. -/
def addCopies (body : Nat → Program → Nat × Program) : Nat → Nat → Program → Nat × Program
  | 0, next, program => (next, program)
  | count + 1, next, program =>
    let (start, program) := body next program
    addCopies body count start program

/-- Adds up to `count` copies of what `body` lays out, each of which may be left out. -/
def addOptional (greedy : Bool) (body : Nat → Program → Nat × Program) (leave : Nat) :
    Nat → Nat → Program → Nat × Program
  | 0, next, program => (next, program)
  | count + 1, next, program =>
    let (start, program) := body next program
    let (fork, program) := program.addFork greedy start leave
    addOptional greedy body leave count fork program

/-- Adds a loop of what `body` lays out that runs at least once; also says where the choice
between another round and leaving stands. -/
def addLoop (greedy : Bool) (body : Nat → Program → Nat × Program) (leave : Nat)
    (program : Program) : Nat × Nat × Program :=
  let (fork, program) := program.add (.fork leave leave)
  let (start, program) := body fork program
  (start, fork, program.setIfInBounds fork (if greedy then .fork start leave else .fork leave start))

/-- Adds a pattern before position `next` and says where it starts. -/
def addPattern : Pattern → Nat → Program → Nat × Program
  | .empty, next, program => (next, program)
  | .one s, next, program => program.add (.one s next)
  | .look l, next, program => program.add (.look l next)
  | .seq a b, next, program =>
    let (start, program) := addPattern b next program
    addPattern a start program
  | .alt a b, next, program =>
    let (second, program) := addPattern b next program
    let (first, program) := addPattern a next program
    program.add (.fork first second)
  | .group index p, next, program =>
    let (close, program) := program.add (.save (2 * index + 1) next)
    let (start, program) := addPattern p close program
    program.add (.save (2 * index) start)
  | .repeated least (some most) greedy p, next, program =>
    let (start, program) := addOptional greedy (addPattern p) next (most - least) next program
    addCopies (addPattern p) least start program
  | .repeated 0 none greedy p, next, program =>
    let (start, fork, program) := addLoop greedy (addPattern p) next program
    if p.mayBeEmpty then program.addFork greedy start next else (fork, program)
  | .repeated (least + 1) none greedy p, next, program =>
    let (start, _, program) := addLoop greedy (addPattern p) next program
    addCopies (addPattern p) least start program

/-- The instructions of a pattern and where they start. -/
def ofPattern (p : Pattern) : Nat × Program := addPattern (.group 0 p) 0 #[.done]

/-! ## Search -/

/-- Whether a character of the text belongs to words. -/
def isWordAt (ascii : Bool) (text : Array Char) (i : Nat) : Bool :=
  match text[i]? with
  | none => false
  | some c =>
    (if ascii then CodeSet.asciiWordCharacters else CodeSet.wordCharacters).holds c.toNat

/-- Whether a condition holds at a position. -/
def holdsAt (text : Array Char) (i : Nat) : Look → Bool
  | .textStart => i = 0
  | .textEnd => i = text.size
  | .lineStart crlf =>
    i = 0 || before '\n' || (crlf && before '\r' && !after '\n')
  | .lineEnd crlf =>
    i = text.size || (if crlf then after '\r' || (after '\n' && !before '\r') else after '\n')
  | .wordBoundary ascii => wordBefore ascii != wordAfter ascii
  | .notWordBoundary ascii => wordBefore ascii == wordAfter ascii
  | .wordStart ascii => !wordBefore ascii && wordAfter ascii
  | .wordEnd ascii => wordBefore ascii && !wordAfter ascii
  | .wordStartHalf ascii => !wordBefore ascii
  | .wordEndHalf ascii => !wordAfter ascii
where
  /-- Whether `c` stands before the position. -/
  before (c : Char) : Bool := 0 < i && text[i - 1]? = some c
  /-- Whether `c` stands after the position. -/
  after (c : Char) : Bool := text[i]? = some c
  /-- Whether a word stands before the position. -/
  wordBefore (ascii : Bool) : Bool := 0 < i && isWordAt ascii text (i - 1)
  /-- Whether a word stands after the position. -/
  wordAfter (ascii : Bool) : Bool := isWordAt ascii text i

/-- Positions noted so far, by slot. -/
abbrev Slots := List (Nat × Nat)

/-- A place to try: an instruction, a position and what has been noted. -/
structure Attempt where
  instruction : Nat
  position : Nat
  slots : Slots

/-- The attempts that an instruction leads to, in order of preference; or the match. -/
def follow (program : Program) (text : Array Char) (a : Attempt) : List Attempt ⊕ Slots :=
  match program[a.instruction]? with
  | none => .inl []
  | some .done => .inr a.slots
  | some (.one s next) =>
    match text[a.position]? with
    | some c => .inl (if s.holds c.toNat then [⟨next, a.position + 1, a.slots⟩] else [])
    | none => .inl []
  | some (.look l next) =>
    .inl (if holdsAt text a.position l then [⟨next, a.position, a.slots⟩] else [])
  | some (.fork first second) =>
    .inl [⟨first, a.position, a.slots⟩, ⟨second, a.position, a.slots⟩]
  | some (.save slot next) =>
    .inl [⟨next, a.position, (slot, a.position) :: a.slots⟩]

/-- Tries attempts in order, each instruction at each position once. -/
def explore (program : Program) (text : Array Char) :
    Nat → List Attempt → Array Bool → Option Slots × Array Bool
  | 0, _, seen => (none, seen)
  | _ + 1, [], seen => (none, seen)
  | fuel + 1, a :: stack, seen =>
    let cell := a.instruction * (text.size + 1) + a.position
    if seen.getD cell true then explore program text fuel stack seen
    else
      let seen := seen.setIfInBounds cell true
      match follow program text a with
      | .inr slots => (some slots, seen)
      | .inl next => explore program text fuel (next ++ stack) seen

/-- The first match that starts at `position` or one of the `more` positions after it. -/
def searchFrom (program : Program) (start : Nat) (text : Array Char) :
    Nat → Nat → Array Bool → Option Slots
  | more, position, seen =>
    let fuel := 2 * seen.size + 2
    match explore program text fuel [⟨start, position, []⟩] seen with
    | (some slots, _) => some slots
    | (none, seen) =>
      match more with
      | 0 => none
      | more + 1 => searchFrom program start text more (position + 1) seen

/-- The first match from `position` on. -/
def search (program : Program) (start : Nat) (text : Array Char) (position : Nat) :
    Option Slots :=
  if text.size < position then none
  else
    searchFrom program start text (text.size - position) position
      (Array.replicate (program.size * (text.size + 1)) false)

end Program

/-- A pattern ready for matching. -/
structure Matcher where
  program : Program
  start : Nat
  /-- Names of groups and their numbers, in the order of the pattern. -/
  names : List (String × Nat)

namespace Matcher

/-- The pattern ready for matching. -/
def ofPattern (p : NamedPattern) : Matcher :=
  let (start, program) := Program.ofPattern p.pattern
  ⟨program, start, p.names⟩

/-- The bounds of a group in a match. -/
def groupBounds? (slots : Program.Slots) (index : Nat) : Option (Nat × Nat) := do
  let first ← slots.lookup (2 * index)
  let last ← slots.lookup (2 * index + 1)
  return (first, last)

/-- Whether the text holds a match. -/
def isMatch (m : Matcher) (text : String) : Bool :=
  (m.program.search m.start text.toList.toArray 0).isSome

/-- The matches from `position` on. They do not overlap, and an empty match does not touch the
match before it, which ended at `last`. -/
def matchesFrom (m : Matcher) (text : Array Char) :
    Nat → Nat → Option Nat → List Program.Slots
  | 0, _, _ => []
  | fuel + 1, position, last =>
    match m.program.search m.start text position with
    | none => []
    | some slots =>
      match groupBounds? slots 0 with
      | none => []
      | some (first, stop) =>
        if first = stop ∧ last = some stop then m.matchesFrom text fuel (position + 1) none
        else slots :: m.matchesFrom text fuel stop (some stop)

/-- All matches in a text, each with the named groups that took part. -/
def captures (m : Matcher) (text : String) : List (String → Option String) :=
  let chars := text.toList.toArray
  (m.matchesFrom chars (2 * chars.size + 2) 0 none).map fun slots name => do
    let (first, last) ← groupBounds? slots (← m.names.lookup name)
    return String.ofList (chars.toList.drop first |>.take (last - first))

end Matcher

/-- The library of the patterns read here. -/
@[reducible] def standard : Library where
  compile text :=
    match NamedPattern.read text with
    | .error fault => .error fault.message
    | .ok p =>
      let m := Matcher.ofPattern p
      .ok ⟨m.names.map Prod.fst, m.isMatch, m.captures⟩

end LogSearch.Regex
