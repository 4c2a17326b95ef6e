import LogSearch.Regex.CodeSet

/-!
# Patterns

* `Pattern`: a pattern with all names and options resolved.
* `Pattern.mayBeEmpty`: whether it can match no characters at all.
* `Pattern.weight`: a measure of its size with counted repetitions written out.
-/

namespace LogSearch.Regex

/-- A condition on a position of the text. -/
inductive Look
  | textStart
  | textEnd
  | lineStart (crlf : Bool)
  | lineEnd (crlf : Bool)
  | wordBoundary (ascii : Bool)
  | notWordBoundary (ascii : Bool)
  | wordStart (ascii : Bool)
  | wordEnd (ascii : Bool)
  | wordStartHalf (ascii : Bool)
  | wordEndHalf (ascii : Bool)
deriving DecidableEq, Repr

/-- A pattern. -/
inductive Pattern
  | empty
  | one (set : CodeSet)
  | look (look : Look)
  | seq (first second : Pattern)
  | alt (first second : Pattern)
  | repeated (least : Nat) (most : Option Nat) (greedy : Bool) (body : Pattern)
  | group (index : Nat) (body : Pattern)
deriving DecidableEq, Repr

namespace Pattern

/-- Whether the pattern can match no characters. -/
def mayBeEmpty : Pattern → Bool
  | empty | look _ => true
  | one s => s.isEmpty
  | seq a b => a.mayBeEmpty && b.mayBeEmpty
  | alt a b => a.mayBeEmpty || b.mayBeEmpty
  | repeated least _ _ p => least = 0 || p.mayBeEmpty
  | group _ p => p.mayBeEmpty

/-- The size of the pattern with counted repetitions written out. -/
def weight : Pattern → Nat
  | empty => 1
  | one s => 1 + s.length
  | look _ => 1
  | seq a b => a.weight + b.weight
  | alt a b => 1 + a.weight + b.weight
  | repeated least most _ p => 2 + (max least (most.getD 1)) * (1 + p.weight)
  | group _ p => 2 + p.weight

/-- The greatest weight of a pattern that is accepted. -/
def maxWeight : Nat := 300000

end Pattern

end LogSearch.Regex
