import LogSearch.Query.Lexer
import LogSearch.Query.Tree
import LogSearch.Text.Search

/-!
# Problems of a query text

* `SyntaxFault`: what is wrong; `SyntaxFault.message` is its wording.
* `Problem`: what is wrong, where, and what would have been accepted there.
* `problemsText`: the problems of a text in one line.
-/

namespace LogSearch.Query

/-- What is wrong at a place of a query text. -/
inductive SyntaxFault
  | lexical (fault : LexFault)
  | unexpected (found : TokenKind)
  | unknownCommand (name : String)
  | unknownAggregation (name : String)
  | unknownFunction (name : String)
  | columnRequired (aggregate : Aggregate)
  | invalidPattern (reason : String)
  | invalidDuration (text : String)
  | notPositive (text : String)
  | argumentCount (function : Function) (given : Nat)
deriving DecidableEq

/-- How many arguments a function takes, in words. -/
def arityText (f : Function) : String :=
  match f.arity with
  | (least, none) => "at least " ++ toString least
  | (least, some most) =>
    if most = least then toString least else toString least ++ " to " ++ toString most

/-- The wording of a fault. -/
def SyntaxFault.message : SyntaxFault → String
  | lexical fault => fault.message
  | unexpected found => "unexpected " ++ found.describe
  | unknownCommand name => "unknown command '" ++ name ++ "'"
  | unknownAggregation name => "unknown aggregation function '" ++ name ++ "'"
  | unknownFunction name => "unknown function '" ++ name ++ "'"
  | columnRequired aggregate => aggregate.name ++ "() requires a column"
  | invalidPattern reason => "invalid regex: " ++ reason
  | invalidDuration text => TimeSpan.invalidMessage text
  | notPositive text => "expected a positive integer, found " ++ text
  | argumentCount f given =>
    f.name ++ "() takes " ++ arityText f ++ " argument(s), got " ++ toString given

/-- A fault, where it is, and what would have been accepted there. -/
structure Problem where
  fault : SyntaxFault
  span : Span
  expected : List String
deriving DecidableEq

namespace Problem

/-- The wording of a problem without its place. -/
def message (p : Problem) : String := p.fault.message

/-- A problem in one line. -/
def text (p : Problem) : String :=
  "parse error at " ++ toString p.span.start ++ ": " ++ p.message
    ++ if p.expected.isEmpty then "" else " (expected: " ++ Text.join ", " p.expected ++ ")"

end Problem

/-- The problems of a text in one line: the first one and how many more there are. -/
def problemsText : List Problem → String
  | [] => "parse error"
  | [p] => p.text
  | p :: rest => p.text ++ " (and " ++ toString rest.length ++ " more)"

end LogSearch.Query
