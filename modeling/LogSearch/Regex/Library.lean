/-!
# Patterns of a library

The search language hands its patterns to a library for regular expressions. Which texts are
patterns and what a pattern matches is the library's to say; a query is read, printed and run over
any library.

* `Regex`: a compiled pattern.
* `Regex.Library`: a library, which compiles texts.
-/

namespace LogSearch

/-- A compiled pattern. -/
structure Regex where
  /-- The names of its groups, in the order of the pattern. -/
  names : List String
  /-- Whether a text holds a match. -/
  isMatch : String → Bool
  /-- The matches in a text, in order: each has the part of every named group that took part. -/
  captures : String → List (String → Option String)

namespace Regex

/-- A library for regular expressions. -/
class Library where
  /-- The pattern that a text writes, or what is wrong with it. -/
  compile : String → Except String Regex

export Library (compile)

end Regex

end LogSearch
