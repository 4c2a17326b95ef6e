import LogSearch.Number.Text

/-!
# Tokens of the query language

A query is read as words, numbers, quoted texts, command names, keywords and symbols. Which words
are keywords, and which symbols exist at all, depends on the segment between two pipes.

* `TokenKind`: what a token is; `TokenKind.describe` is its wording in messages.
* `Segment`: the grammar a stretch between two pipes belongs to.
* `Segment.keyword?`: the keywords that a segment declares.
-/

namespace LogSearch.Query

/-- A range of byte positions in the query text. -/
structure Span where
  start : Nat
  stop : Nat
deriving DecidableEq, Repr

/-- Pipeline commands. -/
inductive Command
  | table
  | stats
  | regex
  | sort
  | filter
  | timeChart
  | eval
deriving DecidableEq, Repr

namespace Command

/-- All commands, in the order in which they are offered. -/
def all : List Command := [table, stats, regex, sort, filter, timeChart, eval]

/-- The word that names a command. -/
def name : Command → String
  | table => "table"
  | stats => "stats"
  | regex => "regex"
  | sort => "sort"
  | filter => "where"
  | timeChart => "timechart"
  | eval => "eval"

/-- The command that a word names. -/
def ofName? (word : String) : Option Command := all.find? fun c => c.name = word

/-- Whether the segment of the command holds expressions. -/
def hasExpressions : Command → Bool
  | filter | eval => true
  | _ => false

end Command

/-- Words reserved inside the segment of a command that declares them. -/
inductive Keyword
  | searchAnd
  | searchOr
  | by
  | as
  | asc
  | desc
  | field
  | span
  | timeColumn
  | maxGroups
  | memberOf
  | true
  | false
  | null
deriving DecidableEq, Repr

namespace Keyword

/-- All keywords. -/
def all : List Keyword :=
  [searchAnd, searchOr, «by», as, asc, desc, field, span, timeColumn, maxGroups, memberOf, .true,
    .false, null]

/-- The spelling of a keyword. -/
def text : Keyword → String
  | searchAnd => "AND"
  | searchOr => "OR"
  | «by» => "by"
  | as => "as"
  | asc => "asc"
  | desc => "desc"
  | field => "field"
  | span => "span"
  | timeColumn => "timeCol"
  | maxGroups => "maxGroups"
  | memberOf => "in"
  | .true => "true"
  | .false => "false"
  | null => "null"

end Keyword

/-- Fixed marks: structure that every segment knows, and operators of expressions. -/
inductive Symbol
  | pipe
  | leftParen
  | rightParen
  | comma
  | equal
  | notEqual
  | doubleEqual
  | greater
  | greaterEqual
  | less
  | lessEqual
  | plus
  | minus
  | star
  | slash
  | andAnd
  | orOr
  | bang
  | leftBracket
  | rightBracket
deriving DecidableEq, Repr

/-- The spelling of a symbol. -/
def Symbol.text : Symbol → String
  | pipe => "|"
  | leftParen => "("
  | rightParen => ")"
  | comma => ","
  | equal => "="
  | notEqual => "!="
  | doubleEqual => "=="
  | greater => ">"
  | greaterEqual => ">="
  | less => "<"
  | lessEqual => "<="
  | plus => "+"
  | minus => "-"
  | star => "*"
  | slash => "/"
  | andAnd => "&&"
  | orOr => "||"
  | bang => "!"
  | leftBracket => "["
  | rightBracket => "]"

/-- What a token is. -/
inductive TokenKind
  | word (text : String)
  | number (value : Float)
  | quoted (text : String)
  | backtick (text : String)
  | command (command : Command)
  | keyword (keyword : Keyword)
  | symbol (symbol : Symbol)
  | endOfInput
deriving DecidableEq

/-- The wording of a token in messages. -/
def TokenKind.describe : TokenKind → String
  | word s => "identifier '" ++ s ++ "'"
  | number x => "number " ++ Number.plainText x
  | quoted s => "string \"" ++ s ++ "\""
  | backtick s => "`" ++ s ++ "`"
  | command c => "command '" ++ c.name ++ "'"
  | keyword k => "keyword '" ++ k.text ++ "'"
  | symbol s => "'" ++ s.text ++ "'"
  | endOfInput => "end of input"

/-- A token, where it stands and how it is written. -/
structure Token where
  kind : TokenKind
  span : Span
  text : String
deriving DecidableEq

/-! ## Segments -/

/-- The grammar that a stretch of the text between two pipes belongs to. -/
inductive Segment
  /-- Before the first pipe. -/
  | search
  /-- Right after a pipe, where the first token decides. -/
  | opening
  | command (command : Command)
  /-- After a pipe whose first token names no command. -/
  | unknown
deriving DecidableEq, Repr

namespace Segment

/-- Whether operators of expressions exist in the segment. -/
def hasOperators : Segment → Bool
  | command c => c.hasExpressions
  | _ => false

/-- The keywords that a segment declares. -/
def keywords : Segment → List Keyword
  | search => [.searchAnd, .searchOr]
  | command .stats => [.by, .as]
  | command .timeChart => [.by, .as, .span, .timeColumn, .maxGroups]
  | command .table => [.as]
  | command .sort => [.asc, .desc]
  | command .regex => [.field]
  | command .filter | command .eval => [.memberOf, .true, .false, .null]
  | opening | unknown => []

/-- The keyword that a whole word spells in a segment. -/
def keyword? (s : Segment) (word : String) : Option Keyword :=
  s.keywords.find? fun k => k.text = word

/-- The segment after a token: a pipe opens one, and the token after a pipe decides it. -/
def after (s : Segment) : TokenKind → Segment
  | .symbol .pipe => opening
  | .command c => if s = opening then command c else s
  | _ => if s = opening then unknown else s

end Segment

end LogSearch.Query
