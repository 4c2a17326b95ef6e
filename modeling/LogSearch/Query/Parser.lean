import LogSearch.Query.Marks
import LogSearch.Query.Problem
import LogSearch.Query.Tree
import LogSearch.Regex.Library

/-!
# Reading tokens as a query

The tokens between two pipes are read on their own: the head before the first pipe, and a stage
after each. A segment that cannot be read leaves a problem and no stage.

* `Parser`: reads the tokens of one segment; what follows the segment can be seen and not taken.
* `parseTokens`: the query that tokens write, with problems and marks.
* `parse`: the same for a text.

The grammar, by its productions:

* head: pre-filters, then a search; `AND`, `OR` and plain juxtaposition bind to the right.
* expressions: `&&` and `||` bind to the right without precedence, then `!`, one comparison or `in`,
  sums and products to the left, `-`, and single operands.
-/

namespace LogSearch.Query

/-- The tokens of a segment still to be read, and what has been seen of the text around them. -/
structure Cursor where
  rest : List Token
  /-- The pipe or the end of input after the segment. -/
  stop : Token
  /-- The token after `stop`; the end of input follows itself. -/
  beyond : Token
  /-- Where the last token taken ended. -/
  lastStop : Nat
  marks : Marks

/-- A reader of part of a segment. A problem keeps the marks that have been left before it. -/
abbrev Parser (α : Type) := EStateM Problem Cursor α

namespace Parser

/-! ## Tokens -/

/-- The next token; after the segment, what ends it. -/
def peek : Parser Token := return (← get).rest.headD (← get).stop

/-- The token after the next one. -/
def peekSecond : Parser Token := do
  let c ← get
  match c.rest with
  | [] => return c.beyond
  | [_] => return c.stop
  | _ :: t :: _ => return t

/-- Takes the next token, if the segment has one. -/
def advance : Parser Unit :=
  modify fun c =>
    match c.rest with
    | [] => c
    | t :: rest => { c with rest := rest, lastStop := t.span.stop }

/-- Whether the next token is a symbol. -/
def isAt (s : Symbol) : Parser Bool := return (← peek).kind = .symbol s

/-- Whether the next token is a keyword. -/
def isAtKeyword (k : Keyword) : Parser Bool := return (← peek).kind = .keyword k

/-- Fails at the next token. -/
def unexpected {α : Type} (expected : List String) : Parser α := do
  let t ← peek
  throw ⟨.unexpected t.kind, t.span, expected⟩

/-- Highlights a token. -/
def highlight (kind : HighlightKind) (t : Token) : Parser Unit :=
  modify fun c => { c with marks := c.marks.highlight kind t.span.start t.span.stop }

/-- Takes the next token and highlights it. -/
def take (kind : HighlightKind) : Parser Unit := do
  let t ← peek
  advance
  highlight kind t

/-- Takes a symbol. -/
def expect (s : Symbol) : Parser Unit := do
  if ← isAt s then advance else unexpected ["'" ++ s.text ++ "'"]

/-- Takes a symbol and highlights it as an operator. -/
def expectOperator (s : Symbol) : Parser Unit := do
  let t ← peek
  expect s
  highlight .operator t

/-- Takes a comma if there is one. -/
def eatComma : Parser Bool := do
  if ← isAt .comma then
    advance
    return true
  else return false

/-! ## Markers -/

/-- Where a marker for the next token ends: at the token after it, unless the next token is the
end of input or runs up to it. -/
def markerStop : Parser (Option Nat) := do
  let current ← peek
  let next ← peekSecond
  return if current.kind = .endOfInput then none
    else if next.kind = .endOfInput ∧ current.span.stop = next.span.start then none
    else some next.span.start

/-- Opens a marker where the last token ended and says its number. -/
def openMarker (kind : MarkerKind) : Parser Nat := do
  let c ← get
  set { c with marks := c.marks.openMarker kind c.lastStop }
  return c.marks.markers.length

/-- Closes a marker as one for the next token. -/
def settle (id : Nat) : Parser Unit := do
  let stop ← markerStop
  modify fun c => { c with marks := c.marks.close id stop }

/-- Leaves a marker for the next token. -/
def suggest (kind : MarkerKind) : Parser Unit := do
  settle (← openMarker kind)

/-! ## Head -/

/-- The value of a pre-filter. -/
def filterValue? (t : Token) : Option String :=
  match t.kind with
  | .word s | .quoted s | .backtick s => some s
  | .number _ => some t.text
  | _ => none

/-- The comparison that a symbol stands for in a pre-filter. -/
def filterOp? : TokenKind → Option FilterOp
  | .symbol .equal => some .equal
  | .symbol .notEqual => some .notEqual
  | _ => none

/-- A pre-filter, if one comes next. -/
def preFilter? : Parser (Option PreFilter) := do
  match (← peek).kind, filterOp? (← peekSecond).kind with
  | .word key, some op => do
    take .paramKey
    take .operator
    suggest (.paramValues key)
    match filterValue? (← peek) with
    | none => unexpected ["value"]
    | some value =>
      take .paramValue
      return some ⟨key, op, value⟩
  | _, _ => return none

/-- What a reader gives, a problem being one of its results. -/
def attempt {α : Type} (parser : Parser α) : Parser (Except Problem α) :=
  tryCatch (Except.ok <$> parser) fun problem => return .error problem

/-- The pre-filters at the start of the head, up to the first problem. -/
def preFilters : Nat → Parser (List PreFilter × Option Problem)
  | 0 => return ([], none)
  | fuel + 1 => do
    suggest .params
    match ← attempt preFilter? with
    | .error problem => return ([], some problem)
    | .ok none => return ([], none)
    | .ok (some f) =>
      let (filters, problem) ← preFilters fuel
      return (f :: filters, problem)

/-- Whether a token can start a further search term. -/
def startsTerm : TokenKind → Bool
  | .word _ | .number _ | .quoted _ | .backtick _ | .symbol .leftParen => true
  | _ => false

mutual
/-- A search. -/
def search : Nat → Parser Search
  | 0 => unexpected []
  | fuel + 1 => do
    let left ← searchFactor fuel
    let kind := (← peek).kind
    if kind = .keyword .searchAnd then
      take .keyword
      return .and left (← search fuel)
    else if kind = .keyword .searchOr then
      take .keyword
      return .or left (← search fuel)
    else if startsTerm kind then return .and left (← search fuel)
    else return left

/-- A search term, or a search in parentheses. -/
def searchFactor : Nat → Parser Search
  | 0 => unexpected []
  | fuel + 1 => do
    let t ← peek
    match t.kind with
    | .symbol .leftParen => do
      advance
      let inner ← search fuel
      expect .rightParen
      return inner
    | .word s => do
      advance
      return .literal (.term s)
    | .number _ => do
      take .number
      return .literal (.term t.text)
    | .quoted s | .backtick s => do
      take .string
      return .literal (.phrase s)
    | _ => unexpected ["search term"]
end

/-! ## Expressions -/

/-- The constant that a token writes, and how it is highlighted. -/
def literal? : TokenKind → Option (Literal × HighlightKind)
  | .number x => some (.number x, .number)
  | .quoted s | .backtick s => some (.string s, .string)
  | .keyword .true => some (.boolean true, .boolean)
  | .keyword .false => some (.boolean false, .boolean)
  | .keyword .null => some (.null, .keyword)
  | _ => none

/-- A constant; a number may have a sign. -/
def literal : Parser Literal := do
  let t ← peek
  match literal? t.kind with
  | some (value, kind) =>
    take kind
    return value
  | none =>
    match t.kind, (← peekSecond).kind with
    | .symbol .minus, .number x =>
      take .operator
      take .number
      return .number (-x)
    | _, _ => unexpected ["literal"]

/-- Constants with commas between them. -/
def literals : Nat → Parser (List Literal)
  | 0 => return []
  | fuel + 1 => do
    let l ← literal
    if ← eatComma then return l :: (← literals fuel) else return [l]

/-- The logical operator that a token writes. -/
def logicalOp? : TokenKind → Option BinaryOp
  | .symbol .andAnd => some .and
  | .symbol .orOr => some .or
  | _ => none

/-- The comparison that a token writes. -/
def comparisonOp? : TokenKind → Option BinaryOp
  | .symbol .doubleEqual => some .equal
  | .symbol .notEqual => some .notEqual
  | .symbol .greater => some .greater
  | .symbol .greaterEqual => some .greaterEqual
  | .symbol .less => some .less
  | .symbol .lessEqual => some .lessEqual
  | _ => none

/-- The additive operator that a token writes. -/
def sumOp? : TokenKind → Option BinaryOp
  | .symbol .plus => some .add
  | .symbol .minus => some .sub
  | _ => none

/-- The multiplicative operator that a token writes. -/
def productOp? : TokenKind → Option BinaryOp
  | .symbol .star => some .mul
  | .symbol .slash => some .div
  | _ => none

/-- The pattern that a call holds as a constant. -/
def constantPattern? (f : Function) (args : List Expr) : Option String :=
  match f, args with
  | .matchesPattern, _ :: .literal (.string pattern) :: _ => some pattern
  | _, _ => none

variable [Regex.Library]

/-- Accepts a call whose arguments are right in number and whose constant pattern is one. -/
def checkCall (name : Token) (f : Function) (args : List Expr) : Parser Expr := do
  if !f.takes args.length then throw ⟨.argumentCount f args.length, name.span, []⟩
  match (constantPattern? f args).map Regex.compile with
  | some (.error reason) => throw ⟨.invalidPattern reason, name.span, []⟩
  | _ => return .call f args

mutual
/-- Conditions joined by logical operators. -/
def logical : Nat → Parser Expr
  | 0 => unexpected []
  | fuel + 1 => do
    let left ← condition fuel
    match logicalOp? (← peek).kind with
    | some op =>
      take .operator
      return .binary op left (← logical fuel)
    | none => return left

/-- A comparison, possibly negated. -/
def condition : Nat → Parser Expr
  | 0 => unexpected []
  | fuel + 1 => do
    if ← isAt .bang then
      take .operator
      return .not (← condition fuel)
    else comparison fuel

/-- A sum, compared with another or looked up in a list. -/
def comparison : Nat → Parser Expr
  | 0 => unexpected []
  | fuel + 1 => do
    let left ← sum fuel
    let kind := (← peek).kind
    match comparisonOp? kind with
    | some op =>
      take .operator
      return .binary op left (← sum fuel)
    | none =>
      if kind = .keyword .memberOf then
        take .operator
        expect .leftBracket
        let list ← literals fuel
        expect .rightBracket
        return .member left list
      else return left

/-- Products joined by additive operators. -/
def sum : Nat → Parser Expr
  | 0 => unexpected []
  | fuel + 1 => do sumRest fuel (← product fuel)

/-- Further products of a sum. -/
def sumRest : Nat → Expr → Parser Expr
  | 0, _ => unexpected []
  | fuel + 1, left => do
    match sumOp? (← peek).kind with
    | some op =>
      take .operator
      sumRest fuel (.binary op left (← product fuel))
    | none => return left

/-- Factors joined by multiplicative operators. -/
def product : Nat → Parser Expr
  | 0 => unexpected []
  | fuel + 1 => do productRest fuel (← factor fuel)

/-- Further factors of a product. -/
def productRest : Nat → Expr → Parser Expr
  | 0, _ => unexpected []
  | fuel + 1, left => do
    match productOp? (← peek).kind with
    | some op =>
      take .operator
      productRest fuel (.binary op left (← factor fuel))
    | none => return left

/-- A single operand. -/
def factor : Nat → Parser Expr
  | 0 => unexpected []
  | fuel + 1 => do
    suggest .columns
    suggest .functions
    let t ← peek
    match t.kind with
    | .symbol .minus => do
      take .operator
      return .negate (← factor fuel)
    | .symbol .leftParen => do
      advance
      let inner ← logical fuel
      expect .rightParen
      return inner
    | .word name => do
      if (← peekSecond).kind = .symbol .leftParen then
        match Function.ofName? name with
        | none => throw ⟨.unknownFunction name, t.span, Function.all.map Function.name⟩
        | some f =>
          take .function
          expect .leftParen
          let args ← if ← isAt .rightParen then pure [] else arguments fuel
          expect .rightParen
          checkCall t f args
      else
        take .column
        return .column name
    | kind =>
      if (literal? kind).isSome then return .literal (← literal)
      else unexpected ["expression"]

/-- Arguments with commas between them. -/
def arguments : Nat → Parser (List Expr)
  | 0 => unexpected []
  | fuel + 1 => do
    let e ← logical fuel
    if ← eatComma then return e :: (← arguments fuel) else return [e]
end

/-- How many calls the reading of an expression can nest for each token. -/
def callsPerToken : Nat := 8

/-- An expression. -/
def expression : Parser Expr := do
  logical (callsPerToken * ((← get).rest.length + 1))

/-! ## Stages -/

/-- A word, highlighted. -/
def name (kind : HighlightKind) (what : String) : Parser String := do
  match (← peek).kind with
  | .word s =>
    take kind
    return s
  | _ => unexpected [what]

/-- The name of a column. -/
def column : Parser String := name .column "column"

/-- Another name after `as`, if there is one. -/
def alias? : Parser (Option String) := do
  if ← isAtKeyword .as then
    take .keyword
    return some (← name .column "alias")
  else return none

/-- Items with commas between them, at least one. -/
def commaSeparated {α : Type} (item : Parser α) : Nat → Parser (List α)
  | 0 => unexpected []
  | fuel + 1 => do
    let a ← item
    if ← eatComma then return a :: (← commaSeparated item fuel) else return [a]

/-- Items with commas between them; there are no more items than tokens. -/
def list {α : Type} (item : Parser α) : Parser (List α) := do
  commaSeparated item ((← get).rest.length + 1)

/-- A column of a `table` stage. -/
def tableColumn : Parser TableColumn := do
  suggest .columns
  let name ← column
  return ⟨name, ← alias?⟩

/-- A column to group by. -/
def groupColumn : Parser String := do
  suggest .columns
  column

/-- An aggregation of a column. -/
def aggregateCall : Parser AggregateCall := do
  let t ← peek
  match t.kind with
  | .word name =>
    match Aggregate.ofName? name with
    | none => throw ⟨.unknownAggregation name, t.span, Aggregate.all.map Aggregate.name⟩
    | some f =>
      take .function
      expect .leftParen
      suggest .columns
      let column ← match (← peek).kind with
        | .word _ => some <$> column
        | _ => pure none
      expect .rightParen
      if column.isNone ∧ f ≠ .count then throw ⟨.columnRequired f, t.span, ["column"]⟩
      return ⟨f, column, ← alias?⟩
  | _ => unexpected ["aggregation function"]

/-- An aggregation after which `by` is offered. -/
def offeredAggregate (byMarker : Nat) : Parser AggregateCall := do
  suggest .aggregations
  let a ← aggregateCall
  modify fun c =>
    { c with marks := (c.marks.enable byMarker).restart byMarker c.lastStop }
  return a

/-- Aggregations and the columns that they are grouped by. -/
def aggregations : Parser (List AggregateCall × List String) := do
  let byMarker ← openMarker (.keywords ["by"])
  modify fun c => { c with marks := c.marks.disable byMarker }
  let calls ← list (offeredAggregate byMarker)
  settle byMarker
  if ← isAtKeyword .by then
    take .keyword
    return (calls, ← list groupColumn)
  else return (calls, [])

/-- The field of a `regex` stage, if it names one. -/
def regexField? : Parser (Option String) := do
  if ← isAtKeyword .field then
    take .keyword
    expectOperator .equal
    suggest .columns
    return some (← column)
  else return none

/-- The body of a `regex` stage. -/
def regexStage : Parser Stage := do
  suggest (.keywords ["field"])
  let field ← regexField?
  let t ← peek
  match t.kind with
  | .backtick pattern | .quoted pattern => do
    take .regex
    match Regex.compile pattern with
    | .error reason => throw ⟨.invalidPattern reason, t.span, []⟩
    | .ok _ => return .regex field pattern
  | _ => unexpected ["regex pattern"]

/-- A key of a `sort` stage; keys ascend unless they say otherwise. -/
def sortKey : Parser SortKey := do
  suggest .columns
  let name ← column
  suggest (.keywords ["asc", "desc"])
  if ← isAtKeyword .desc then
    take .keyword
    return ⟨name, .desc⟩
  else
    if ← isAtKeyword .asc then take .keyword
    return ⟨name, .asc⟩

/-- A duration. -/
def duration : Parser TimeSpan := do
  let t ← peek
  match t.kind with
  | .word _ | .number _ => do
    match TimeSpan.ofText? t.text with
    | none => throw ⟨.invalidDuration t.text, t.span, ["duration"]⟩
    | some span =>
      take .number
      return span
  | _ => unexpected ["duration"]

/-- The positive integer that a number is, held within the greatest count. -/
def positive? (x : Float) : Option Nat :=
  match Number.Value.ofFloat x with
  | .finite v => if v.isWhole ∧ 1 ≤ v.truncate then some (min v.whole Number.countMax) else none
  | _ => none

/-- A positive integer. -/
def positiveInteger : Parser Nat := do
  let t ← peek
  match t.kind with
  | .number x =>
    match positive? x with
    | none => throw ⟨.notPositive t.text, t.span, []⟩
    | some n =>
      take .number
      return n
  | _ => unexpected ["number"]

/-- The options of a `timechart` stage. -/
structure ChartOptions where
  span : Option TimeSpan
  timeColumn : Option String
  maxGroups : Option Nat

/-- Options of a `timechart` stage; of one given twice the last counts. -/
def chartOptions : Nat → ChartOptions → Parser ChartOptions
  | 0, options => return options
  | fuel + 1, options => do
    suggest (.keywords ["span", "timeCol", "maxGroups"])
    match (← peek).kind with
    | .keyword .span => do
      take .keyword
      expectOperator .equal
      let span ← duration
      chartOptions fuel { options with span := some span }
    | .keyword .timeColumn => do
      take .keyword
      expectOperator .equal
      suggest .columns
      let name ← column
      chartOptions fuel { options with timeColumn := some name }
    | .keyword .maxGroups => do
      take .keyword
      expectOperator .equal
      let n ← positiveInteger
      chartOptions fuel { options with maxGroups := some n }
    | _ => return options

/-- The body of an `eval` stage. -/
def evalStage : Parser Stage := do
  suggest .columns
  let target ← column
  expectOperator .equal
  return .eval target (← expression)

/-- The body of a `timechart` stage. -/
def chartStage : Parser Stage := do
  let options ← chartOptions ((← get).rest.length + 1) ⟨none, none, none⟩
  let (calls, groupBy) ← aggregations
  return .timeChart options.span options.timeColumn options.maxGroups calls groupBy

/-- The body of the stage that a command names. -/
def stageBody : Command → Parser Stage
  | .table => .table <$> list tableColumn
  | .stats => do
    let (calls, groupBy) ← aggregations
    return .stats calls groupBy
  | .regex => regexStage
  | .sort => .sort <$> list sortKey
  | .filter => .filter <$> expression
  | .timeChart => chartStage
  | .eval => evalStage

/-- A stage. -/
def stage : Parser Stage := do
  suggest .commands
  let t ← peek
  match t.kind with
  | .command c =>
    take .command
    stageBody c
  | .word name => throw ⟨.unknownCommand name, t.span, Command.all.map Command.name⟩
  | _ => unexpected ["command"]

/-- What the head of a query gives: what has been read before a problem counts. -/
structure Head where
  preFilters : List PreFilter
  search : Option Search
  problem : Option Problem

/-- The head of a query. -/
def head : Parser Head := do
  let n := (← get).rest.length
  match ← preFilters (n + 1) with
  | (filters, some problem) => return ⟨filters, none, some problem⟩
  | (filters, none) =>
    if (← get).rest.isEmpty then return ⟨filters, none, none⟩
    else
      match ← attempt (search (2 * n + 2)) with
      | .error problem => return ⟨filters, none, some problem⟩
      | .ok s => return ⟨filters, some s, none⟩

end Parser

/-! ## Segments -/

/-- The tokens before the first pipe, and each pipe with the tokens up to the next one. -/
def splitAtPipes : List Token → List Token × List (Token × List Token)
  | [] => ([], [])
  | t :: rest =>
    let (first, others) := splitAtPipes rest
    if t.kind = .symbol .pipe then ([], (t, first) :: others) else (t :: first, others)

/-- What ends a segment and the token after that, given the segments after it. -/
def segmentEnd (final : Token) : List (Token × List Token) → Token × Token
  | [] => (final, final)
  | (pipe, tokens) :: rest => (pipe, tokens.headD (segmentEnd final rest).1)

/-- The problem of tokens left over after a segment has been read. -/
def leftoverProblem (expected : List String) (c : Cursor) : Option Problem :=
  c.rest.head?.map fun t => ⟨.unexpected t.kind, t.span, expected⟩

/-- What reading a segment gives. -/
structure SegmentResult (α : Type) where
  value : α
  problem : Option Problem
  marks : Marks

/-- The cursor at the start of a segment. -/
def Cursor.ofSegment (start : Nat) (tokens : List Token) (ends : Token × Token) : Cursor :=
  ⟨tokens, ends.1, ends.2, start, .empty⟩

/-- Reads the head of a query. -/
def readHead (tokens : List Token) (ends : Token × Token) :
    SegmentResult (List PreFilter × Option Search) :=
  match Parser.head.run (.ofSegment 0 tokens ends) with
  | .ok h c => ⟨(h.preFilters, h.search), h.problem <|> leftoverProblem ["'|'"] c, c.marks⟩
  | .error problem c => ⟨([], none), some problem, c.marks⟩

variable [Regex.Library]

/-- Reads a stage after its pipe. Tokens left over are a problem and do not undo the stage. -/
def readStage (pipe : Token) (tokens : List Token) (ends : Token × Token) :
    SegmentResult (Option Stage) :=
  match Parser.stage.run (.ofSegment pipe.span.stop tokens ends) with
  | .ok s c => ⟨some s, leftoverProblem ["'|'", "end of input"] c, c.marks⟩
  | .error problem c => ⟨none, some problem, c.marks⟩

/-- Reads the segments after the head. -/
def readStages (final : Token) :
    List (Token × List Token) → List (SegmentResult (Option Stage))
  | [] => []
  | (pipe, tokens) :: rest =>
    readStage pipe tokens (segmentEnd final rest) :: readStages final rest

/-! ## Texts -/

/-- What tokens give: a query without the stages that could not be read, the problems in the order
of the segments, and the marks. -/
structure TokenOutcome where
  query : Query
  problems : List Problem
  marks : Marks

/-- The end of input after tokens that lack it. -/
def endAfter (tokens : List Token) : Token :=
  let stop := (tokens.getLast?.map fun t => t.span.stop).getD 0
  ⟨.endOfInput, ⟨stop, stop⟩, ""⟩

/-- Reads tokens as a query. An end of input that is missing is added. -/
def parseTokens (tokens : List Token) : TokenOutcome :=
  let body := tokens.takeWhile fun t => t.kind ≠ .endOfInput
  let final := (tokens.find? fun t => t.kind = .endOfInput).getD (endAfter tokens)
  let (first, others) := splitAtPipes body
  let head := readHead first (segmentEnd final others)
  let stages := readStages final others
  { query := ⟨head.value.1, head.value.2, stages.filterMap SegmentResult.value⟩
    problems := head.problem.toList ++ stages.filterMap SegmentResult.problem
    marks := stages.foldl (fun marks s => marks ++ s.marks) head.marks }

/-- What reading a text gives. -/
structure Outcome where
  query : Query
  highlights : List Highlight
  markers : List Marker
  problems : List Problem

/-- The problems of the lexemes of a text. -/
def lexicalProblems (tokens : Tokens) : List Problem :=
  tokens.faults.map fun (fault, span) => ⟨.lexical fault, span, []⟩

/-- Reads a text as a query. Problems stand in the order of their places; of two at one place a
lexical one comes first. -/
def parse (text : String) : Outcome :=
  let tokens := tokenize text
  let outcome := parseTokens tokens.tokens
  { query := outcome.query
    highlights := outcome.marks.sortedHighlights
    markers := outcome.marks.markers
    problems := (lexicalProblems tokens ++ outcome.problems).mergeSort fun a b =>
      a.span.start ≤ b.span.start }

/-- The query that a text writes, or its problems. -/
def parse? (text : String) : Except (List Problem) Query :=
  let outcome := parse text
  if outcome.problems.isEmpty then .ok outcome.query else .error outcome.problems

end LogSearch.Query
