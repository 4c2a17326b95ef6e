import LogSearch.Proofs.Query.Layout

/-!
# The layout of a canonical text

* `Query.layout`: the pieces of the canonical text of a query, with one layout for each kind of tree
  below it.
* `chars_layout`: a layout is the canonical text.
-/

namespace LogSearch

open LogSearch.Query

/-! ## Parts -/

/-- A pattern between backticks, or between quotes if it holds a backtick. -/
def patternItem (s : String) : Item :=
  if s.toList.contains '\x60' then .quoted s else .backtick s

/-- Layouts with commas between them. -/
def commaLayout : List (List Item) → List Item
  | [] => []
  | [items] => items
  | items :: rest => items ++ .symbol .comma :: .blank :: commaLayout rest

/-- Layouts with blanks between them. -/
def blankLayout : List (List Item) → List Item
  | [] => []
  | [items] => items
  | items :: rest => items ++ .blank :: blankLayout rest

/-- A layout, in parentheses if `wrapped`. -/
def wrap (wrapped : Bool) (items : List Item) : List Item :=
  if wrapped then .symbol .leftParen :: items ++ [.symbol .rightParen] else items

/-! ## Head -/

/-- The symbol of a comparison. -/
def FilterOp.symbol : FilterOp → Symbol
  | equal => .equal
  | notEqual => .notEqual

/-- The layout of a pre-filter. -/
def PreFilter.layout (f : PreFilter) : List Item :=
  [.word f.key, .symbol f.op.symbol, patternItem f.value]

/-- The piece of a search literal. -/
def SearchLiteral.item : SearchLiteral → Item
  | term s => .word s
  | phrase s => .quoted s

/-- The layout of a search. -/
def Search.layout : Search → List Item
  | literal l => [l.item]
  | and l r => wrap (!l.isLiteral) l.layout ++ .blank :: .word "AND" :: .blank :: r.layout
  | or l r => wrap (!l.isLiteral) l.layout ++ .blank :: .word "OR" :: .blank :: r.layout

/-! ## Expressions -/

/-- The layout of a number: a minus is a symbol of its own. -/
def numberLayout (x : Float) : List Item :=
  match (Number.plainText x).toList with
  | '-' :: digits => [.symbol .minus, .word (String.ofList digits)]
  | _ => [.word (Number.plainText x)]

/-- The layout of a constant. -/
def Literal.layout : Literal → List Item
  | number x => numberLayout x
  | string s => [.quoted s]
  | boolean b => [.word (if b then "true" else "false")]
  | null => [.word "null"]

/-- The symbol of an operator. -/
def BinaryOp.symbol : BinaryOp → Symbol
  | add => .plus
  | sub => .minus
  | mul => .star
  | div => .slash
  | equal => .doubleEqual
  | notEqual => .notEqual
  | greater => .greater
  | greaterEqual => .greaterEqual
  | less => .less
  | lessEqual => .lessEqual
  | and => .andAnd
  | or => .orOr

mutual
/-- The layout of an expression. -/
def Expr.layout : Expr → List Item
  | .literal l => l.layout
  | .column name => [.word name]
  | .not e => .symbol .bang :: wrap (e.level < 1) e.layout
  | .negate e => .symbol .minus :: wrap (e.level < 5) e.layout
  | .binary op l r =>
    wrap (l.level < op.operandLevels.1) l.layout
      ++ .blank :: .symbol op.symbol :: .blank :: wrap (r.level < op.operandLevels.2) r.layout
  | .member e list =>
    wrap (e.level < 3) e.layout
      ++ .blank :: .word "in" :: .blank :: .symbol .leftBracket
        :: commaLayout (list.map Literal.layout) ++ [.symbol .rightBracket]
  | .call f args =>
    .word f.name :: .symbol .leftParen :: commaLayout (argumentLayouts args)
      ++ [.symbol .rightParen]

/-- The layouts of arguments. -/
def argumentLayouts : List Expr → List (List Item)
  | [] => []
  | e :: rest => e.layout :: argumentLayouts rest
end

/-! ## Stages -/

/-- The layout of `as name` after a blank, if there is a name. -/
def newNameLayout : Option String → List Item
  | some name => [.blank, .word "as", .blank, .word name]
  | none => []

/-- The layout of a column. -/
def TableColumn.layout (c : TableColumn) : List Item := .word c.column :: newNameLayout c.newName

/-- The layout of an aggregation. -/
def AggregateCall.layout (a : AggregateCall) : List Item :=
  .word a.function.name :: .symbol .leftParen :: a.column.toList.map .word
    ++ .symbol .rightParen :: newNameLayout a.newName

/-- The layout of a sort key. -/
def SortKey.layout (k : SortKey) : List Item :=
  [.word k.column, .blank, .word k.direction.text]

/-- The layout of `by` and the columns after it, if there are any. -/
def groupLayout (groupBy : List String) : List Item :=
  if groupBy.isEmpty then []
  else .blank :: .word "by" :: .blank :: commaLayout (groupBy.map fun name => [.word name])

/-- The layout of aggregations and of the columns they are grouped by. -/
def aggregationsLayout (aggregations : List AggregateCall) (groupBy : List String) : List Item :=
  commaLayout (aggregations.map AggregateCall.layout) ++ groupLayout groupBy

/-- The layout of `name=value` and a blank, if there is a value. -/
def optionLayout (name : String) : Option String → List Item
  | some value => [.word name, .symbol .equal, .word value, .blank]
  | none => []

/-- The layout of a stage after its name. -/
def Stage.bodyLayout : Stage → List Item
  | .table columns => commaLayout (columns.map TableColumn.layout)
  | .stats aggregations groupBy => aggregationsLayout aggregations groupBy
  | .regex field pattern => optionLayout "field" field ++ [patternItem pattern]
  | .sort keys => commaLayout (keys.map SortKey.layout)
  | .filter condition => condition.layout
  | .timeChart span timeColumn maxGroups aggregations groupBy =>
    optionLayout "span" (span.map TimeSpan.text) ++ optionLayout "timeCol" timeColumn
      ++ optionLayout "maxGroups" (maxGroups.map toString)
      ++ aggregationsLayout aggregations groupBy
  | .eval target value =>
    .word target :: .blank :: .symbol .equal :: .blank :: value.layout

/-- The command of a stage. -/
def Stage.command : Stage → Command
  | table .. => .table
  | stats .. => .stats
  | regex .. => .regex
  | sort .. => .sort
  | filter .. => .filter
  | timeChart .. => .timeChart
  | eval .. => .eval

/-- The layout of a stage with its pipe. -/
def Stage.layout (s : Stage) : List Item :=
  .symbol .pipe :: .blank :: .word s.name :: .blank :: s.bodyLayout

/-- The layout of a query. -/
def Query.layout (q : Query) : List Item :=
  blankLayout (q.preFilters.map PreFilter.layout ++ q.search.toList.map Search.layout
    ++ q.pipeline.map Stage.layout)

/-! ## Texts -/

/-- The piece of a pattern has the text between its quotes. -/
theorem patternItem_text (s : String) : (patternItem s).text = (quotePattern s).toList := by
  unfold patternItem quotePattern
  split <;> simp [Item.text, quote]

/-- Layouts with commas between them have the text of a list. -/
theorem chars_commaLayout (layouts : List (List Item)) :
    chars (commaLayout layouts) =
      (commaList (layouts.map fun items => String.ofList (chars items))).toList := by
  induction layouts with
  | nil => rfl
  | cons items layouts ih =>
    cases layouts with
    | nil => simp [commaLayout, commaList, Text.join]
    | cons more layouts =>
      rw [commaLayout, chars_append, chars_cons, chars_cons, ih]
      · simp [commaList, Text.join, Symbol.text]
      · simp

/-- Layouts with blanks between them have the texts with blanks between them. -/
theorem chars_blankLayout (layouts : List (List Item)) :
    chars (blankLayout layouts) =
      (Text.join " " (layouts.map fun items => String.ofList (chars items))).toList := by
  induction layouts with
  | nil => rfl
  | cons items layouts ih =>
    cases layouts with
    | nil => simp [blankLayout, Text.join]
    | cons more layouts =>
      rw [blankLayout, chars_append, chars_cons, ih]
      · simp [Text.join]
      · simp

/-- A layout in parentheses has its text in parentheses. -/
theorem chars_wrap {items : List Item} {text : String} (h : chars items = text.toList)
    (wrapped : Bool) : chars (wrap wrapped items) = (parenthesize wrapped text).toList := by
  cases wrapped <;> simp [wrap, parenthesize, h, Symbol.text]

/-- The layout of a pre-filter has its text. -/
theorem PreFilter.chars_layout (f : PreFilter) : chars f.layout = f.text.toList := by
  obtain ⟨key, op, value⟩ := f
  cases op <;> simp [layout, text, patternItem_text, FilterOp.symbol, FilterOp.text,
    Symbol.text]

/-- The piece of a search literal has its text. -/
theorem SearchLiteral.item_text (l : SearchLiteral) : l.item.text = l.canonical.toList := by
  cases l <;> simp [item, canonical]

/-- The layout of a search has its text. -/
theorem Search.chars_layout (s : Search) : chars s.layout = s.text.toList := by
  induction s with
  | literal l => simp [layout, text, SearchLiteral.item_text]
  | and l r hl hr => simp [layout, text, chars_wrap hl, hr]
  | or l r hl hr => simp [layout, text, chars_wrap hl, hr]

/-- The layout of a number has its text. -/
theorem chars_numberLayout (x : Float) :
    chars (numberLayout x) = (Number.plainText x).toList := by
  unfold numberLayout
  split
  next h => simp [h, Symbol.text]
  next => simp [Item.text]

/-- The layout of a constant has its text. -/
theorem Literal.chars_layout (l : Literal) : chars l.layout = l.text.toList := by
  cases l with
  | number x => exact chars_numberLayout x
  | string s => simp [layout, text]
  | boolean b => simp [layout, text]
  | null => simp [layout, text]

/-- The symbol of an operator has its text. -/
theorem BinaryOp.symbol_text (op : BinaryOp) : op.symbol.text = op.text := by cases op <;> rfl

mutual
/-- The layout of an expression has its text. -/
theorem Expr.chars_layout : (e : Expr) → chars e.layout = e.text.toList
  | .literal l => by rw [Expr.layout, Expr.text, l.chars_layout]
  | .column name => by simp [Expr.layout, Expr.text]
  | .not e => by simp [Expr.layout, Expr.text, chars_wrap e.chars_layout, Symbol.text]
  | .negate e => by simp [Expr.layout, Expr.text, chars_wrap e.chars_layout, Symbol.text]
  | .binary op l r => by
    simp [Expr.layout, Expr.text, chars_wrap l.chars_layout, chars_wrap r.chars_layout, 
      BinaryOp.symbol_text]
  | .member e list => by
    have hlist : (list.map Literal.layout).map (fun items => String.ofList (chars items)) =
        list.map Literal.text := by simp [Literal.chars_layout]
    simp [Expr.layout, Expr.text, chars_wrap e.chars_layout, chars_commaLayout, hlist, 
      Symbol.text]
  | .call f args => by
    simp [Expr.layout, Expr.text, chars_commaLayout, argumentTexts_eq args, Symbol.text]

/-- The layouts of arguments have their texts. -/
theorem argumentTexts_eq : (args : List Expr) →
    (argumentLayouts args).map (fun items => String.ofList (chars items)) = argumentTexts args
  | [] => rfl
  | e :: rest => by
    simp [argumentLayouts, argumentTexts, e.chars_layout, argumentTexts_eq rest]
end

/-- The layout of a new name has its text. -/
theorem chars_newNameLayout (name : Option String) :
    chars (newNameLayout name) = (newNameText name).toList := by
  cases name <;> simp [newNameLayout, newNameText]

/-- The layout of a column has its text. -/
theorem TableColumn.chars_layout (c : TableColumn) : chars c.layout = c.text.toList := by
  simp [layout, text, chars_newNameLayout]

/-- The layout of an aggregation has its text. -/
theorem AggregateCall.chars_layout (a : AggregateCall) : chars a.layout = a.text.toList := by
  obtain ⟨function, column, newName⟩ := a
  cases column <;> simp [layout, text, chars_newNameLayout, Symbol.text]

/-- The layout of a sort key has its text. -/
theorem SortKey.chars_layout (k : SortKey) : chars k.layout = k.text.toList := by
  simp [layout, text]

/-- The layout of aggregations and their groups has their text. -/
theorem chars_aggregationsLayout (aggregations : List AggregateCall) (groupBy : List String) :
    chars (aggregationsLayout aggregations groupBy) =
      (aggregationsText aggregations groupBy).toList := by
  unfold aggregationsLayout aggregationsText groupLayout
  split <;>
    simp [chars_commaLayout, AggregateCall.chars_layout, Function.comp_def]

/-- The layout of an option has its text. -/
theorem chars_optionLayout (name : String) (value : Option String) :
    chars (optionLayout name value) = (optionText name value).toList := by
  cases value <;> simp [optionLayout, optionText, Symbol.text]

/-- The layout of a stage behind its name has its text. -/
theorem Stage.chars_bodyLayout (s : Stage) : chars s.bodyLayout = s.body.toList := by
  cases s with
  | table columns => simp [bodyLayout, body, chars_commaLayout, TableColumn.chars_layout, Function.comp_def]
  | stats aggregations groupBy => exact chars_aggregationsLayout aggregations groupBy
  | regex field pattern =>
    simp [bodyLayout, body, chars_optionLayout, patternItem_text]
  | sort keys => simp [bodyLayout, body, chars_commaLayout, SortKey.chars_layout, Function.comp_def]
  | filter condition => exact condition.chars_layout
  | timeChart span timeColumn maxGroups aggregations groupBy =>
    simp [bodyLayout, body, chars_optionLayout, chars_aggregationsLayout]
  | eval target value =>
    simp [bodyLayout, body, value.chars_layout, Symbol.text]

/-- The layout of a stage has its text behind a pipe. -/
theorem Stage.chars_layout (s : Stage) : chars s.layout = ("| " ++ s.text).toList := by
  simp [layout, text, s.chars_bodyLayout, Symbol.text]

/-- A layout is the canonical text. -/
theorem Query.chars_layout (q : Query) : chars q.layout = q.text.toList := by
  rw [layout, chars_blankLayout, List.map_append, List.map_append, List.map_map, List.map_map,
    List.map_map, text]
  simp only [Function.comp_def, PreFilter.chars_layout, Search.chars_layout, Stage.chars_layout,
    String.ofList_toList]

end LogSearch
