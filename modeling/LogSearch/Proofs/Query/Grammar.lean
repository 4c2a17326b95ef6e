import Mathlib.Logic.Relation
import LogSearch.Query.Parser

/-!
# The grammar of queries

Each production is a relation between the tokens ahead, what they write, and the tokens that are
left. `WritesStage ts s us` says that `ts` starts with a stage that writes `s`, and that `us` comes
after it.

* `Repeated`, `Separated`, `Maybe`, `Possibly`: the repetitions and options of the notation.
* `Joined`: operands with operators between them that bind to the left.
* `WritesSearch`, `WritesLogical`, `WritesStage`: the productions of the head, of expressions and
  of stages.
* `WritesQuery`: pre-filters, an optional search, and stages after pipes.
* `Passes`: productions take tokens and take no pipe.
-/

namespace LogSearch.Query

open LogSearch.Query.Parser (filterOp? filterValue? literal? logicalOp? comparisonOp? sumOp?
  productOp? constantPattern? positive? ChartOptions)

variable {α : Type}

/-! ## Notation -/

/-- Any number of items. -/
inductive Repeated (Item : List Token → α → List Token → Prop) :
    List Token → List α → List Token → Prop
  | nil {ts : List Token} : Repeated Item ts [] ts
  | cons {a : α} {as : List α} {ts us vs : List Token} :
      Item ts a us → Repeated Item us as vs → Repeated Item ts (a :: as) vs

/-- Items with commas between them, at least one. -/
inductive Separated (Item : List Token → α → List Token → Prop) :
    List Token → List α → List Token → Prop
  | single {a : α} {ts us : List Token} : Item ts a us → Separated Item ts [a] us
  | cons {a : α} {as : List α} {comma : Token} {ts us vs : List Token} :
      Item ts a (comma :: us) → comma.kind = .symbol .comma → Separated Item us as vs →
      Separated Item ts (a :: as) vs

/-- An item or nothing. -/
inductive Maybe (Item : List Token → α → List Token → Prop) :
    List Token → Option α → List Token → Prop
  | none {ts : List Token} : Maybe Item ts none ts
  | some {a : α} {ts us : List Token} : Item ts a us → Maybe Item ts (some a) us

/-- A list of items or nothing, which writes the empty list. -/
inductive Possibly (Items : List Token → List α → List Token → Prop) :
    List Token → List α → List Token → Prop
  | none {ts : List Token} : Possibly Items ts [] ts
  | some {as : List α} {ts us : List Token} : Items ts as us → Possibly Items ts as us

/-- Further operands, each after an operator; what has been read becomes the left operand. -/
inductive Further (op? : TokenKind → Option BinaryOp)
    (Operand : List Token → Expr → List Token → Prop) :
    Expr → List Token → Expr → List Token → Prop
  | done {e : Expr} {ts : List Token} : Further op? Operand e ts e ts
  | join {l r e : Expr} {op : BinaryOp} {t : Token} {ts us vs : List Token} :
      op? t.kind = some op → Operand ts r us → Further op? Operand (.binary op l r) us e vs →
      Further op? Operand l (t :: ts) e vs

/-- Operands with operators between them that bind to the left. -/
inductive Joined (op? : TokenKind → Option BinaryOp)
    (Operand : List Token → Expr → List Token → Prop) : List Token → Expr → List Token → Prop
  | mk {l e : Expr} {ts us vs : List Token} :
      Operand ts l us → Further op? Operand l us e vs → Joined op? Operand ts e vs

/-! ## Head -/

/-- `preFilter := IDENT ("=" | "!=") (IDENT | STRING | BACKTICK | NUMBER)` -/
inductive WritesPreFilter : List Token → PreFilter → List Token → Prop
  | mk {key value : String} {op : FilterOp} {k o v : Token} {ts : List Token} :
      k.kind = .word key → filterOp? o.kind = some op → filterValue? v = some value →
      WritesPreFilter (k :: o :: v :: ts) ⟨key, op, value⟩ ts

mutual
/-- `search := searchFactor (AND search | OR search | search)?`; a term beside another is joined to
it as by `AND`. -/
inductive WritesSearch : List Token → Search → List Token → Prop
  | single {s : Search} {ts us : List Token} : WritesSearchFactor ts s us → WritesSearch ts s us
  | and {l r : Search} {t : Token} {ts us vs : List Token} :
      WritesSearchFactor ts l (t :: us) → t.kind = .keyword .searchAnd → WritesSearch us r vs →
      WritesSearch ts (.and l r) vs
  | or {l r : Search} {t : Token} {ts us vs : List Token} :
      WritesSearchFactor ts l (t :: us) → t.kind = .keyword .searchOr → WritesSearch us r vs →
      WritesSearch ts (.or l r) vs
  | beside {l r : Search} {ts us vs : List Token} :
      WritesSearchFactor ts l us → WritesSearch us r vs → WritesSearch ts (.and l r) vs

/-- `searchFactor := "(" search ")" | IDENT | NUMBER | STRING | BACKTICK` -/
inductive WritesSearchFactor : List Token → Search → List Token → Prop
  | parens {s : Search} {l r : Token} {ts us : List Token} :
      l.kind = .symbol .leftParen → WritesSearch ts s (r :: us) → r.kind = .symbol .rightParen →
      WritesSearchFactor (l :: ts) s us
  | word {s : String} {t : Token} {ts : List Token} :
      t.kind = .word s → WritesSearchFactor (t :: ts) (.literal (.term s)) ts
  | number {x : Float} {t : Token} {ts : List Token} :
      t.kind = .number x → WritesSearchFactor (t :: ts) (.literal (.term t.text)) ts
  | phrase {s : String} {t : Token} {ts : List Token} :
      t.kind = .quoted s ∨ t.kind = .backtick s →
      WritesSearchFactor (t :: ts) (.literal (.phrase s)) ts
end

/-! ## Expressions -/

/-- A constant in the list after `in`; a number may have a sign. -/
inductive WritesConstant : List Token → Literal → List Token → Prop
  | plain {l : Literal} {kind : HighlightKind} {t : Token} {ts : List Token} :
      literal? t.kind = some (l, kind) → WritesConstant (t :: ts) l ts
  | negative {x : Float} {m t : Token} {ts : List Token} :
      m.kind = .symbol .minus → t.kind = .number x → WritesConstant (m :: t :: ts) (.number (-x)) ts

/-- `"in" "[" literal ("," literal)* "]"` -/
inductive WritesMembers : List Token → List Literal → List Token → Prop
  | mk {list : List Literal} {i l r : Token} {ts us : List Token} :
      i.kind = .keyword .memberOf → l.kind = .symbol .leftBracket →
      Separated WritesConstant ts list (r :: us) → r.kind = .symbol .rightBracket →
      WritesMembers (i :: l :: ts) list us

section

variable [Regex.Library]

/-- Whether a text is a regular expression of the library. -/
def Compiles (pattern : String) : Prop := (Regex.compile pattern).isOk

/-- What a call must fulfil: as many arguments as its function takes, and a pattern where it holds
a constant one. -/
structure CallFits (f : Function) (args : List Expr) : Prop where
  count : f.takes args.length
  pattern {pattern : String} : constantPattern? f args = some pattern → Compiles pattern

mutual
/-- `logicalExpr := unit ("&&" logicalExpr | "||" logicalExpr)?` -/
inductive WritesLogical : List Token → Expr → List Token → Prop
  | single {e : Expr} {ts us : List Token} : WritesCondition ts e us → WritesLogical ts e us
  | join {l r : Expr} {op : BinaryOp} {t : Token} {ts us vs : List Token} :
      WritesCondition ts l (t :: us) → logicalOp? t.kind = some op → WritesLogical us r vs →
      WritesLogical ts (.binary op l r) vs

/-- `unit := "!" unit | comparison` -/
inductive WritesCondition : List Token → Expr → List Token → Prop
  | not {e : Expr} {t : Token} {ts us : List Token} :
      t.kind = .symbol .bang → WritesCondition ts e us → WritesCondition (t :: ts) (.not e) us
  | comparison {e : Expr} {ts us : List Token} :
      WritesComparison ts e us → WritesCondition ts e us

/-- `comparison := arith (cmpOp arith | in "[" literal ("," literal)* "]")?` -/
inductive WritesComparison : List Token → Expr → List Token → Prop
  | single {e : Expr} {ts us : List Token} :
      Joined sumOp? (Joined productOp? WritesFactor) ts e us → WritesComparison ts e us
  | compare {l r : Expr} {op : BinaryOp} {t : Token} {ts us vs : List Token} :
      Joined sumOp? (Joined productOp? WritesFactor) ts l (t :: us) →
      comparisonOp? t.kind = some op → Joined sumOp? (Joined productOp? WritesFactor) us r vs →
      WritesComparison ts (.binary op l r) vs
  | member {e : Expr} {list : List Literal} {ts us vs : List Token} :
      Joined sumOp? (Joined productOp? WritesFactor) ts e us → WritesMembers us list vs →
      WritesComparison ts (.member e list) vs

/-- `factor := "-" factor | "(" logicalExpr ")" | literal | column | function "(" args ")"` -/
inductive WritesFactor : List Token → Expr → List Token → Prop
  | negate {e : Expr} {t : Token} {ts us : List Token} :
      t.kind = .symbol .minus → WritesFactor ts e us → WritesFactor (t :: ts) (.negate e) us
  | parens {e : Expr} {l r : Token} {ts us : List Token} :
      l.kind = .symbol .leftParen → WritesLogical ts e (r :: us) → r.kind = .symbol .rightParen →
      WritesFactor (l :: ts) e us
  | literal {l : Literal} {kind : HighlightKind} {t : Token} {ts : List Token} :
      literal? t.kind = some (l, kind) → WritesFactor (t :: ts) (.literal l) ts
  | column {name : String} {t : Token} {ts : List Token} :
      t.kind = .word name → WritesFactor (t :: ts) (.column name) ts
  | call {name : String} {f : Function} {args : List Expr} {t l r : Token} {ts us : List Token} :
      t.kind = .word name → Function.ofName? name = some f → l.kind = .symbol .leftParen →
      Possibly (Separated WritesLogical) ts args (r :: us) → r.kind = .symbol .rightParen →
      CallFits f args → WritesFactor (t :: l :: ts) (.call f args) us
end

/-- A product of factors. -/
abbrev WritesProduct : List Token → Expr → List Token → Prop := Joined productOp? WritesFactor

/-- A sum of products. -/
abbrev WritesSum : List Token → Expr → List Token → Prop := Joined sumOp? WritesProduct

/-! ## Stages -/

/-- A name, which is a word. -/
inductive WritesName : List Token → String → List Token → Prop
  | mk {s : String} {t : Token} {ts : List Token} : t.kind = .word s → WritesName (t :: ts) s ts

/-- A part that starts with a keyword. -/
inductive Under (k : Keyword) (Item : List Token → α → List Token → Prop) :
    List Token → α → List Token → Prop
  | mk {a : α} {t : Token} {ts us : List Token} :
      t.kind = .keyword k → Item ts a us → Under k Item (t :: ts) a us

/-- A part that starts with a keyword and `=`. -/
inductive Setting (k : Keyword) (Item : List Token → α → List Token → Prop) :
    List Token → α → List Token → Prop
  | mk {a : α} {t e : Token} {ts us : List Token} :
      t.kind = .keyword k → e.kind = .symbol .equal → Item ts a us →
      Setting k Item (t :: e :: ts) a us

/-- `column [as alias]` -/
inductive WritesTableColumn : List Token → TableColumn → List Token → Prop
  | mk {name : String} {newName : Option String} {ts us vs : List Token} :
      WritesName ts name us → Maybe (Under .as WritesName) us newName vs →
      WritesTableColumn ts ⟨name, newName⟩ vs

/-- `aggCall := FUNC "(" [column] ")" [as alias]`; every aggregation but `count` has a column. -/
inductive WritesAggregateCall : List Token → AggregateCall → List Token → Prop
  | mk {name : String} {f : Aggregate} {column newName : Option String} {t l r : Token}
      {ts us vs : List Token} :
      t.kind = .word name → Aggregate.ofName? name = some f → l.kind = .symbol .leftParen →
      Maybe WritesName ts column (r :: us) → r.kind = .symbol .rightParen →
      (column = none → f = .count) → Maybe (Under .as WritesName) us newName vs →
      WritesAggregateCall (t :: l :: ts) ⟨f, column, newName⟩ vs

/-- `aggCall ("," aggCall)* [by column ("," column)*]` -/
inductive WritesAggregations :
    List Token → List AggregateCall × List String → List Token → Prop
  | mk {calls : List AggregateCall} {groupBy : List String} {ts us vs : List Token} :
      Separated WritesAggregateCall ts calls us →
      Possibly (Under .by (Separated WritesName)) us groupBy vs →
      WritesAggregations ts (calls, groupBy) vs

/-- A regular expression, as a text of either kind. -/
inductive WritesPattern : List Token → String → List Token → Prop
  | mk {pattern : String} {t : Token} {ts : List Token} :
      t.kind = .backtick pattern ∨ t.kind = .quoted pattern → Compiles pattern →
      WritesPattern (t :: ts) pattern ts

/-- `column [asc | desc]`; a key ascends unless it says otherwise. -/
inductive WritesSortKey : List Token → SortKey → List Token → Prop
  | plain {name : String} {ts us : List Token} :
      WritesName ts name us → WritesSortKey ts ⟨name, .asc⟩ us
  | asc {name : String} {t : Token} {ts us : List Token} :
      WritesName ts name (t :: us) → t.kind = .keyword .asc → WritesSortKey ts ⟨name, .asc⟩ us
  | desc {name : String} {t : Token} {ts us : List Token} :
      WritesName ts name (t :: us) → t.kind = .keyword .desc → WritesSortKey ts ⟨name, .desc⟩ us

/-- A duration, which the lexer gives as a word or a number. -/
inductive WritesDuration : List Token → TimeSpan → List Token → Prop
  | mk {span : TimeSpan} {t : Token} {ts : List Token} :
      ((∃ s, t.kind = .word s) ∨ ∃ x, t.kind = .number x) → TimeSpan.ofText? t.text = some span →
      WritesDuration (t :: ts) span ts

/-- A positive integer. -/
inductive WritesPositive : List Token → Nat → List Token → Prop
  | mk {x : Float} {n : Nat} {t : Token} {ts : List Token} :
      t.kind = .number x → positive? x = some n → WritesPositive (t :: ts) n ts

/-- An option of a `timechart` stage. -/
inductive ChartOption
  | span (span : TimeSpan)
  | timeColumn (column : String)
  | maxGroups (count : Nat)

/-- The options with one set; one that was given before is replaced. -/
def ChartOption.set (options : ChartOptions) : ChartOption → ChartOptions
  | span s => { options with span := some s }
  | timeColumn c => { options with timeColumn := some c }
  | maxGroups n => { options with maxGroups := some n }

/-- `span "=" DURATION | timeCol "=" column | maxGroups "=" NUMBER` -/
inductive WritesChartOption : List Token → ChartOption → List Token → Prop
  | span {s : TimeSpan} {ts us : List Token} :
      Setting .span WritesDuration ts s us → WritesChartOption ts (.span s) us
  | timeColumn {c : String} {ts us : List Token} :
      Setting .timeColumn WritesName ts c us → WritesChartOption ts (.timeColumn c) us
  | maxGroups {n : Nat} {ts us : List Token} :
      Setting .maxGroups WritesPositive ts n us → WritesChartOption ts (.maxGroups n) us

/-- The body of the stage that a command names. -/
inductive WritesBody : Command → List Token → Stage → List Token → Prop
  | table {columns : List TableColumn} {ts us : List Token} :
      Separated WritesTableColumn ts columns us → WritesBody .table ts (.table columns) us
  | stats {calls : List AggregateCall} {groupBy : List String} {ts us : List Token} :
      WritesAggregations ts (calls, groupBy) us → WritesBody .stats ts (.stats calls groupBy) us
  | regex {field : Option String} {pattern : String} {ts us vs : List Token} :
      Maybe (Setting .field WritesName) ts field us → WritesPattern us pattern vs →
      WritesBody .regex ts (.regex field pattern) vs
  | sort {keys : List SortKey} {ts us : List Token} :
      Separated WritesSortKey ts keys us → WritesBody .sort ts (.sort keys) us
  | filter {condition : Expr} {ts us : List Token} :
      WritesLogical ts condition us → WritesBody .filter ts (.filter condition) us
  | timeChart {list : List ChartOption} {options : ChartOptions} {calls : List AggregateCall}
      {groupBy : List String} {ts us vs : List Token} :
      Repeated WritesChartOption ts list us →
      list.foldl ChartOption.set ⟨none, none, none⟩ = options →
      WritesAggregations us (calls, groupBy) vs →
      WritesBody .timeChart ts
        (.timeChart options.span options.timeColumn options.maxGroups calls groupBy) vs
  | eval {target : String} {value : Expr} {e : Token} {ts us vs : List Token} :
      WritesName ts target (e :: us) → e.kind = .symbol .equal → WritesLogical us value vs →
      WritesBody .eval ts (.eval target value) vs

/-- A command and its body. -/
inductive WritesStage : List Token → Stage → List Token → Prop
  | mk {c : Command} {s : Stage} {t : Token} {ts us : List Token} :
      t.kind = .command c → WritesBody c ts s us → WritesStage (t :: ts) s us

/-! ## Queries -/

/-- `preFilter* search?`, with no token left. -/
inductive WritesHead : List Token → List PreFilter → Option Search → Prop
  | mk {filters : List PreFilter} {search : Option Search} {ts us : List Token} :
      Repeated WritesPreFilter ts filters us → Maybe WritesSearch us search [] →
      WritesHead ts filters search

/-- `(PIPE stage)*`, with no token left. -/
inductive WritesStages : List Token → List Stage → Prop
  | nil : WritesStages [] []
  | cons {s : Stage} {stages : List Stage} {pipe : Token} {ts us : List Token} :
      pipe.kind = .symbol .pipe → WritesStage ts s [] → WritesStages us stages →
      WritesStages (pipe :: (ts ++ us)) (s :: stages)

/-- `query := preFilter* search? (PIPE stage)*` -/
inductive WritesQuery : List Token → Query → Prop
  | mk {filters : List PreFilter} {search : Option Search} {stages : List Stage}
      {ts us : List Token} :
      WritesHead ts filters search → WritesStages us stages →
      WritesQuery (ts ++ us) ⟨filters, search, stages⟩

end

/-! ## Tokens taken

A production takes at least one token, and never a pipe. So what is left is shorter, and pipes
divide a query in one way only. -/

/-- A token other than a pipe is taken. -/
inductive Drops : List Token → List Token → Prop
  | mk {t : Token} {ts : List Token} : t.kind ≠ .symbol .pipe → Drops (t :: ts) ts

/-- Some tokens are taken, at least one, none of them a pipe. -/
abbrev Passes : List Token → List Token → Prop := Relation.TransGen Drops

/-- Tokens may be taken, none of them a pipe. -/
abbrev MayPass : List Token → List Token → Prop := Relation.ReflTransGen Drops

/-- Taking tokens leaves fewer. -/
theorem Passes.length_lt {ts us : List Token} (h : Passes ts us) : us.length < ts.length := by
  induction h with
  | single h => cases h; simp
  | tail _ h ih => cases h; simp at ih; omega

/-- Tokens that may be taken stand in front, and none of them is a pipe. -/
theorem MayPass.exists_append {ts us : List Token} (h : MayPass ts us) :
    ∃ xs, ts = xs ++ us ∧ ∀ x ∈ xs, x.kind ≠ .symbol .pipe := by
  induction h using Relation.ReflTransGen.head_induction_on with
  | refl => exact ⟨[], rfl, by simp⟩
  | head h _ ih =>
    obtain ⟨hk⟩ := h
    obtain ⟨xs, rfl, hxs⟩ := ih
    exact ⟨_ :: xs, rfl, List.forall_mem_cons.2 ⟨hk, hxs⟩⟩

/-- Tokens that may be taken to the end hold no pipe. -/
theorem MayPass.no_pipe {ts : List Token} (h : MayPass ts []) :
    ∀ t ∈ ts, t.kind ≠ .symbol .pipe := by
  obtain ⟨xs, rfl, hxs⟩ := h.exists_append
  simpa using hxs

/-- A token that is no pipe can be taken. -/
theorem passes_one {t : Token} {k : TokenKind} {ts : List Token} (h : t.kind = k)
    (hk : k ≠ .symbol .pipe) : Passes (t :: ts) ts := .single ⟨h ▸ hk⟩

/-- A token that is no pipe can be taken before others. -/
theorem Passes.cons {t : Token} {k : TokenKind} {ts us : List Token} (h : t.kind = k)
    (hk : k ≠ .symbol .pipe) (hp : MayPass ts us) : Passes (t :: ts) us :=
  (passes_one h hk).trans_left hp

/-- A token that is no pipe can be taken after others. -/
theorem Passes.snoc {t : Token} {k : TokenKind} {ts us : List Token} (hp : Passes ts (t :: us))
    (h : t.kind = k) (hk : k ≠ .symbol .pipe) : Passes ts us := hp.trans (passes_one h hk)

/-- Items with commas between them take tokens, if each item does. -/
theorem Separated.passes {Item : List Token → α → List Token → Prop}
    (hi : ∀ {ts a us}, Item ts a us → Passes ts us) {ts us : List Token} {as : List α}
    (h : Separated Item ts as us) : Passes ts us := by
  induction h with
  | single h => exact hi h
  | cons h hc _ ih => exact ((hi h).snoc hc (by simp)).trans ih

/-- Any number of items may take tokens. -/
theorem Repeated.mayPass {Item : List Token → α → List Token → Prop}
    (hi : ∀ {ts a us}, Item ts a us → Passes ts us) {ts us : List Token} {as : List α}
    (h : Repeated Item ts as us) : MayPass ts us := by
  induction h with
  | nil => exact .refl
  | cons h _ ih => exact (hi h).to_reflTransGen.trans ih

/-- An item or nothing may take tokens. -/
theorem Maybe.mayPass {Item : List Token → α → List Token → Prop}
    (hi : ∀ {ts a us}, Item ts a us → Passes ts us) {ts us : List Token} {a : Option α}
    (h : Maybe Item ts a us) : MayPass ts us := by
  cases h with
  | none => exact .refl
  | some h => exact (hi h).to_reflTransGen

/-- Items or nothing may take tokens. -/
theorem Possibly.mayPass {Items : List Token → List α → List Token → Prop}
    (hi : ∀ {ts as us}, Items ts as us → Passes ts us) {ts us : List Token} {as : List α}
    (h : Possibly Items ts as us) : MayPass ts us := by
  cases h with
  | none => exact .refl
  | some h => exact (hi h).to_reflTransGen

/-- A pre-filter takes tokens other than pipes. -/
theorem WritesPreFilter.passes {ts us : List Token} {f : PreFilter} (h : WritesPreFilter ts f us) :
    Passes ts us := by
  obtain ⟨hk, ho, hv⟩ := h
  refine .cons hk (by simp) (.tail (.single ⟨?_⟩) ⟨?_⟩)
  · intro hp
    simp [hp, filterOp?] at ho
  · intro hp
    simp [hp, filterValue?] at hv

mutual
/-- A search takes tokens other than pipes. -/
theorem WritesSearch.passes : ∀ {ts : List Token} {s : Search} {us : List Token},
    WritesSearch ts s us → Passes ts us
  | _, _, _, .single h => h.passes
  | _, _, _, .and h hk g => (h.passes.snoc hk (by simp)).trans g.passes
  | _, _, _, .or h hk g => (h.passes.snoc hk (by simp)).trans g.passes
  | _, _, _, .beside h g => h.passes.trans g.passes

/-- A factor of a search takes tokens other than pipes. -/
theorem WritesSearchFactor.passes : ∀ {ts : List Token} {s : Search} {us : List Token},
    WritesSearchFactor ts s us → Passes ts us
  | _, _, _, .parens hl h hr =>
    .cons hl (by simp) (h.passes.snoc hr (by simp)).to_reflTransGen
  | _, _, _, .word h => passes_one h (by simp)
  | _, _, _, .number h => passes_one h (by simp)
  | _, _, _, .phrase (.inl h) => passes_one h (by simp)
  | _, _, _, .phrase (.inr h) => passes_one h (by simp)
end

/-- A constant of a list takes tokens other than pipes. -/
theorem WritesConstant.passes {ts us : List Token} {l : Literal} (h : WritesConstant ts l us) :
    Passes ts us := by
  cases h with
  | plain h => exact .single ⟨fun hp => by simp [hp, literal?] at h⟩
  | negative hm hn => exact .cons hm (by simp) (passes_one hn (by simp)).to_reflTransGen

/-- A list of constants takes tokens other than pipes. -/
theorem WritesMembers.passes {ts us : List Token} {list : List Literal}
    (h : WritesMembers ts list us) : Passes ts us := by
  obtain ⟨hi, hl, h, hr⟩ := h
  exact .cons hi (by simp) (.head ⟨by simp [hl]⟩
    ((h.passes WritesConstant.passes).snoc hr (by simp)).to_reflTransGen)

mutual
/-- An expression takes tokens other than pipes. -/
theorem WritesLogical.passes [Regex.Library] : ∀ {ts : List Token} {e : Expr} {us : List Token},
    WritesLogical ts e us → Passes ts us
  | _, _, _, .single h => h.passes
  | _, _, _, .join h ho g =>
    (h.passes.tail ⟨fun hp => by simp [hp, logicalOp?] at ho⟩).trans g.passes

/-- A condition takes tokens other than pipes. -/
theorem WritesCondition.passes [Regex.Library] : ∀ {ts : List Token} {e : Expr} {us : List Token},
    WritesCondition ts e us → Passes ts us
  | _, _, _, .not hk h => .cons hk (by simp) h.passes.to_reflTransGen
  | _, _, _, .comparison h => h.passes

/-- A comparison takes tokens other than pipes. -/
theorem WritesComparison.passes [Regex.Library] : ∀ {ts : List Token} {e : Expr} {us : List Token},
    WritesComparison ts e us → Passes ts us
  | _, _, _, .single h => passes_sum h
  | _, _, _, .compare h ho g =>
    ((passes_sum h).tail ⟨fun hp => by simp [hp, comparisonOp?] at ho⟩).trans (passes_sum g)
  | _, _, _, .member h g => (passes_sum h).trans g.passes

/-- A sum takes tokens other than pipes. -/
theorem passes_sum [Regex.Library] : ∀ {ts : List Token} {e : Expr} {us : List Token},
    WritesSum ts e us → Passes ts us
  | _, _, _, .mk h g => (passes_product h).trans_left (mayPass_furtherSum g)

/-- Further products of a sum may take tokens. -/
theorem mayPass_furtherSum [Regex.Library] : ∀ {l : Expr} {ts : List Token} {e : Expr}
    {us : List Token},
    Further sumOp? WritesProduct l ts e us → MayPass ts us
  | _, _, _, _, .done => .refl
  | _, _, _, _, .join ho h g =>
    .head ⟨fun hp => by simp [hp, sumOp?] at ho⟩
      ((passes_product h).to_reflTransGen.trans (mayPass_furtherSum g))

/-- A product takes tokens other than pipes. -/
theorem passes_product [Regex.Library] : ∀ {ts : List Token} {e : Expr} {us : List Token},
    WritesProduct ts e us → Passes ts us
  | _, _, _, .mk h g => h.passes.trans_left (mayPass_furtherProduct g)

/-- Further factors of a product may take tokens. -/
theorem mayPass_furtherProduct [Regex.Library] : ∀ {l : Expr} {ts : List Token} {e : Expr}
    {us : List Token},
    Further productOp? WritesFactor l ts e us → MayPass ts us
  | _, _, _, _, .done => .refl
  | _, _, _, _, .join ho h g =>
    .head ⟨fun hp => by simp [hp, productOp?] at ho⟩
      (h.passes.to_reflTransGen.trans (mayPass_furtherProduct g))

/-- A factor takes tokens other than pipes. -/
theorem WritesFactor.passes [Regex.Library] : ∀ {ts : List Token} {e : Expr} {us : List Token},
    WritesFactor ts e us → Passes ts us
  | _, _, _, .negate hk h => .cons hk (by simp) h.passes.to_reflTransGen
  | _, _, _, .parens hl h hr => .cons hl (by simp) (h.passes.snoc hr (by simp)).to_reflTransGen
  | _, _, _, .literal h => .single ⟨fun hp => by simp [hp, literal?] at h⟩
  | _, _, _, .column h => passes_one h (by simp)
  | _, _, _, .call ht _ hl h hr _ =>
    .cons ht (by simp) (.head ⟨by simp [hl]⟩
      ((mayPass_arguments h).tail ⟨by simp [hr]⟩))

/-- Arguments or nothing may take tokens. -/
theorem mayPass_arguments [Regex.Library] : ∀ {ts : List Token} {args : List Expr}
    {us : List Token},
    Possibly (Separated WritesLogical) ts args us → MayPass ts us
  | _, _, _, .none => .refl
  | _, _, _, .some h => (passes_arguments h).to_reflTransGen

/-- Arguments take tokens other than pipes. -/
theorem passes_arguments [Regex.Library] : ∀ {ts : List Token} {args : List Expr} {us : List Token},
    Separated WritesLogical ts args us → Passes ts us
  | _, _, _, .single h => h.passes
  | _, _, _, .cons h hk g => (h.passes.snoc hk (by simp)).trans (passes_arguments g)
end

/-- A name takes a token. -/
theorem WritesName.passes {ts us : List Token} {s : String} (h : WritesName ts s us) :
    Passes ts us := by
  obtain ⟨h⟩ := h
  exact passes_one h (by simp)

/-- A part that starts with a keyword takes tokens other than pipes. -/
theorem Under.passes {k : Keyword} {Item : List Token → α → List Token → Prop}
    (hi : ∀ {ts a us}, Item ts a us → Passes ts us) {ts us : List Token} {a : α}
    (h : Under k Item ts a us) : Passes ts us := by
  obtain ⟨hk, h⟩ := h
  exact .cons hk (by simp) (hi h).to_reflTransGen

/-- A part that starts with a keyword and `=` takes tokens other than pipes. -/
theorem Setting.passes {k : Keyword} {Item : List Token → α → List Token → Prop}
    (hi : ∀ {ts a us}, Item ts a us → Passes ts us) {ts us : List Token} {a : α}
    (h : Setting k Item ts a us) : Passes ts us := by
  obtain ⟨hk, he, h⟩ := h
  exact .cons hk (by simp) (.head ⟨by simp [he]⟩ (hi h).to_reflTransGen)

/-- A column of a table takes tokens other than pipes. -/
theorem WritesTableColumn.passes {ts us : List Token} {c : TableColumn}
    (h : WritesTableColumn ts c us) : Passes ts us := by
  obtain ⟨h, g⟩ := h
  exact h.passes.trans_left (g.mayPass (Under.passes WritesName.passes))

/-- An aggregation takes tokens other than pipes. -/
theorem WritesAggregateCall.passes {ts us : List Token} {a : AggregateCall}
    (h : WritesAggregateCall ts a us) : Passes ts us := by
  obtain ⟨ht, -, hl, hc, hr, -, hn⟩ := h
  exact .cons ht (by simp) (.head ⟨by simp [hl]⟩ (((hc.mayPass WritesName.passes).tail
    ⟨by simp [hr]⟩).trans (hn.mayPass (Under.passes WritesName.passes))))

/-- Aggregations and their groups take tokens other than pipes. -/
theorem WritesAggregations.passes {ts us : List Token} {a : List AggregateCall × List String}
    (h : WritesAggregations ts a us) : Passes ts us := by
  obtain ⟨h, g⟩ := h
  exact (h.passes WritesAggregateCall.passes).trans_left
    (g.mayPass (Under.passes (Separated.passes WritesName.passes)))

/-- A pattern takes a token. -/
theorem WritesPattern.passes [Regex.Library] {ts us : List Token} {s : String}
    (h : WritesPattern ts s us) :
    Passes ts us := by
  obtain ⟨h | h, -⟩ := h <;> exact passes_one h (by simp)

/-- A sort key takes tokens other than pipes. -/
theorem WritesSortKey.passes {ts us : List Token} {k : SortKey} (h : WritesSortKey ts k us) :
    Passes ts us := by
  cases h with
  | plain h => exact h.passes
  | asc h hk => exact h.passes.snoc hk (by simp)
  | desc h hk => exact h.passes.snoc hk (by simp)

/-- A duration takes a token. -/
theorem WritesDuration.passes {ts us : List Token} {s : TimeSpan} (h : WritesDuration ts s us) :
    Passes ts us := by
  obtain ⟨⟨_, h⟩ | ⟨_, h⟩, -⟩ := h <;> exact passes_one h (by simp)

/-- A positive integer takes a token. -/
theorem WritesPositive.passes {ts us : List Token} {n : Nat} (h : WritesPositive ts n us) :
    Passes ts us := by
  obtain ⟨h, -⟩ := h
  exact passes_one h (by simp)

/-- An option of a chart takes tokens other than pipes. -/
theorem WritesChartOption.passes {ts us : List Token} {o : ChartOption}
    (h : WritesChartOption ts o us) : Passes ts us := by
  cases h with
  | span h => exact h.passes WritesDuration.passes
  | timeColumn h => exact h.passes WritesName.passes
  | maxGroups h => exact h.passes WritesPositive.passes

/-- A body takes tokens other than pipes. -/
theorem WritesBody.passes [Regex.Library] {c : Command} {ts us : List Token} {s : Stage}
    (h : WritesBody c ts s us) : Passes ts us := by
  cases h with
  | table h => exact h.passes WritesTableColumn.passes
  | stats h => exact h.passes
  | regex h g => exact .trans_right (h.mayPass (Setting.passes WritesName.passes)) g.passes
  | sort h => exact h.passes WritesSortKey.passes
  | filter h => exact h.passes
  | timeChart h _ g => exact .trans_right (h.mayPass WritesChartOption.passes) g.passes
  | eval h he g => exact (h.passes.snoc he (by simp)).trans g.passes

/-- A stage takes tokens other than pipes. -/
theorem WritesStage.passes [Regex.Library] {ts us : List Token} {s : Stage}
    (h : WritesStage ts s us) :
    Passes ts us := by
  obtain ⟨hk, h⟩ := h
  exact .cons hk (by simp) h.passes.to_reflTransGen

/-- A stage holds no pipe. -/
theorem WritesStage.no_pipe [Regex.Library] {ts : List Token} {s : Stage}
    (h : WritesStage ts s []) :
    ∀ t ∈ ts, t.kind ≠ .symbol .pipe := MayPass.no_pipe h.passes.to_reflTransGen

/-- The head of a query holds no pipe. -/
theorem WritesHead.no_pipe {ts : List Token} {filters : List PreFilter} {search : Option Search}
    (h : WritesHead ts filters search) : ∀ t ∈ ts, t.kind ≠ .symbol .pipe := by
  obtain ⟨hf, hs⟩ := h
  exact MayPass.no_pipe
    ((hf.mayPass WritesPreFilter.passes).trans (hs.mayPass WritesSearch.passes))

end LogSearch.Query
