import LogSearch.Proofs.Query.Lockstep
import LogSearch.Proofs.Query.Steps

/-!
# Readers walk over their tokens

Every reader of a segment takes its tokens one after the other and highlights them as it does, all
but the marks of structure and, in a search, words.

* `structuralKinds`, `TokenKind.isHighlighted`, `TokenKind.isHighlightedInSearch`: what is
  highlighted where.
* `walks_preFilters`, `walks_search`: the parts of a head.
* `walks_expression`: expressions, by the levels of their grammar.
* `walks_stage`: stages.
-/

namespace LogSearch.Query

/-- The kinds of tokens that are never highlighted. -/
def structuralKinds : List TokenKind :=
  [.symbol .pipe, .symbol .leftParen, .symbol .rightParen, .symbol .comma, .symbol .leftBracket,
    .symbol .rightBracket, .endOfInput]

namespace TokenKind

/-- Whether a token is highlighted outside a search. -/
def isHighlighted (k : TokenKind) : Bool := k ∉ structuralKinds

/-- Whether a token is highlighted in a search, where words are not. -/
def isHighlightedInSearch : TokenKind → Bool
  | word _ => false
  | k => k.isHighlighted

variable {β : Type} {k : TokenKind} {b : β} {F : TokenKind → Option β}

/-- In a search what is highlighted is the same, but for words. -/
theorem isHighlightedInSearch_iff :
    k.isHighlightedInSearch = true ↔ k.isHighlighted = true ∧ ∀ s, k ≠ word s := by
  cases k <;> simp [isHighlightedInSearch]

/-- A token of which a table holds something is highlighted if the table knows no mark of structure. -/
theorem isHighlighted_of_some (hk : F k = some b)
    (hF : (structuralKinds.all fun k => (F k).isNone) = true) : k.isHighlighted = true := by
  refine decide_eq_true fun hmem => ?_
  have hnone := List.all_eq_true.1 hF k hmem
  rw [hk] at hnone
  cases hnone

end TokenKind

namespace Parser

open TokenKind

variable {may : MarkerChange → Prop} {ts : List Token} {fuel : Nat}

/-! ## Heads -/

/-- A pre-filter, or none, is read step by step. -/
theorem walks_preFilter? (ts : List Token) : Walks isHighlighted may ts preFilter? := by
  refine .peek fun c hc => .peekSecond fun c' hc' => ?_
  split
  next key op hkey hop =>
    obtain ⟨us, rfl⟩ := hc.eq_cons hkey (by simp) (by simp)
    obtain ⟨us, rfl⟩ := hc'.second_eq_cons_of_some hop rfl rfl
    refine .take (by rw [hkey]; rfl) (.take (isHighlighted_of_some hop rfl) (.suggest ?_))
    refine .peek fun d hd => ?_
    split
    next => exact .unexpected _
    next value hvalue =>
      -- whether the token is a value is told by its kind alone
      let F (k : TokenKind) : Option String := filterValue? { d.next with kind := k }
      have hF : F d.next.kind = some value := hvalue
      exact .takeNext hd (isHighlighted_of_some hF rfl) rfl rfl fun _ => .pure _
  next => exact .pure _

/-- Pre-filters are read step by step. -/
theorem walks_preFilters (fuel : Nat) : ∀ ts, Walks isHighlighted may ts (preFilters fuel) := by
  induction fuel with
  | zero => exact fun _ => .pure _
  | succ fuel ih =>
    intro ts
    rw [preFilters]
    refine .suggest ((walks_preFilter? ts).attempt.bind fun r us => ?_)
    split
    next => exact .pure _
    next => exact .pure _
    next => exact (ih us).bind fun _ _ => .pure _

/-- Searches and search terms walk that are read with so much fuel. -/
theorem walks_search_and_factor (fuel : Nat) :
    (∀ ts, Walks isHighlightedInSearch may ts (search fuel)) ∧
      ∀ ts, Walks isHighlightedInSearch may ts (searchFactor fuel) := by
  induction fuel with
  | zero => exact ⟨fun _ => .unexpected _, fun _ => .unexpected _⟩
  | succ fuel ih =>
    obtain ⟨hsearch, hfactor⟩ := ih
    constructor
    · intro ts
      rw [search]
      refine (hfactor ts).bind fun left us => .peek fun c hc => ?_
      dsimp only
      split
      next hk =>
        exact .takeNext hc (by rw [hk]; rfl) rfl rfl fun vs => (hsearch vs).bind fun _ _ => .pure _
      next =>
      split
      next hk =>
        exact .takeNext hc (by rw [hk]; rfl) rfl rfl fun vs => (hsearch vs).bind fun _ _ => .pure _
      next =>
      split
      next => exact (hsearch us).bind fun _ _ => .pure _
      next => exact .pure _
    · intro ts
      rw [searchFactor]
      refine .peek fun c hc => ?_
      split
      next hk =>
        obtain ⟨us, rfl⟩ := hc.eq_cons hk (by simp) (by simp)
        refine .advance (by rw [hk]; rfl) ((hsearch us).bind fun inner vs => ?_)
        exact .expect (by simp) rfl fun _ => .pure _
      next s hk =>
        obtain ⟨us, rfl⟩ := hc.eq_cons hk (by simp) (by simp)
        exact .advance (by rw [hk]; rfl) (.pure _)
      next x hk =>
        exact .takeNext hc (by rw [hk]; rfl) rfl rfl fun _ => .pure _
      next s hk =>
        exact .takeNext hc (by rw [hk]; rfl) rfl rfl fun _ => .pure _
      next s hk =>
        exact .takeNext hc (by rw [hk]; rfl) rfl rfl fun _ => .pure _
      next => exact .unexpected _

/-- A search is read step by step. -/
theorem walks_search (fuel : Nat) (ts : List Token) :
    Walks isHighlightedInSearch may ts (search fuel) := (walks_search_and_factor fuel).1 ts

/-! ## Constants -/

/-- A constant of a list is read step by step. -/
theorem walks_literal (ts : List Token) : Walks isHighlighted may ts literal := by
  refine .peek fun c hc => ?_
  split
  next value kind hl =>
    exact .takeNext hc (isHighlighted_of_some hl rfl) rfl rfl fun _ => .pure _
  next =>
    refine .peekSecond fun c' hc' => ?_
    split
    next x hk hx =>
      obtain ⟨us, rfl⟩ := hc.eq_cons hk (by simp) (by simp)
      obtain ⟨us, rfl⟩ := hc'.second_eq_cons hx (by simp) (by simp)
      exact .take (by rw [hk]; rfl) (.take (by rw [hx]; rfl) (.pure _))
    next => exact .unexpected _

/-- Items with commas between them, when the item and the items behind it walk. -/
theorem walks_separated {α : Type} {item : Parser α} {more : Parser (List α)}
    (hi : ∀ ts, Walks isHighlighted may ts item) (hm : ∀ ts, Walks isHighlighted may ts more)
    (ts : List Token) :
    Walks isHighlighted may ts (do
      let a ← item
      if ← eatComma then return a :: (← more) else return [a]) :=
  (hi ts).bind fun _ _ => .eatComma rfl (fun us => (hm us).bind fun _ _ => .pure _) (.pure _)

/-- Constants of a list are read step by step. -/
theorem walks_literals (fuel : Nat) : ∀ ts, Walks isHighlighted may ts (literals fuel) := by
  induction fuel with
  | zero => exact fun _ => .pure _
  | succ fuel ih => exact walks_separated walks_literal ih

/-! ## Expressions -/

/-- Further operands to the left of their operator, one table of operators at a time. -/
theorem walks_further {op? : TokenKind → Option BinaryOp} {l : Expr} {operand : Parser Expr}
    {more : Expr → Parser Expr} (hop : (structuralKinds.all fun k => (op? k).isNone) = true)
    (ho : ∀ ts, Walks isHighlighted may ts operand) (hm : ∀ ts e, Walks isHighlighted may ts (more e))
    (ts : List Token) :
    Walks isHighlighted may ts (do
      match op? (← peek).kind with
      | some op =>
        take .operator
        more (.binary op l (← operand))
      | none => return l) := by
  refine .peek fun c hc => ?_
  split
  next op hk =>
    exact .takeNext hc (isHighlighted_of_some hk hop) rfl rfl fun us =>
      (ho us).bind fun r vs => hm vs _
  next => exact .pure _

/-- Checking a call takes no step. -/
theorem walks_checkCall [Regex.Library] (ts : List Token) (t : Token) (f : Function)
    (args : List Expr) :
    Walks isHighlighted may ts (checkCall t f args) := by
  unfold checkCall
  dsimp only
  split
  next => exact .fail_bind _
  next =>
    split
    next => exact .fail _
    next => exact .pure _

/-- All levels of an expression walk that are read with so much fuel. -/
structure ExpressionsWalk [Regex.Library] (may : MarkerChange → Prop) (fuel : Nat) : Prop where
  logical : ∀ ts, Walks isHighlighted may ts (logical fuel)
  condition : ∀ ts, Walks isHighlighted may ts (condition fuel)
  comparison : ∀ ts, Walks isHighlighted may ts (comparison fuel)
  sum : ∀ ts, Walks isHighlighted may ts (sum fuel)
  sumRest : ∀ ts l, Walks isHighlighted may ts (sumRest fuel l)
  product : ∀ ts, Walks isHighlighted may ts (product fuel)
  productRest : ∀ ts l, Walks isHighlighted may ts (productRest fuel l)
  factor : ∀ ts, Walks isHighlighted may ts (factor fuel)
  arguments : ∀ ts, Walks isHighlighted may ts (arguments fuel)

namespace ExpressionsWalk

variable [Regex.Library] (h : ExpressionsWalk may fuel)

include h

/-- An expression is read step by step, if what it is made of is. -/
theorem logical_succ (ts : List Token) : Walks isHighlighted may ts (Parser.logical (fuel + 1)) := by
  rw [Parser.logical]
  refine (h.condition ts).bind fun left us => .peek fun c hc => ?_
  split
  next op hop =>
    exact .takeNext hc (isHighlighted_of_some hop rfl) rfl rfl fun vs =>
      (h.logical vs).bind fun _ _ => .pure _
  next => exact .pure _

/-- A condition is read step by step, if what it is made of is. -/
theorem condition_succ (ts : List Token) : Walks isHighlighted may ts (Parser.condition (fuel + 1)) := by
  rw [Parser.condition]
  refine .isAt (by simp) (fun t us hk => ?_) (h.comparison ts)
  exact .take (by rw [hk]; rfl) ((h.condition us).bind fun _ _ => .pure _)

/-- A comparison is read step by step, if what it is made of is. -/
theorem comparison_succ (ts : List Token) :
    Walks isHighlighted may ts (Parser.comparison (fuel + 1)) := by
  rw [Parser.comparison]
  refine (h.sum ts).bind fun left us => .peek fun c hc => ?_
  dsimp only
  split
  next op hop =>
    exact .takeNext hc (isHighlighted_of_some hop rfl) rfl rfl fun vs =>
      (h.sum vs).bind fun _ _ => .pure _
  next =>
    split
    next hk =>
      refine .takeNext hc (by rw [hk]; rfl) rfl rfl fun vs => .expect (by simp) rfl fun ws => ?_
      exact (walks_literals fuel ws).bind fun _ _ => .expect (by simp) rfl fun _ => .pure _
    next => exact .pure _

/-- A factor is read step by step, if what it is made of is. -/
theorem factor_succ (ts : List Token) : Walks isHighlighted may ts (Parser.factor (fuel + 1)) := by
  rw [Parser.factor]
  refine .suggest (.suggest (.peek fun c hc => ?_))
  split
  next hk =>
    exact .takeNext hc (by rw [hk]; rfl) rfl rfl fun us => (h.factor us).bind fun _ _ => .pure _
  next hk =>
    obtain ⟨us, rfl⟩ := hc.eq_cons hk (by simp) (by simp)
    refine .advance (by rw [hk]; rfl) ((h.logical us).bind fun inner vs => ?_)
    exact .expect (by simp) rfl fun _ => .pure _
  next name hk =>
    refine .peekSecond fun c' _ => ?_
    split
    next =>
      split
      next => exact .fail _
      next f hf =>
        refine .takeNext hc (by rw [hk]; rfl) rfl rfl fun us => .expect (by simp) rfl fun vs => ?_
        have hend : ∀ args ws, Walks isHighlighted may ws (do
            expect .rightParen
            checkCall c.next f args) := fun args ws =>
          .expect (by simp) rfl fun xs => walks_checkCall xs _ f args
        refine .isAt (by simp) (fun _ _ _ => ?_) ?_
        · exact .bind (.pure _) hend
        · exact (h.arguments vs).bind hend
    next => exact .takeNext hc (by rw [hk]; rfl) rfl rfl fun _ => .pure _
  next =>
    split
    next => exact (walks_literal ts).bind fun _ _ => .pure _
    next => exact .unexpected _

/-- With one more unit of fuel all levels are read step by step. -/
theorem succ : ExpressionsWalk may (fuel + 1) where
  logical := h.logical_succ
  condition := h.condition_succ
  comparison := h.comparison_succ
  sum ts := by
    rw [Parser.sum]
    exact (h.product ts).bind fun l us => h.sumRest us l
  sumRest ts l := by
    rw [Parser.sumRest]
    exact walks_further rfl h.product h.sumRest ts
  product ts := by
    rw [Parser.product]
    exact (h.factor ts).bind fun l us => h.productRest us l
  productRest ts l := by
    rw [Parser.productRest]
    exact walks_further rfl h.factor h.productRest ts
  factor := h.factor_succ
  arguments ts := by
    rw [Parser.arguments]
    exact walks_separated h.logical h.arguments ts

end ExpressionsWalk

/-- All levels of an expression are read step by step. -/
theorem expressionsWalk [Regex.Library] (fuel : Nat) : ExpressionsWalk may fuel := by
  induction fuel with
  | zero => constructor <;> intros <;> exact .unexpected _
  | succ fuel ih => exact ih.succ

/-- An expression is read step by step. -/
theorem walks_expression [Regex.Library] (ts : List Token) :
    Walks isHighlighted may ts expression :=
  .get fun _ => (expressionsWalk _).logical ts

/-! ## Parts of stages -/

/-- A name is read step by step. -/
theorem walks_name (kind : HighlightKind) (what : String) (ts : List Token) :
    Walks isHighlighted may ts (name kind what) := by
  refine .peek fun c hc => ?_
  split
  next hk =>
    exact .takeNext hc (by rw [hk]; rfl) rfl rfl fun _ => .pure _
  next => exact .unexpected _

/-- A column is read step by step. -/
theorem walks_column (ts : List Token) : Walks isHighlighted may ts column := walks_name _ _ ts

/-- A new name, or none, is read step by step. -/
theorem walks_alias? (ts : List Token) : Walks isHighlighted may ts alias? := by
  refine .isAtKeyword (fun t us hk => ?_) (.pure _)
  exact .take (by rw [hk]; rfl) ((walks_name _ _ us).bind fun _ _ => .pure _)

/-- Items with commas between them are read step by step, if each item is. -/
theorem walks_commaSeparated {α : Type} {item : Parser α}
    (hi : ∀ ts, Walks isHighlighted may ts item) (fuel : Nat) :
    ∀ ts, Walks isHighlighted may ts (commaSeparated item fuel) := by
  induction fuel with
  | zero => exact fun _ => .unexpected _
  | succ fuel ih => exact walks_separated hi ih

/-- A list is read step by step, if each item is. -/
theorem walks_list {α : Type} {item : Parser α} (hi : ∀ ts, Walks isHighlighted may ts item)
    (ts : List Token) : Walks isHighlighted may ts (list item) :=
  .get fun _ => walks_commaSeparated hi _ ts

/-- A column of a table is read step by step. -/
theorem walks_tableColumn (ts : List Token) : Walks isHighlighted may ts tableColumn :=
  .suggest ((walks_column ts).bind fun _ us => (walks_alias? us).bind fun _ _ => .pure _)

/-- A column to group by is read step by step. -/
theorem walks_groupColumn (ts : List Token) : Walks isHighlighted may ts groupColumn :=
  .suggest (walks_column ts)

/-- What follows the column of an aggregation. -/
theorem walks_aggregateEnd (t : Token) (f : Aggregate) (column : Option String) (ts : List Token) :
    Walks isHighlighted may ts (aggregateEnd t f column) := by
  refine .expect (by simp) rfl fun us => ?_
  dsimp only
  split
  next => exact .fail_bind _
  next => exact (walks_alias? us).bind fun _ _ => .pure _

/-- An aggregation is read step by step. -/
theorem walks_aggregateCall (ts : List Token) : Walks isHighlighted may ts aggregateCall := by
  refine .peek fun c hc => ?_
  split
  next name hk =>
    split
    next => exact .fail _
    next f _ =>
      have hend : ∀ column vs, Walks isHighlighted may vs (aggregateEnd c.next f column) :=
        walks_aggregateEnd c.next f
      refine .takeNext hc (by rw [hk]; rfl) rfl rfl fun us => ?_
      refine .expect (by simp) rfl fun vs => .suggest (.peek fun d hd => ?_)
      dsimp only
      split
      next => exact (walks_column vs).map.bind hend
      next => exact .bind (.pure _) hend
  next => exact .unexpected _

/-- An aggregation that is offered is read step by step. -/
theorem walks_offeredAggregate {id : Nat} (hmay : may (.offer id)) (ts : List Token) :
    Walks isHighlighted may ts (offeredAggregate id) :=
  .suggest ((walks_aggregateCall ts).bind fun _ _ => .offer hmay (.pure _))

/-- The marker for `by` is opened, withheld, offered and closed. -/
theorem walks_aggregations (ts : List Token) :
    Walks isHighlighted (fun _ => True) ts aggregations := by
  refine .openMarker trivial fun id => .withhold trivial ?_
  refine (walks_list (walks_offeredAggregate trivial) ts).bind fun calls us => .settle trivial ?_
  refine .isAtKeyword (fun t vs hk => ?_) (.pure _)
  exact .take (by rw [hk]; rfl) ((walks_list walks_groupColumn vs).bind fun _ _ => .pure _)

/-- The column of a pattern, or none, is read step by step. -/
theorem walks_regexField? (ts : List Token) : Walks isHighlighted may ts regexField? := by
  refine .isAtKeyword (fun t us hk => ?_) (.pure _)
  refine .take (by rw [hk]; rfl) (.expectOperator (by simp) rfl fun vs => .suggest ?_)
  exact (walks_column vs).bind fun _ _ => .pure _

/-- A sort key is read step by step. -/
theorem walks_sortKey (ts : List Token) : Walks isHighlighted may ts sortKey := by
  refine .suggest ((walks_column ts).bind fun name us => .suggest ?_)
  refine .isAtKeyword (fun t vs hk => ?_) (.isAtKeyword (fun t vs hk => ?_) (.pure _))
  · exact .take (by rw [hk]; rfl) (.pure _)
  · exact .take (by rw [hk]; rfl) (.pure _)

/-- A duration is read step by step. -/
theorem walks_duration (ts : List Token) : Walks isHighlighted may ts duration := by
  refine .peek fun c hc => ?_
  split
  next hk =>
    split
    next => exact .fail _
    next => exact .takeNext hc (by rw [hk]; rfl) rfl rfl fun _ => .pure _
  next hk =>
    split
    next => exact .fail _
    next => exact .takeNext hc (by rw [hk]; rfl) rfl rfl fun _ => .pure _
  next => exact .unexpected _

/-- A positive integer is read step by step. -/
theorem walks_positiveInteger (ts : List Token) : Walks isHighlighted may ts positiveInteger := by
  refine .peek fun c hc => ?_
  split
  next hk =>
    split
    next => exact .fail _
    next => exact .takeNext hc (by rw [hk]; rfl) rfl rfl fun _ => .pure _
  next => exact .unexpected _

/-- The options of a chart are read step by step. -/
theorem walks_chartOptions (fuel : Nat) :
    ∀ ts options, Walks isHighlighted may ts (chartOptions fuel options) := by
  induction fuel with
  | zero => exact fun _ _ => .pure _
  | succ fuel ih =>
    intro ts options
    rw [chartOptions]
    refine .suggest (.peek fun c hc => ?_)
    split
    next hk =>
      refine .takeNext hc (by rw [hk]; rfl) rfl rfl fun us => ?_
      refine .expectOperator (by simp) rfl fun vs => ?_
      exact (walks_duration vs).bind fun _ ws => ih ws _
    next hk =>
      refine .takeNext hc (by rw [hk]; rfl) rfl rfl fun us => ?_
      refine .expectOperator (by simp) rfl fun vs => .suggest ?_
      exact (walks_column vs).bind fun _ ws => ih ws _
    next hk =>
      refine .takeNext hc (by rw [hk]; rfl) rfl rfl fun us => ?_
      refine .expectOperator (by simp) rfl fun vs => ?_
      exact (walks_positiveInteger vs).bind fun _ ws => ih ws _
    next => exact .pure _

/-! ## Stages -/

/-- A `regex` stage is read step by step. -/
theorem walks_regexStage [Regex.Library] (ts : List Token) :
    Walks isHighlighted may ts regexStage := by
  refine .suggest ((walks_regexField? ts).bind fun field us => .peek fun c hc => ?_)
  split
  next hk =>
    refine .takeNext hc (by rw [hk]; rfl) rfl rfl fun vs => ?_
    split
    next => exact .fail _
    next => exact .pure _
  next hk =>
    refine .takeNext hc (by rw [hk]; rfl) rfl rfl fun vs => ?_
    split
    next => exact .fail _
    next => exact .pure _
  next => exact .unexpected _

/-- An `eval` stage is read step by step. -/
theorem walks_evalStage [Regex.Library] (ts : List Token) :
    Walks isHighlighted may ts evalStage := by
  refine .suggest ((walks_column ts).bind fun target us => ?_)
  exact .expectOperator (by simp) rfl fun vs => (walks_expression vs).bind fun _ _ => .pure _

/-- A `timechart` stage is read step by step. -/
theorem walks_chartStage (ts : List Token) : Walks isHighlighted (fun _ => True) ts chartStage :=
  .get fun _ => (walks_chartOptions _ ts _).bind fun _ us =>
    (walks_aggregations us).bind fun _ _ => .pure _

/-- The stages without aggregations do nothing but leave markers. -/
theorem walks_stageBody_of_ne [Regex.Library] {command : Command} (hstats : command ≠ .stats)
    (hchart : command ≠ .timeChart) (ts : List Token) :
    Walks isHighlighted may ts (stageBody command) := by
  cases command with
  | table => exact (walks_list walks_tableColumn ts).map
  | regex => exact walks_regexStage ts
  | sort => exact (walks_list walks_sortKey ts).map
  | filter => exact (walks_expression ts).map
  | eval => exact walks_evalStage ts
  | stats => exact absurd rfl hstats
  | timeChart => exact absurd rfl hchart

/-- The body of a stage is read step by step. -/
theorem walks_stageBody [Regex.Library] (command : Command) (ts : List Token) :
    Walks isHighlighted (fun _ => True) ts (stageBody command) := by
  by_cases hstats : command = .stats
  · subst hstats
    exact (walks_aggregations ts).bind fun _ _ => .pure _
  · by_cases hchart : command = .timeChart
    · subst hchart
      exact walks_chartStage ts
    · exact walks_stageBody_of_ne hstats hchart ts

/-- A stage walks, whether it can be read or not. -/
theorem walks_stage [Regex.Library] (ts : List Token) :
    Walks isHighlighted (fun _ => True) ts stage := by
  refine .suggest (.peek fun c hc => ?_)
  split
  next hk =>
    exact .takeNext hc (by rw [hk]; rfl) rfl rfl fun us => walks_stageBody _ us
  next => exact .fail _
  next => exact .unexpected _

end Parser

end LogSearch.Query
