import LogSearch.Proofs.Query.Grammar
import LogSearch.Proofs.Query.Spelling

/-!
# Well-formed trees

What holds of every tree that tokens of a text write: its names are words of the segment they stand
in, its numbers come from numerals, its calls fit and its patterns compile.

* `Query.WellFormed`: the property, with one like it for each kind of tree.
* `Denotes`: the productions of expressions with precedence left out.
* `WritesQuery.wellFormed`: the query that fitting tokens write is well-formed.
-/

namespace LogSearch

open LogSearch.Query

/-! ## Names and numbers -/

/-- A text that is a word, neither keyword nor number, in a segment. -/
structure IsName (s : Segment) (name : String) : Prop where
  word : IsWord s name.toList
  kind : wordKind s name.toList = .word name

/-- A text that is a search term: a word or a number. -/
structure IsTerm (term : String) : Prop where
  word : IsWord .search term.toList
  kind : (∃ s, wordKind .search term.toList = .word s) ∨ ∃ x, wordKind .search term.toList = .number x

/-- A double that some numeral writes. -/
def IsNumber (x : Float) : Prop := ∃ w, isNumeral w = true ∧ numeralValue w = x

/-! ## Trees -/

/-- A search whose terms are terms. -/
def Search.WellFormed : Search → Prop
  | literal (.term s) => IsTerm s
  | literal (.phrase _) => True
  | and l r | or l r => l.WellFormed ∧ r.WellFormed

/-- A constant that stands on its own; a minus before it is no part of it. -/
def Literal.WellFormed : Literal → Prop
  | number x => IsNumber x
  | _ => True

/-- A constant of a list, where a number may have a sign. -/
def Literal.WellFormedMember : Literal → Prop
  | number x => IsNumber x ∨ ∃ y, IsNumber y ∧ x = -y
  | _ => True

mutual
/-- An expression of names and numbers whose calls fit. -/
def Expr.WellFormed [Regex.Library] (s : Segment) : Expr → Prop
  | .literal l => l.WellFormed
  | .column name => IsName s name
  | .not e | .negate e => e.WellFormed s
  | .binary _ l r => l.WellFormed s ∧ r.WellFormed s
  | .member e list => e.WellFormed s ∧ list ≠ [] ∧ ∀ l ∈ list, l.WellFormedMember
  | .call f args => CallFits f args ∧ WellFormedArguments s args

/-- Arguments that are well-formed. -/
def WellFormedArguments [Regex.Library] (s : Segment) : List Expr → Prop
  | [] => True
  | e :: rest => e.WellFormed s ∧ WellFormedArguments s rest
end

/-- A column of names. -/
structure TableColumn.WellFormed (c : TableColumn) : Prop where
  column : IsName (.command .table) c.column
  newName : ∀ name ∈ c.newName, IsName (.command .table) name

/-- An aggregation of names; every aggregation but `count` has a column. -/
structure AggregateCall.WellFormed (s : Segment) (a : AggregateCall) : Prop where
  column : ∀ name ∈ a.column, IsName s name
  count : a.column = none → a.function = .count
  newName : ∀ name ∈ a.newName, IsName s name

/-- Aggregations, at least one, grouped by names. -/
structure WellFormedAggregations (s : Segment) (calls : List AggregateCall)
    (groupBy : List String) : Prop where
  ne_nil : calls ≠ []
  calls : ∀ a ∈ calls, a.WellFormed s
  groupBy : ∀ name ∈ groupBy, IsName s name

/-- A stage of names and numbers whose lists are not empty and whose patterns compile. -/
def Stage.WellFormed [Regex.Library] : Stage → Prop
  | .table columns => columns ≠ [] ∧ ∀ c ∈ columns, c.WellFormed
  | .stats calls groupBy => WellFormedAggregations (.command .stats) calls groupBy
  | .regex field pattern =>
    (∀ name ∈ field, IsName (.command .regex) name) ∧ Compiles pattern
  | .sort keys => keys ≠ [] ∧ ∀ k ∈ keys, IsName (.command .sort) k.column
  | .filter condition => condition.WellFormed (.command .filter)
  | .timeChart span timeColumn maxGroups calls groupBy =>
    (∀ d ∈ span, d.amount ≠ 0) ∧ (∀ name ∈ timeColumn, IsName (.command .timeChart) name) ∧
      (∀ n ∈ maxGroups, ∃ x, Parser.positive? x = some n) ∧
      WellFormedAggregations (.command .timeChart) calls groupBy
  | .eval target value =>
    IsName (.command .eval) target ∧ value.WellFormed (.command .eval)

/-- A query whose keys are names and whose search and stages are well-formed. -/
structure Query.WellFormed [Regex.Library] (q : Query) : Prop where
  preFilters : ∀ f ∈ q.preFilters, IsName .search f.key
  search : ∀ s ∈ q.search, s.WellFormed
  pipeline : ∀ s ∈ q.pipeline, s.WellFormed

namespace Query

open LogSearch.Query.Parser (literal? logicalOp? comparisonOp? sumOp? productOp? positive?
  ChartOptions)

/-! ## Expressions without precedence -/

/-- The operator that a token writes. -/
def binaryOp? (k : TokenKind) : Option BinaryOp :=
  logicalOp? k <|> comparisonOp? k <|> sumOp? k <|> productOp? k

mutual
/-- The productions of expressions, operands of operators being any expressions. -/
inductive Denotes [Regex.Library] : List Token → Expr → List Token → Prop
  | parens {e : Expr} {l r : Token} {ts us : List Token} :
      l.kind = .symbol .leftParen → Denotes ts e (r :: us) → r.kind = .symbol .rightParen →
      Denotes (l :: ts) e us
  | literal {l : Literal} {kind : HighlightKind} {t : Token} {ts : List Token} :
      literal? t.kind = some (l, kind) → Denotes (t :: ts) (.literal l) ts
  | column {name : String} {t : Token} {ts : List Token} :
      t.kind = .word name → Denotes (t :: ts) (.column name) ts
  | not {e : Expr} {t : Token} {ts us : List Token} :
      t.kind = .symbol .bang → Denotes ts e us → Denotes (t :: ts) (.not e) us
  | negate {e : Expr} {t : Token} {ts us : List Token} :
      t.kind = .symbol .minus → Denotes ts e us → Denotes (t :: ts) (.negate e) us
  | binary {l r : Expr} {op : BinaryOp} {t : Token} {ts us vs : List Token} :
      Denotes ts l (t :: us) → binaryOp? t.kind = some op → Denotes us r vs →
      Denotes ts (.binary op l r) vs
  | member {e : Expr} {list : List Literal} {ts us vs : List Token} :
      Denotes ts e us → WritesMembers us list vs → Denotes ts (.member e list) vs
  | call {name : String} {f : Function} {args : List Expr} {t l r : Token} {ts us : List Token} :
      t.kind = .word name → Function.ofName? name = some f → l.kind = .symbol .leftParen →
      DenotesArguments ts args (r :: us) → r.kind = .symbol .rightParen → CallFits f args →
      Denotes (t :: l :: ts) (.call f args) us

/-- Expressions with commas between them. -/
inductive DenotesArguments [Regex.Library] : List Token → List Expr → List Token → Prop
  | none {ts : List Token} : DenotesArguments ts [] ts
  | single {e : Expr} {ts us : List Token} : Denotes ts e us → DenotesArguments ts [e] us
  | cons {e : Expr} {args : List Expr} {comma : Token} {ts us vs : List Token} :
      Denotes ts e (comma :: us) → comma.kind = .symbol .comma → DenotesArguments us args vs →
      DenotesArguments ts (e :: args) vs
end

/-- An operator between conditions is an operator. -/
theorem binaryOp?_of_logicalOp? {k : TokenKind} {op : BinaryOp} (h : logicalOp? k = some op) :
    binaryOp? k = some op := by simp [binaryOp?, h]

/-- A comparison is an operator. -/
theorem binaryOp?_of_comparisonOp? {k : TokenKind} {op : BinaryOp} (h : comparisonOp? k = some op) :
    binaryOp? k = some op := by
  unfold comparisonOp? at h
  split at h <;> simp_all [binaryOp?, logicalOp?, comparisonOp?]

/-- An operator between summands is an operator. -/
theorem binaryOp?_of_sumOp? {k : TokenKind} {op : BinaryOp} (h : sumOp? k = some op) :
    binaryOp? k = some op := by
  unfold sumOp? at h
  split at h <;> simp_all [binaryOp?, logicalOp?, comparisonOp?, sumOp?]

/-- An operator between factors is an operator. -/
theorem binaryOp?_of_productOp? {k : TokenKind} {op : BinaryOp} (h : productOp? k = some op) :
    binaryOp? k = some op := by
  unfold productOp? at h
  split at h <;> simp_all [binaryOp?, logicalOp?, comparisonOp?, sumOp?, productOp?]

mutual
/-- What the grammar takes for a logical expression is an expression whose operands are any
expressions. -/
theorem WritesLogical.denotes [Regex.Library] : ∀ {ts : List Token} {e : Expr} {us : List Token},
    WritesLogical ts e us → Denotes ts e us
  | _, _, _, .single h => h.denotes
  | _, _, _, .join h ho g => .binary h.denotes (binaryOp?_of_logicalOp? ho) g.denotes

/-- So is a condition. -/
theorem WritesCondition.denotes [Regex.Library] : ∀ {ts : List Token} {e : Expr} {us : List Token},
    WritesCondition ts e us → Denotes ts e us
  | _, _, _, .not hk h => .not hk h.denotes
  | _, _, _, .comparison h => h.denotes

/-- So is a comparison. -/
theorem WritesComparison.denotes [Regex.Library] : ∀ {ts : List Token} {e : Expr} {us : List Token},
    WritesComparison ts e us → Denotes ts e us
  | _, _, _, .single h => denotes_sum h
  | _, _, _, .compare h ho g =>
    .binary (denotes_sum h) (binaryOp?_of_comparisonOp? ho) (denotes_sum g)
  | _, _, _, .member h g => .member (denotes_sum h) g

/-- So is a sum. -/
theorem denotes_sum [Regex.Library] : ∀ {ts : List Token} {e : Expr} {us : List Token},
    WritesSum ts e us → Denotes ts e us
  | _, _, _, .mk h g => denotes_furtherSum g (denotes_product h)

/-- So is a sum with more summands behind it. -/
theorem denotes_furtherSum [Regex.Library] : ∀ {l : Expr} {ts us : List Token} {e : Expr}
    {vs : List Token},
    Further sumOp? WritesProduct l us e vs → Denotes ts l us → Denotes ts e vs
  | _, _, _, _, _, .done, hl => hl
  | _, _, _, _, _, .join ho h g, hl =>
    denotes_furtherSum g (.binary hl (binaryOp?_of_sumOp? ho) (denotes_product h))

/-- So is a product. -/
theorem denotes_product [Regex.Library] : ∀ {ts : List Token} {e : Expr} {us : List Token},
    WritesProduct ts e us → Denotes ts e us
  | _, _, _, .mk h g => denotes_furtherProduct g h.denotes

/-- So is a product with more factors behind it. -/
theorem denotes_furtherProduct [Regex.Library] : ∀ {l : Expr} {ts us : List Token} {e : Expr}
    {vs : List Token},
    Further productOp? WritesFactor l us e vs → Denotes ts l us → Denotes ts e vs
  | _, _, _, _, _, .done, hl => hl
  | _, _, _, _, _, .join ho h g, hl =>
    denotes_furtherProduct g (.binary hl (binaryOp?_of_productOp? ho) h.denotes)

/-- So is a factor. -/
theorem WritesFactor.denotes [Regex.Library] : ∀ {ts : List Token} {e : Expr} {us : List Token},
    WritesFactor ts e us → Denotes ts e us
  | _, _, _, .negate hk h => .negate hk h.denotes
  | _, _, _, .parens hl h hr => .parens hl h.denotes hr
  | _, _, _, .literal h => .literal h
  | _, _, _, .column h => .column h
  | _, _, _, .call ht hn hl h hr hf => .call ht hn hl (denotes_arguments h) hr hf

/-- Arguments in the grammar are expressions with commas between them. -/
theorem denotes_arguments [Regex.Library] : ∀ {ts : List Token} {args : List Expr}
    {us : List Token},
    Possibly (Separated WritesLogical) ts args us → DenotesArguments ts args us
  | _, _, _, .none => .none
  | _, _, _, .some h => denotes_separated h

/-- So are those of a call that has one. -/
theorem denotes_separated [Regex.Library] : ∀ {ts : List Token} {args : List Expr}
    {us : List Token},
    Separated WritesLogical ts args us → DenotesArguments ts args us
  | _, _, _, .single h => .single h.denotes
  | _, _, _, .cons h hk g => .cons h.denotes hk (denotes_separated g)
end

/-! ## Words of tokens -/

variable {s : Segment}

/-- The word that a text spells has that text for its name. -/
theorem eq_of_wordKind_word {w : List Char} {name : String} (h : wordKind s w = .word name) :
    name = String.ofList w := by
  unfold wordKind at h
  dsimp only at h
  split at h
  · split at h
    · simp at h
    · simpa using h.symm
  · split at h
    · simp at h
    · split at h
      · simp at h
      · simpa using h.symm

/-- The number that a text spells is the value of a numeral. -/
theorem isNumeral_of_wordKind {w : List Char} {x : Float} (h : wordKind s w = .number x) :
    isNumeral w = true ∧ numeralValue w = x := by
  unfold wordKind at h
  dsimp only at h
  split at h
  · split at h <;> simp at h
  · split at h
    · simp at h
    · split at h
      next hn => exact ⟨hn, by simpa using h⟩
      next => simp at h

/-- Tokens that fit in a segment. -/
def FitIn (s : Segment) (ts : List Token) : Prop := ∀ t ∈ ts, Fits s t.spelling

/-- What is behind a token fits in the same segment. -/
theorem FitIn.tail {t : Token} {ts : List Token} (h : FitIn s (t :: ts)) : FitIn s ts :=
  fun u hu => h u (List.mem_cons_of_mem _ hu)

/-- What is left once tokens may have been passed fits in the same segment. -/
theorem FitIn.of_mayPass {ts us : List Token} (h : FitIn s ts) (hp : MayPass ts us) :
    FitIn s us := by
  obtain ⟨xs, rfl, -⟩ := hp.exists_append
  exact fun t ht => h t (List.mem_append_right _ ht)

/-- What is left once tokens have been passed fits in the same segment. -/
theorem FitIn.of_passes {ts us : List Token} (h : FitIn s ts) (hp : Passes ts us) : FitIn s us :=
  h.of_mayPass hp.to_reflTransGen

/-- A word that fits in its segment has its name for a text. -/
theorem FitIn.text_eq {t : Token} {ts : List Token} {name : String} (h : FitIn s (t :: ts))
    (hk : t.kind = .word name) : t.text = name := by
  have hf := h t (List.mem_cons_self ..)
  simp only [Fits, Token.spelling, hk] at hf
  simpa using (eq_of_wordKind_word hf.2).symm

/-- The name of a word that fits is a name of the segment. -/
theorem FitIn.isName {t : Token} {ts : List Token} {name : String} (h : FitIn s (t :: ts))
    (hk : t.kind = .word name) : IsName s name := by
  have hf := h t (List.mem_cons_self ..)
  simp only [Fits, Token.spelling, hk, h.text_eq hk] at hf
  exact ⟨hf.1, hf.2⟩

/-- A number that fits is one that some numeral writes. -/
theorem FitIn.isNumber {t : Token} {ts : List Token} {x : Float} (h : FitIn s (t :: ts))
    (hk : t.kind = .number x) : IsNumber x := by
  have hf := h t (List.mem_cons_self ..)
  simp only [Fits, Token.spelling, hk] at hf
  exact ⟨_, isNumeral_of_wordKind hf.2⟩

/-- A number in the search is a search term as it stands there. -/
theorem FitIn.isTerm {t : Token} {ts : List Token} {x : Float} (h : FitIn .search (t :: ts))
    (hk : t.kind = .number x) : IsTerm t.text := by
  have hf := h t (List.mem_cons_self ..)
  simp only [Fits, Token.spelling, hk] at hf
  exact ⟨hf.1, .inr ⟨x, hf.2⟩⟩

/-- A literal that fits stands on its own. -/
theorem FitIn.literal {t : Token} {ts : List Token} {l : Literal} {kind : HighlightKind}
    (h : FitIn s (t :: ts)) (hk : literal? t.kind = some (l, kind)) : l.WellFormed := by
  unfold literal? at hk
  split at hk
  next x hx =>
    obtain ⟨rfl, -⟩ : _ ∧ _ := by simpa using hk
    exact h.isNumber hx
  all_goals
    first
    | obtain ⟨rfl, -⟩ : _ ∧ _ := by simpa using hk
      trivial
    | simp at hk

/-- A constant in a list of tokens that fit is a well-formed member. -/
theorem WritesConstant.wellFormed {ts us : List Token} {l : Literal} (h : WritesConstant ts l us)
    (hf : FitIn s ts) : l.WellFormedMember := by
  cases h with
  | plain h =>
    have hl := hf.literal h
    cases l with
    | number x => exact .inl hl
    | _ => trivial
  | negative _ hn => exact .inr ⟨_, hf.tail.isNumber hn, rfl⟩

/-- Items with commas between them are at least one, and each has what one item has that stands
where all tokens fit. -/
theorem Separated.forall_mem {α : Type} {Item : List Token → α → List Token → Prop} {P : α → Prop}
    (hpass : ∀ {ts a us}, Item ts a us → Passes ts us)
    (hitem : ∀ {ts a us}, Item ts a us → FitIn s ts → P a) {ts us : List Token} {as : List α}
    (h : Separated Item ts as us) (hf : FitIn s ts) : as ≠ [] ∧ ∀ a ∈ as, P a := by
  induction h with
  | single h => simpa using hitem h hf
  | cons h _ _ ih =>
    exact ⟨by simp, List.forall_mem_cons.2
      ⟨hitem h hf, (ih (hf.of_passes (hpass h)).tail).2⟩⟩

/-- The members of a list are at least one, and all are well-formed. -/
theorem WritesMembers.wellFormed {ts us : List Token} {list : List Literal}
    (h : WritesMembers ts list us) (hf : FitIn s ts) :
    list ≠ [] ∧ ∀ l ∈ list, l.WellFormedMember := by
  obtain ⟨-, -, h, -⟩ := h
  exact h.forall_mem (P := Literal.WellFormedMember) WritesConstant.passes WritesConstant.wellFormed hf.tail.tail

mutual
/-- An expression over tokens that fit is well-formed, and what is behind it fits too. -/
theorem Denotes.wellFormed [Regex.Library] : ∀ {ts : List Token} {e : Expr} {us : List Token},
    Denotes ts e us → FitIn s ts → e.WellFormed s ∧ FitIn s us
  | _, _, _, .parens _ h _, hf =>
    have ⟨he, hu⟩ := h.wellFormed hf.tail
    ⟨he, hu.tail⟩
  | _, _, _, .literal h, hf => ⟨hf.literal h, hf.tail⟩
  | _, _, _, .column h, hf => ⟨hf.isName h, hf.tail⟩
  | _, _, _, .not _ h, hf => h.wellFormed hf.tail
  | _, _, _, .negate _ h, hf => h.wellFormed hf.tail
  | _, _, _, .binary h _ g, hf =>
    have ⟨hl, hu⟩ := h.wellFormed hf
    have ⟨hr, hv⟩ := g.wellFormed hu.tail
    ⟨⟨hl, hr⟩, hv⟩
  | _, _, _, .member h g, hf =>
    have ⟨he, hu⟩ := h.wellFormed hf
    ⟨⟨he, g.wellFormed hu⟩, hu.of_passes g.passes⟩
  | _, _, _, .call _ _ _ h _ hc, hf =>
    have ⟨hargs, hu⟩ := h.wellFormed hf.tail.tail
    ⟨⟨hc, hargs⟩, hu.tail⟩

/-- Arguments over tokens that fit are well-formed, and what is behind them fits too. -/
theorem DenotesArguments.wellFormed [Regex.Library] : ∀ {ts : List Token} {args : List Expr}
    {us : List Token},
    DenotesArguments ts args us → FitIn s ts → WellFormedArguments s args ∧ FitIn s us
  | _, _, _, .none, hf => ⟨trivial, hf⟩
  | _, _, _, .single h, hf =>
    have ⟨he, hu⟩ := h.wellFormed hf
    ⟨⟨he, trivial⟩, hu⟩
  | _, _, _, .cons h _ g, hf =>
    have ⟨he, hu⟩ := h.wellFormed hf
    have ⟨hargs, hv⟩ := g.wellFormed hu.tail
    ⟨⟨he, hargs⟩, hv⟩
end

/-- A logical expression over tokens that fit is well-formed. -/
theorem WritesLogical.wellFormed [Regex.Library] {ts us : List Token} {e : Expr}
    (h : WritesLogical ts e us) (hf : FitIn s ts) : e.WellFormed s := (h.denotes.wellFormed hf).1

/-! ## Head and stages -/

mutual
/-- A search over tokens that fit is well-formed. -/
theorem WritesSearch.wellFormed : ∀ {ts : List Token} {e : Search} {us : List Token},
    WritesSearch ts e us → FitIn .search ts → e.WellFormed
  | _, _, _, .single h, hf => h.wellFormed hf
  | _, _, _, .and h _ g, hf => ⟨h.wellFormed hf, g.wellFormed (hf.of_passes h.passes).tail⟩
  | _, _, _, .or h _ g, hf => ⟨h.wellFormed hf, g.wellFormed (hf.of_passes h.passes).tail⟩
  | _, _, _, .beside h g, hf => ⟨h.wellFormed hf, g.wellFormed (hf.of_passes h.passes)⟩

/-- So is a factor of one. -/
theorem WritesSearchFactor.wellFormed : ∀ {ts : List Token} {e : Search} {us : List Token},
    WritesSearchFactor ts e us → FitIn .search ts → e.WellFormed
  | _, _, _, .parens _ h _, hf => h.wellFormed hf.tail
  | _, _, _, .word h, hf => ⟨(hf.isName h).word, .inl ⟨_, (hf.isName h).kind⟩⟩
  | _, _, _, .number h, hf => hf.isTerm h
  | _, _, _, .phrase _, _ => trivial
end

/-- The keys of filters over tokens that fit are names of the search. -/
theorem Repeated.wellFormed {ts us : List Token} {filters : List PreFilter}
    (h : Repeated WritesPreFilter ts filters us) (hf : FitIn .search ts) :
    ∀ f ∈ filters, IsName .search f.key := by
  induction h with
  | nil => simp
  | cons h _ ih =>
    refine List.forall_mem_cons.2 ⟨?_, ih (hf.of_passes h.passes)⟩
    obtain ⟨hk, -, -⟩ := h
    exact hf.isName hk

/-- A name over tokens that fit is a name of the segment. -/
theorem WritesName.isName {ts us : List Token} {name : String} (h : WritesName ts name us)
    (hf : FitIn s ts) : IsName s name := by
  obtain ⟨h⟩ := h
  exact hf.isName h

/-- So is a name that may be missing. -/
theorem isName_of_maybe {ts us : List Token} {name : Option String}
    (h : Maybe WritesName ts name us) (hf : FitIn s ts) : ∀ n ∈ name, IsName s n := by
  cases h with
  | none => simp
  | some h => simpa using h.isName hf

/-- So is an alias behind its keyword, which may be missing too. -/
theorem isName_of_alias {k : Keyword} {ts us : List Token} {name : Option String}
    (h : Maybe (Under k WritesName) ts name us) (hf : FitIn s ts) : ∀ n ∈ name, IsName s n := by
  cases h with
  | none => simp
  | some h =>
    obtain ⟨-, h⟩ := h
    simpa using h.isName hf.tail

/-- A column of a `table` stage over tokens that fit is well-formed. -/
theorem WritesTableColumn.wellFormed {ts us : List Token} {c : TableColumn}
    (h : WritesTableColumn ts c us) (hf : FitIn (.command .table) ts) : c.WellFormed := by
  obtain ⟨h, g⟩ := h
  exact ⟨h.isName hf, isName_of_alias g (hf.of_passes h.passes)⟩

/-- A call of an aggregation over tokens that fit is well-formed. -/
theorem WritesAggregateCall.wellFormed {ts us : List Token} {a : AggregateCall}
    (h : WritesAggregateCall ts a us) (hf : FitIn s ts) : a.WellFormed s := by
  obtain ⟨-, -, -, hc, -, hcount, hn⟩ := h
  have hf' := hf.tail.tail
  exact ⟨isName_of_maybe hc hf', hcount,
    isName_of_alias hn (hf'.of_mayPass (hc.mayPass WritesName.passes)).tail⟩

/-- The aggregations of a stage, with the columns behind `by`, are well-formed. -/
theorem WritesAggregations.wellFormed {ts us : List Token} {calls : List AggregateCall}
    {groupBy : List String} (h : WritesAggregations ts (calls, groupBy) us) (hf : FitIn s ts) :
    WellFormedAggregations s calls groupBy := by
  obtain ⟨h, g⟩ := h
  have hcalls := h.forall_mem (P := AggregateCall.WellFormed s) WritesAggregateCall.passes WritesAggregateCall.wellFormed hf
  have hf' := hf.of_passes (h.passes WritesAggregateCall.passes)
  refine ⟨hcalls.1, hcalls.2, ?_⟩
  cases g with
  | none => simp
  | some g =>
    obtain ⟨-, g⟩ := g
    exact (g.forall_mem (P := IsName s) WritesName.passes WritesName.isName hf'.tail).2

/-- The column of a key to sort by is a name of the segment. -/
theorem WritesSortKey.isName {ts us : List Token} {k : SortKey} (h : WritesSortKey ts k us)
    (hf : FitIn s ts) : IsName s k.column := by
  cases h with
  | plain h => exact h.isName hf
  | asc h _ => exact h.isName hf
  | desc h _ => exact h.isName hf

/-- A span of time that is read from a text is not empty. -/
theorem amount_ne_zero {text : String} {d : TimeSpan} (h : TimeSpan.ofText? text = some d) :
    d.amount ≠ 0 := by
  unfold TimeSpan.ofText? at h
  dsimp only at h
  split at h
  · simp at h
  · split at h
    · simp at h
    next hn =>
      obtain rfl : _ = d := by simpa using h
      simp only [Bool.or_eq_true, decide_eq_true_eq, not_or, Nat.not_lt] at hn
      obtain ⟨⟨-, hzero⟩, hmax⟩ := hn
      intro h0
      have hn := congrArg UInt64.toNat h0
      simp only [UInt64.toNat_ofNat', UInt64.toNat_zero] at hn
      simp only [Number.countMax] at hmax
      omega

/-- Options of a `timechart` stage that a text can set. -/
structure WellFormedOptions (options : ChartOptions) : Prop where
  span : ∀ d ∈ options.span, d.amount ≠ 0
  timeColumn : ∀ name ∈ options.timeColumn, IsName (.command .timeChart) name
  maxGroups : ∀ n ∈ options.maxGroups, ∃ x, positive? x = some n

/-- Options stay such as a text can set when one more is set. -/
theorem WritesChartOption.wellFormed {ts us : List Token} {o : ChartOption}
    {options : ChartOptions} (h : WritesChartOption ts o us) (hf : FitIn (.command .timeChart) ts)
    (ho : WellFormedOptions options) : WellFormedOptions (o.set options) := by
  cases h with
  | span h =>
    obtain ⟨-, -, -, h⟩ := h
    exact ⟨by simpa [ChartOption.set] using amount_ne_zero h, ho.timeColumn, ho.maxGroups⟩
  | timeColumn h =>
    obtain ⟨-, -, h⟩ := h
    exact ⟨ho.span, by simpa [ChartOption.set] using h.isName hf.tail.tail, ho.maxGroups⟩
  | maxGroups h =>
    obtain ⟨-, -, -, h⟩ := h
    exact ⟨ho.span, ho.timeColumn, by simpa [ChartOption.set] using ⟨_, h⟩⟩

/-- Options stay such as a text can set when a list of them is set. -/
theorem wellFormed_foldl_set {ts us : List Token} {list : List ChartOption}
    {options : ChartOptions} (h : Repeated WritesChartOption ts list us)
    (hf : FitIn (.command .timeChart) ts) (ho : WellFormedOptions options) :
    WellFormedOptions (list.foldl ChartOption.set options) := by
  induction h generalizing options with
  | nil => exact ho
  | cons h _ ih => exact ih (hf.of_passes h.passes) (h.wellFormed hf ho)

/-- The stage of every command is well-formed when its tokens fit in the segment of the command. -/
theorem WritesBody.wellFormed [Regex.Library] {c : Command} {ts us : List Token} {stage : Stage}
    (h : WritesBody c ts stage us) (hf : FitIn (.command c) ts) : stage.WellFormed := by
  cases h with
  | table h =>
    exact h.forall_mem (P := TableColumn.WellFormed) WritesTableColumn.passes
      WritesTableColumn.wellFormed hf
  | stats h => exact h.wellFormed hf
  | regex h g =>
    obtain ⟨-, hc⟩ := g
    refine ⟨?_, hc⟩
    cases h with
    | none => simp
    | some h =>
      obtain ⟨-, -, h⟩ := h
      simpa using h.isName hf.tail.tail
  | sort h =>
    exact h.forall_mem (P := fun k => IsName (.command .sort) k.column) WritesSortKey.passes
      WritesSortKey.isName hf
  | filter h => exact h.wellFormed hf
  | timeChart h hoptions g =>
    subst hoptions
    have hnone : WellFormedOptions ⟨none, none, none⟩ := ⟨by simp, by simp, by simp⟩
    have ho := wellFormed_foldl_set h hf hnone
    exact ⟨ho.span, ho.timeColumn, ho.maxGroups,
      g.wellFormed (hf.of_mayPass (h.mayPass WritesChartOption.passes))⟩
  | eval h _ g =>
    exact ⟨h.isName hf, g.wellFormed (hf.of_passes h.passes).tail⟩

/-! ## Queries -/

/-- Tokens without a pipe stay in one segment: they fit in it, and what is behind them fits there. -/
theorem allFit_append {ts : List Token} {ks : List Spelling} (hs : s ≠ .opening)
    (hp : ∀ t ∈ ts, t.kind ≠ .symbol .pipe) (h : AllFit s (ts.map Token.spelling ++ ks)) :
    FitIn s ts ∧ AllFit s ks := by
  induction ts with
  | nil => exact ⟨by simp [FitIn], h⟩
  | cons t ts ih =>
    rw [List.forall_mem_cons] at hp
    obtain ⟨ht, h⟩ := h
    have hafter : s.after t.spelling.1 = s := by
      simp only [Token.spelling]
      unfold Segment.after
      split <;> simp_all
    rw [hafter] at h
    obtain ⟨hts, hks⟩ := ih hp.2 h
    exact ⟨List.forall_mem_cons.2 ⟨ht, hts⟩, hks⟩

/-- All stages over tokens that fit are well-formed. -/
theorem WritesStages.wellFormed [Regex.Library] {ts : List Token} {stages : List Stage}
    (h : WritesStages ts stages) (hf : AllFit s (ts.map Token.spelling)) :
    ∀ stage ∈ stages, stage.WellFormed := by
  induction h generalizing s with
  | nil => simp
  | @cons stage stages pipe ts us hpipe hs _ ih =>
    have hno := hs.no_pipe
    obtain @⟨c, stage, t, ts, us', hc, hbody⟩ := hs
    simp only [List.map_cons, List.map_append, List.cons_append] at hf
    obtain ⟨-, -, hf⟩ := hf
    have hafter : (s.after pipe.spelling.1).after t.spelling.1 = .command c := by
      simp only [Token.spelling, hpipe, hc]
      rfl
    rw [hafter] at hf
    obtain ⟨hts, hus⟩ := allFit_append (by simp) (List.forall_mem_cons.1 hno).2 hf
    exact List.forall_mem_cons.2 ⟨hbody.wellFormed hts, ih hus⟩

/-- The query that fitting tokens write is well-formed. -/
theorem WritesQuery.wellFormed [Regex.Library] {ts : List Token} {q : Query} (h : WritesQuery ts q)
    (hf : AllFit .search (ts.map Token.spelling)) : q.WellFormed := by
  obtain ⟨hh, hs⟩ := h
  rw [List.map_append] at hf
  obtain ⟨hts, hus⟩ := allFit_append (by simp) hh.no_pipe hf
  obtain ⟨hfilters, hsearch⟩ := hh
  refine ⟨hfilters.wellFormed hts, ?_, hs.wellFormed hus⟩
  cases hsearch with
  | none => simp
  | some hsearch =>
    simpa using hsearch.wellFormed (hts.of_mayPass (hfilters.mayPass WritesPreFilter.passes))

end Query

end LogSearch
