import LogSearch.Proofs.Query.Legibility

/-!
# Comments in canonical texts

Two slashes after a blank start a comment. A canonical text writes names after blanks that need not
have stood there in the text the query was read from.

* `Query.NoComments`: nothing that is written after a blank starts with two slashes.
* `Query.uncommented_iff`: this says that no piece of the canonical text starts a comment.
-/

namespace LogSearch

open LogSearch.Query

/-- A name that starts no comment. -/
def NoComment (name : String) : Prop := opensComment name.toList = false

instance : DecidablePred NoComment := fun name =>
  inferInstanceAs (Decidable (opensComment name.toList = false))

/-- A search none of whose terms starts a comment. Only a term after a parenthesis may start with
two slashes; `fresh` says that the search is written after a blank. -/
def Search.NoComments : Bool → Search → Prop
  | fresh, literal (.term s) => fresh = true → NoComment s
  | _, literal (.phrase _) => True
  | fresh, and l r | fresh, or l r =>
    l.NoComments (fresh && l.isLiteral) ∧ r.NoComments true

/-- Aggregations whose new names and groups start no comment. -/
def NoCommentsIn (calls : List AggregateCall) (groupBy : List String) : Prop :=
  (∀ a ∈ calls, ∀ name ∈ a.newName, NoComment name) ∧ ∀ name ∈ groupBy, NoComment name

/-- A stage none of whose names after blanks starts a comment. -/
def Stage.NoComments : Stage → Prop
  | .table columns =>
    ∀ c ∈ columns, NoComment c.column ∧ ∀ name ∈ c.newName, NoComment name
  | .sort keys => ∀ k ∈ keys, NoComment k.column
  | .stats calls groupBy | .timeChart _ _ _ calls groupBy => NoCommentsIn calls groupBy
  | .regex .. | .filter .. | .eval .. => True

/-- A query none of whose keys, terms and names after blanks starts a comment. -/
structure Query.NoComments (q : Query) : Prop where
  preFilters : ∀ f ∈ q.preFilters, NoComment f.key
  search : ∀ s ∈ q.search, s.NoComments true
  pipeline : ∀ s ∈ q.pipeline, s.NoComments

namespace Query

variable {s : Segment} {fresh : Bool} {items : List Item}

/-! ## Layouts -/

/-- A layout none of whose pieces starts a comment, whatever stands before them. -/
def Quiet (items : List Item) : Prop := ∀ i ∈ items, i.opensComment = false

/-- Nothing starts no comment. -/
@[simp] theorem quiet_nil : Quiet [] := by simp [Quiet]

/-- A layout is quiet if its first piece starts no comment and the others are quiet. -/
@[simp] theorem quiet_cons {i : Item} :
    Quiet (i :: items) ↔ i.opensComment = false ∧ Quiet items := by simp [Quiet]

/-- Two layouts are quiet together if both are. -/
@[simp] theorem quiet_append {more : List Item} :
    Quiet (items ++ more) ↔ Quiet items ∧ Quiet more := by
  simp [Quiet, or_imp, forall_and]

/-- A blank starts no comment. -/
@[simp] theorem opensComment_blank : Item.blank.opensComment = false := rfl

/-- A symbol starts no comment by itself. -/
@[simp] theorem opensComment_symbol (m : Symbol) : (Item.symbol m).opensComment = false := rfl

/-- A text in quotes starts no comment. -/
@[simp] theorem opensComment_quoted (t : String) : (Item.quoted t).opensComment = false := rfl

/-- A text in backticks starts no comment. -/
@[simp] theorem opensComment_backtick (t : String) : (Item.backtick t).opensComment = false := rfl

/-- A quiet layout has no comment wherever it stands. -/
theorem Quiet.uncommented (h : Quiet items) : Uncommented fresh items := by
  induction items generalizing fresh with
  | nil => trivial
  | cons i items ih =>
    rw [quiet_cons] at h
    exact ⟨fun _ => h.1, ih h.2⟩

/-- Parentheses leave a layout quiet. -/
theorem quiet_wrap (wrapped : Bool) (h : Quiet items) : Quiet (wrap wrapped items) := by
  cases wrapped <;> simp [wrap, h]

/-- Commas between layouts leave them quiet. -/
theorem quiet_commaLayout {layouts : List (List Item)} (h : ∀ items ∈ layouts, Quiet items) :
    Quiet (commaLayout layouts) := by
  induction layouts with
  | nil => exact quiet_nil
  | cons items layouts ih =>
    rw [List.forall_mem_cons] at h
    cases layouts with
    | nil => exact h.1
    | cons more layouts =>
      rw [commaLayout, quiet_append]
      · exact ⟨h.1, by simp [ih h.2]⟩
      · simp

/-- Layouts with commas between them have a comment only if one of them does. -/
theorem uncommented_commaLayout {layouts : List (List Item)} :
    Uncommented true (commaLayout layouts) ↔ ∀ items ∈ layouts, Uncommented true items := by
  induction layouts with
  | nil => simp [commaLayout, Uncommented]
  | cons items layouts ih =>
    cases layouts with
    | nil => simp [commaLayout]
    | cons more layouts =>
      rw [commaLayout, uncommented_append, List.forall_mem_cons, ← ih]
      · simp [Uncommented, Item.opensComment, Item.isBlank]
      · simp

/-- Layouts with blanks between them have a comment only if one of them does. -/
theorem uncommented_blankLayout {layouts : List (List Item)} :
    Uncommented true (blankLayout layouts) ↔ ∀ items ∈ layouts, Uncommented true items := by
  induction layouts with
  | nil => simp [blankLayout, Uncommented]
  | cons items layouts ih =>
    cases layouts with
    | nil => simp [blankLayout]
    | cons more layouts =>
      rw [blankLayout, uncommented_append, List.forall_mem_cons, ← ih]
      · simp [Uncommented, Item.opensComment, Item.isBlank]
      · simp

/-- A word of plain characters starts no comment. -/
theorem opensComment_of_plain {w : List Char} (h : w.all isPlain = true) : opensComment w = false := by
  cases w with
  | nil => rfl
  | cons c w =>
    rw [List.all_cons, Bool.and_eq_true] at h
    have hc : c ≠ '/' := by
      rintro rfl
      exact absurd h.1 (by decide)
    simp [opensComment, hc]

/-- A word where there are operators starts no comment, since a slash is one of them. -/
theorem opensComment_of_isWord {w : List Char} (hs : s.hasOperators = true) (h : IsWord s w) :
    opensComment w = false := by
  obtain ⟨hw, hl⟩ := h
  cases w with
  | nil => rfl
  | cons c w =>
    have hc : c ≠ '/' := by
      rintro rfl
      simp [wordLength, continuesWord_slash, hs] at hl
    simp [opensComment, hc]

/-- A pattern starts no comment. -/
theorem opensComment_patternItem (x : String) : (patternItem x).opensComment = false := by
  unfold patternItem
  split <;> rfl

end Query

variable {s : Segment} {fresh : Bool}

/-! ## Head -/

/-- A pre-filter has a comment only if its key starts one. -/
theorem PreFilter.uncommented_iff (f : PreFilter) :
    Uncommented true f.layout ↔ NoComment f.key := by
  simp [PreFilter.layout, Uncommented, Item.opensComment, NoComment, Item.isBlank]

/-- A search in parentheses has a comment only if one of its terms starts one. -/
theorem Search.uncommented_wrap {e : Search}
    (h : ∀ fresh, Uncommented fresh e.layout ↔ e.NoComments fresh) :
    Uncommented fresh (wrap (!e.isLiteral) e.layout) ↔ e.NoComments (fresh && e.isLiteral) := by
  cases he : e.isLiteral with
  | true => simpa [wrap] using h fresh
  | false =>
    simp [wrap, Uncommented, uncommented_append, ← h false, Item.isBlank]

/-- A search has a comment only if one of its terms starts one. -/
theorem Search.uncommented_iff (e : Search) :
    ∀ fresh, Uncommented fresh e.layout ↔ e.NoComments fresh := by
  induction e with
  | literal l => cases l <;> simp [Search.layout, SearchLiteral.item, Uncommented, Search.NoComments,
      NoComment, Item.opensComment]
  | and l r hl hr =>
    intro fresh
    have hword : (Item.word "AND").opensComment = false := by decide
    simp [Search.layout, uncommented_append, Uncommented, Search.NoComments,
      uncommented_wrap hl, ← hr, Item.isBlank, hword]
  | or l r hl hr =>
    intro fresh
    have hword : (Item.word "OR").opensComment = false := by decide
    simp [Search.layout, uncommented_append, Uncommented, Search.NoComments,
      uncommented_wrap hl, ← hr, Item.isBlank, hword]

/-! ## Expressions -/

/-- A constant starts no comment. -/
theorem Literal.quiet {l : Literal} (h : l.WellFormedMember) : Quiet l.layout := by
  have hnumber : ∀ {x : Float}, IsNumber x → (Item.word (Number.plainText x)).opensComment = false :=
    fun hx => opensComment_of_plain hx.isPlain.2
  cases l with
  | number x =>
    rcases h with h | ⟨y, h, rfl⟩
    · simp [Literal.layout, numberLayout_eq h, hnumber h]
    · simp [Literal.layout, numberLayout_neg h, hnumber h]
  | string t => simp [Literal.layout]
  | boolean b => cases b <;> simp [Literal.layout] <;> decide
  | null =>
    simp [Literal.layout]
    decide

mutual
/-- A well-formed expression starts no comment. -/
theorem Expr.quiet [Regex.Library] (hs : s.hasOperators = true) :
    (e : Expr) → e.WellFormed s → Quiet e.layout
  | .literal l, h => by
    rw [Expr.layout]
    exact l.quiet h.member
  | .column name, h => by
    have hname : (Item.word name).opensComment = false := opensComment_of_isWord hs (IsName.word h)
    simp [Expr.layout, hname]
  | .not e, h => by simp [Expr.layout, quiet_wrap _ (e.quiet hs h)]
  | .negate e, h => by simp [Expr.layout, quiet_wrap _ (e.quiet hs h)]
  | .binary op l r, h => by
    simp [Expr.layout, quiet_wrap _ (l.quiet hs h.1), quiet_wrap _ (r.quiet hs h.2)]
  | .member e list, h => by
    have hlist : Quiet (commaLayout (list.map Literal.layout)) :=
      quiet_commaLayout (by simpa using fun l hl => l.quiet (h.2.2 l hl))
    have hword : (Item.word "in").opensComment = false := by decide
    simp [Expr.layout, quiet_wrap _ (e.quiet hs h.1), hlist, hword]
  | .call f args, h => by
    have hword : (Item.word f.name).opensComment = false := by cases f <;> decide
    simp [Expr.layout, quiet_commaLayout (quiet_arguments hs args h.2), hword]

/-- Well-formed arguments start no comment. -/
theorem quiet_arguments [Regex.Library] (hs : s.hasOperators = true) : (args : List Expr) →
    WellFormedArguments s args → ∀ items ∈ argumentLayouts args, Quiet items
  | [], _ => by simp [argumentLayouts]
  | e :: rest, h => by
    simpa [argumentLayouts] using ⟨e.quiet hs h.1, quiet_arguments hs rest h.2⟩
end

/-! ## Stages -/

/-- A new name has a comment only if it starts one. -/
theorem uncommented_newNameLayout (name : Option String) :
    Uncommented fresh (newNameLayout name) ↔ ∀ n ∈ name, NoComment n := by
  have hword : opensComment ['a', 's'] = false := by decide
  cases name with
  | none => simp [newNameLayout, Uncommented]
  | some name =>
    simp [newNameLayout, Uncommented, hword, Item.isBlank, Item.opensComment, NoComment]

/-- An aggregation has a comment only if its new name starts one. -/
theorem AggregateCall.uncommented_iff (a : AggregateCall) :
    Uncommented true a.layout ↔ ∀ name ∈ a.newName, NoComment name := by
  have hword : (Item.word a.function.name).opensComment = false := by
    cases a.function <;> decide
  cases hc : a.column <;>
    simp [AggregateCall.layout, hc, Uncommented, uncommented_newNameLayout, hword, Item.isBlank]

/-- Aggregations and their groups have a comment only if one of the names starts one. -/
theorem uncommented_aggregationsLayout {calls : List AggregateCall} {groupBy : List String} :
    Uncommented true (aggregationsLayout calls groupBy) ↔ NoCommentsIn calls groupBy := by
  have hword : opensComment ['b', 'y'] = false := by decide
  have hgroup : ∀ fresh, Uncommented fresh (groupLayout groupBy) ↔
      ∀ name ∈ groupBy, NoComment name := by
    intro fresh
    unfold groupLayout
    split
    next he => simp [List.isEmpty_iff.1 he, Uncommented]
    next =>
      simp [Uncommented, uncommented_commaLayout, hword, Item.isBlank, Item.opensComment, NoComment]
  simp [aggregationsLayout, uncommented_append, uncommented_commaLayout, hgroup,
    AggregateCall.uncommented_iff, NoCommentsIn]

/-- An option has no comment, if its name starts none. -/
theorem uncommented_optionLayout (name : String) (value : Option String)
    (hn : (Item.word name).opensComment = false) :
    Uncommented true (optionLayout name value) := by
  cases value <;> simp [optionLayout, Uncommented, hn, Item.isBlank]

/-- Behind an option stands a blank. -/
theorem freshAfter_optionLayout (name : String) (value : Option String) :
    freshAfter true (optionLayout name value) = true := by
  cases value <;> rfl

/-- A stage has a comment only if one of its names behind blanks starts one. -/
theorem Stage.uncommented_iff [Regex.Library] {e : Stage} (h : e.WellFormed) :
    Uncommented true e.bodyLayout ↔ e.NoComments := by
  cases e with
  | table columns =>
    simp [Stage.bodyLayout, uncommented_commaLayout, TableColumn.layout, Uncommented,
      uncommented_newNameLayout, Stage.NoComments, Item.opensComment, NoComment]
  | stats calls groupBy => exact uncommented_aggregationsLayout
  | regex field pattern =>
    have hfield := uncommented_optionLayout "field" field (by decide)
    simp [Stage.bodyLayout, uncommented_append, hfield, Uncommented, opensComment_patternItem,
      Stage.NoComments]
  | sort keys =>
    have hword : ∀ d : Direction, opensComment d.text.toList = false := by
      intro d
      cases d <;> decide
    simp [Stage.bodyLayout, uncommented_commaLayout, SortKey.layout, Uncommented, Stage.NoComments,
      hword, Item.opensComment, NoComment]
  | filter condition => simp [Stage.bodyLayout, Stage.NoComments, (condition.quiet rfl h).uncommented]
  | timeChart span timeColumn maxGroups calls groupBy =>
    have hspan := uncommented_optionLayout "span" (span.map TimeSpan.text) (by decide)
    have htime := uncommented_optionLayout "timeCol" timeColumn (by decide)
    have hgroups := uncommented_optionLayout "maxGroups" (maxGroups.map toString) (by decide)
    simp [Stage.bodyLayout, uncommented_append, freshAfter_optionLayout, hspan,
      htime, hgroups, uncommented_aggregationsLayout, Stage.NoComments]
  | eval target value =>
    have htarget : (Item.word target).opensComment = false := opensComment_of_isWord rfl h.1.word
    simp [Stage.bodyLayout, Stage.NoComments, Uncommented, htarget, (value.quiet rfl h.2).uncommented]

/-- Names that start no comment are what keeps the canonical text of a query free of comments. -/
theorem Query.uncommented_iff [Regex.Library] {q : Query} (h : q.WellFormed) :
    Uncommented true q.layout ↔ q.NoComments := by
  have hstage : ∀ e ∈ q.pipeline, (Uncommented true e.layout ↔ e.NoComments) := by
    intro e he
    have hword : (Item.word e.name).opensComment = false := by
      rw [e.name_eq]
      cases e.command <;> decide
    rw [← e.uncommented_iff (h.pipeline e he)]
    simp [Stage.layout, Uncommented, hword, Item.isBlank]
  rw [Query.layout, uncommented_blankLayout]
  simp only [List.mem_append, List.mem_map, Option.mem_toList, or_imp, forall_and,
    forall_exists_index, and_imp, forall_apply_eq_imp_iff₂, PreFilter.uncommented_iff,
    Search.uncommented_iff]
  constructor
  · rintro ⟨⟨hf, hq⟩, hs⟩
    exact ⟨hf, hq, fun e he => (hstage e he).1 (hs e he)⟩
  · rintro ⟨hf, hq, hs⟩
    exact ⟨⟨hf, hq⟩, fun e he => (hstage e he).2 (hs e he)⟩

end LogSearch
