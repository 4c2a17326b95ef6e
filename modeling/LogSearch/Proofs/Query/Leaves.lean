import LogSearch.Proofs.Query.Comments
import LogSearch.Proofs.Query.Quoting

/-!
# What a text cannot leave out

The quoted texts of a tree, and its names that start with two slashes, come from tokens of their
own. So every text of the tree has them all, in order.

* `leaves`, `tokenLeaves`: the quoted texts and such names of a layout and of tokens.
* `Yields`: tokens before a rest have the leaves of a layout.
* `WritesQuery.yields`: the tokens of a query have the leaves of its canonical text.
-/

namespace LogSearch.Query

open LogSearch.Query.Parser (literal? ChartOptions)

/-- A leaf of a tree that no other token stands for. -/
inductive Leaf
  | comment
  | string (text : List Char)

/-- The leaf that a word is. -/
def wordLeaf? (w : String) : Option Leaf :=
  if opensComment w.toList then some .comment else none

/-- The leaf that a spelled token is. -/
def spellingLeaf? : Spelling → Option Leaf
  | (.word w, _) => wordLeaf? w
  | (.number _, w) => wordLeaf? w
  | (.quoted t, _) | (.backtick t, _) => some (.string t.toList)
  | _ => none

/-- The leaf that a piece is. -/
def Item.leaf? : Item → Option Leaf
  | word w => wordLeaf? w
  | quoted t | backtick t => some (.string t.toList)
  | _ => none

/-- The leaves of a layout. -/
def leaves (items : List Item) : List Leaf := items.filterMap Item.leaf?

/-- The leaves of tokens. -/
def tokenLeaves (ts : List Token) : List Leaf := ts.filterMap fun t => spellingLeaf? t.spelling

/-! ## Leaves of layouts -/

/-- A word that starts no comment is no leaf. -/
theorem wordLeaf?_eq_none {w : String} (h : (Item.word w).opensComment = false) :
    wordLeaf? w = none := by
  have hw : opensComment w.toList = false := h
  simp [wordLeaf?, hw]

/-- Nothing has no leaves. -/
@[simp] theorem leaves_nil : leaves [] = [] := rfl

/-- The leaves of two layouts are those of the one and those of the other. -/
@[simp] theorem leaves_append (items more : List Item) :
    leaves (items ++ more) = leaves items ++ leaves more := List.filterMap_append

/-- A blank has no leaf. -/
@[simp] theorem leaves_blank (items : List Item) : leaves (.blank :: items) = leaves items := rfl

/-- A symbol has no leaf. -/
@[simp] theorem leaves_symbol (m : Symbol) (items : List Item) :
    leaves (.symbol m :: items) = leaves items := rfl

/-- A word that starts no comment adds no leaf. -/
theorem leaves_word {w : String} (h : (Item.word w).opensComment = false) (items : List Item) :
    leaves (.word w :: items) = leaves items :=
  List.filterMap_cons_none (wordLeaf?_eq_none h)

/-- A pattern is the leaf of its text. -/
theorem leaf?_patternItem (x : String) : (patternItem x).leaf? = some (.string x.toList) := by
  unfold patternItem
  split <;> rfl

/-- Parentheses have no leaves. -/
@[simp] theorem leaves_wrap (wrapped : Bool) (items : List Item) :
    leaves (wrap wrapped items) = leaves items := by
  cases wrapped <;> simp [wrap]

/-- Commas have no leaves. -/
@[simp] theorem leaves_commaLayout (layouts : List (List Item)) :
    leaves (commaLayout layouts) = layouts.flatMap leaves := by
  induction layouts with
  | nil => rfl
  | cons items layouts ih =>
    cases layouts with
    | nil => simp [commaLayout]
    | cons more layouts =>
      rw [commaLayout, leaves_append, leaves_symbol, leaves_blank, ih]
      · rfl
      · simp

/-- Blanks between layouts have no leaves. -/
@[simp] theorem leaves_blankLayout (layouts : List (List Item)) :
    leaves (blankLayout layouts) = layouts.flatMap leaves := by
  induction layouts with
  | nil => rfl
  | cons items layouts ih =>
    cases layouts with
    | nil => simp [blankLayout]
    | cons more layouts =>
      rw [blankLayout, leaves_append, leaves_blank, ih]
      · rfl
      · simp

/-- The token of a piece is the leaf that the piece is, if it is one at all. -/
theorem spellingLeaf?_item (s : Segment) (i : Item) :
    (i.spelling? s).bind spellingLeaf? = none ∨ (i.spelling? s).bind spellingLeaf? = i.leaf? := by
  cases i with
  | word w =>
    simp only [Item.spelling?, Item.kind?, Option.map_some, Option.bind_some, Item.leaf?,
      Item.text_word, String.ofList_toList]
    cases hk : wordKind s w.toList with
    | word x =>
      obtain rfl : x = w := by simpa using eq_of_wordKind_word hk
      exact .inr rfl
    | number x => exact .inr rfl
    | quoted t | backtick t =>
      have hnone := wordKind_string? s w.toList
      simp [hk, TokenKind.string?] at hnone
    | _ => exact .inl rfl
  | blank => exact .inl rfl
  | symbol m => exact .inl rfl
  | quoted t => exact .inr rfl
  | backtick t => exact .inr rfl

/-- The tokens of a layout have no leaves but its own. -/
theorem spellingLeaf?_sublist (s : Segment) (items : List Item) :
    ((spellings s items).filterMap spellingLeaf?).Sublist (leaves items) := by
  induction items generalizing s with
  | nil => exact .slnil
  | cons i items ih =>
    have hi : ((i.spelling? s).toList.filterMap spellingLeaf?).Sublist i.leaf?.toList := by
      have heq : (i.spelling? s).toList.filterMap spellingLeaf? =
          ((i.spelling? s).bind spellingLeaf?).toList := by
        cases i.spelling? s with
        | none => rfl
        | some k => cases hk : spellingLeaf? k <;> simp [hk]
      rw [heq]
      rcases spellingLeaf?_item s i with h | h
      · simp [h]
      · rw [h]
    have hcons : leaves (i :: items) = i.leaf?.toList ++ leaves items := by
      cases hl : i.leaf? <;> simp [leaves, hl]
    rw [spellings, List.filterMap_append, hcons]
    exact hi.append (ih _)

/-! ## Leaves of tokens -/

variable {s : Segment} {ts us vs : List Token} {items more : List Item}

/-- The tokens `ts` before `us` have the leaves of a layout. -/
def Yields (ts : List Token) (items : List Item) (us : List Token) : Prop :=
  (leaves items ++ tokenLeaves us).Sublist (tokenLeaves ts)

/-- No tokens have no leaves. -/
theorem Yields.refl : Yields ts [] ts := List.Sublist.refl _

/-- The leaves of tokens one behind the other are those of both layouts. -/
theorem Yields.append (h : Yields ts items us) (g : Yields us more vs) :
    Yields ts (items ++ more) vs := by
  unfold Yields
  rw [leaves_append, List.append_assoc]
  exact (g.append_left _).trans h

/-- Tokens have the leaves of every layout with the same ones. -/
theorem Yields.congr (h : Yields ts items us) (hl : leaves more = leaves items) :
    Yields ts more us := by
  rw [Yields, hl]
  exact h

/-- A token in front changes nothing. -/
theorem Yields.cons {t : Token} (h : Yields ts items us) : Yields (t :: ts) items us :=
  h.trans ((List.sublist_cons_self t ts).filterMap _)

/-- A token after a part is left out. -/
theorem Yields.tail {t : Token} (h : Yields ts items (t :: us)) : Yields ts items us :=
  (((List.sublist_cons_self t us).filterMap _).append_left _).trans h

/-- A token yields the leaf that it is. -/
theorem yields_token {t : Token} {i : Item} (h : i.leaf? = none ∨ spellingLeaf? t.spelling = i.leaf?) :
    Yields (t :: ts) [i] ts := by
  rcases h with h | h
  · have hnone : Yields (t :: ts) [] ts := Yields.refl.cons
    exact hnone.congr (by simp [leaves, h])
  · have hl : leaves [i] ++ tokenLeaves ts = tokenLeaves (t :: ts) := by
      cases hi : i.leaf? <;> simp [leaves, tokenLeaves, h, hi]
    rw [Yields, hl]

/-- A name has no leaf. -/
theorem yields_word {t : Token} {name : String} (h : t.kind = .word name) :
    Yields (t :: ts) [.word name] ts :=
  yields_token (.inr (by simp [Token.spelling, h, spellingLeaf?, Item.leaf?]))

/-- A pattern is the leaf of its token. -/
theorem yields_pattern {t : Token} {x : String} (h : t.kind = .backtick x ∨ t.kind = .quoted x) :
    Yields (t :: ts) [patternItem x] ts := by
  refine yields_token (.inr ?_)
  rw [leaf?_patternItem]
  rcases h with h | h <;> simp [Token.spelling, h, spellingLeaf?]

/-- Tokens further behind do not matter. -/
theorem Yields.frame (h : Yields ts items us) (vs : List Token) :
    Yields (ts ++ vs) items (us ++ vs) := by
  have hleaves : ∀ ts, tokenLeaves (ts ++ vs) = tokenLeaves ts ++ tokenLeaves vs := fun _ =>
    List.filterMap_append
  rw [Yields, hleaves, hleaves, ← List.append_assoc]
  exact h.append_right _

/-- Items with commas between them have the leaves of each. -/
theorem Separated.yields {α : Type} {Item : List Token → α → List Token → Prop}
    (layout : α → List Query.Item) {as : List α}
    (hi : ∀ a ∈ as, ∀ {ts us}, Item ts a us → Yields ts (layout a) us)
    (h : Separated Item ts as us) : Yields ts (commaLayout (as.map layout)) us := by
  induction h with
  | single h => exact hi _ (by simp) h
  | cons h _ _ ih =>
    rw [List.forall_mem_cons] at hi
    exact ((hi.1 h).tail.append (ih hi.2)).congr (by simp)

/-! ## Searches -/

/-- A conjunction has the leaves of both sides. -/
theorem leaves_and : ∀ l r : Search, leaves (Search.and l r).layout =
    leaves (l.layout ++ r.layout) := by
  have hword : (Item.word "AND").opensComment = false := by decide
  simp [Search.layout, leaves_word hword]

/-- A disjunction has the leaves of both sides. -/
theorem leaves_or : ∀ l r : Search, leaves (Search.or l r).layout =
    leaves (l.layout ++ r.layout) := by
  have hword : (Item.word "OR").opensComment = false := by decide
  simp [Search.layout, leaves_word hword]

/-- A number as a term has the leaf of its text. -/
theorem yields_term {t : Token} {x : Float} (h : t.kind = .number x) :
    Yields (t :: ts) [.word t.text] ts :=
  yields_token (.inr (by simp [Token.spelling, h, spellingLeaf?, Item.leaf?]))

/-- A phrase is the leaf of its token. -/
theorem yields_phrase {t : Token} {x : String} (h : t.kind = .quoted x ∨ t.kind = .backtick x) :
    Yields (t :: ts) [.quoted x] ts := by
  refine yields_token (.inr ?_)
  rcases h with h | h <;> simp [Token.spelling, h, spellingLeaf?, Item.leaf?]

mutual
/-- A search has the leaves of its tokens. -/
theorem WritesSearch.yields : ∀ {ts : List Token} {e : Search} {us : List Token},
    WritesSearch ts e us → Yields ts e.layout us
  | _, _, _, .single h => h.yields
  | _, _, _, .and h _ g => (h.yields.tail.append g.yields).congr (leaves_and ..)
  | _, _, _, .or h _ g => (h.yields.tail.append g.yields).congr (leaves_or ..)
  | _, _, _, .beside h g => (h.yields.append g.yields).congr (leaves_and ..)

/-- A factor of a search has the leaves of its tokens. -/
theorem WritesSearchFactor.yields : ∀ {ts : List Token} {e : Search} {us : List Token},
    WritesSearchFactor ts e us → Yields ts e.layout us
  | _, _, _, .parens _ h _ => h.yields.tail.cons
  | _, _, _, .word h => yields_word h
  | _, _, _, .number h => yields_term h
  | _, _, _, .phrase h => yields_phrase h
end

/-! ## Expressions -/

/-- A number has no leaf. -/
theorem leaves_number {x : Float} (h : (Literal.number x).WellFormedMember) :
    leaves (Literal.number x).layout = [] := by
  have hword : ∀ {y}, IsNumber y → leaves [.word (Number.plainText y)] = [] := fun hy =>
    leaves_word (opensComment_of_plain hy.isPlain.2) []
  rcases h with h | ⟨y, h, rfl⟩
  · rw [Literal.layout, numberLayout_eq h, hword h]
  · rw [Literal.layout, numberLayout_neg h, leaves_symbol, hword h]

/-- A constant has the leaf of its token. -/
theorem yields_literal {l : Literal} {kind : HighlightKind} {t : Token}
    (h : literal? t.kind = some (l, kind)) (hl : l.WellFormedMember) :
    Yields (t :: ts) l.layout ts := by
  have hnone : leaves l.layout = [] → Yields (t :: ts) l.layout ts := Yields.refl.cons.congr
  cases l with
  | number x => exact hnone (leaves_number hl)
  | boolean b => exact hnone (by cases b <;> decide)
  | null => exact hnone (by decide)
  | string x =>
    refine yields_phrase ?_
    unfold literal? at h
    split at h <;> simp_all

/-- A constant of a list has the leaf of its tokens. -/
theorem WritesConstant.yields {l : Literal} (h : WritesConstant ts l us) (hl : l.WellFormedMember) :
    Yields ts l.layout us := by
  cases h with
  | plain h => exact yields_literal h hl
  | negative _ _ => exact Yields.refl.cons.cons.congr (leaves_number hl)

mutual
/-- An expression has the leaves of its tokens. -/
theorem Denotes.yields [Regex.Library] : ∀ {ts : List Token} {e : Expr} {us : List Token},
    Denotes ts e us → e.WellFormed s → Yields ts e.layout us
  | _, _, _, .parens _ h _, he => (h.yields he).tail.cons
  | _, _, _, .literal h, he => yields_literal h he.member
  | _, _, _, .column h, _ => yields_word h
  | _, _, _, .not _ h, he => (h.yields he).cons.congr (by simp [Expr.layout])
  | _, _, _, .negate _ h, he => (h.yields he).cons.congr (by simp [Expr.layout])
  | _, _, _, .binary h _ g, he =>
    ((h.yields he.1).tail.append (g.yields he.2)).congr (by simp [Expr.layout])
  | _, _, _, .member h g, he => by
    have hword : (Item.word "in").opensComment = false := by decide
    obtain ⟨-, -, g, -⟩ := g
    have hlist := g.yields Literal.layout fun l hl _ _ hc => hc.yields (he.2.2 l hl)
    exact ((h.yields he.1).append hlist.tail.cons.cons).congr (by
      simp [Expr.layout, leaves_word hword])
  | _, .call f args, _, .call _ _ _ h _ _, he => by
    have hword : (Item.word f.name).opensComment = false := by cases f <;> decide
    exact (h.yields he.2).tail.cons.cons.congr (by simp [Expr.layout, leaves_word hword])

/-- Arguments have the leaves of their tokens. -/
theorem DenotesArguments.yields [Regex.Library] : ∀ {ts : List Token} {args : List Expr}
    {us : List Token},
    DenotesArguments ts args us → WellFormedArguments s args →
    Yields ts (commaLayout (argumentLayouts args)) us
  | _, _, _, .none, _ => Yields.refl
  | _, _, _, .single h, ha => h.yields ha.1
  | _, _, _, .cons h _ g, ha =>
    ((h.yields ha.1).tail.append (g.yields ha.2)).congr (by simp [argumentLayouts])
end

/-! ## Stages -/

/-- A name has the leaf of its token. -/
theorem WritesName.yields {name : String} (h : WritesName ts name us) :
    Yields ts [.word name] us := by
  obtain ⟨h⟩ := h
  exact yields_word h

/-- A new name, or none, has the leaf of its tokens. -/
theorem yields_newName {name : Option String} (h : Maybe (Under .as WritesName) ts name us) :
    Yields ts (newNameLayout name) us := by
  have hword : (Item.word "as").opensComment = false := by decide
  cases h with
  | none => exact Yields.refl
  | some h =>
    obtain ⟨-, h⟩ := h
    exact h.yields.cons.congr (by simp [newNameLayout, leaves_word hword])

/-- A column of a table has the leaves of its tokens. -/
theorem WritesTableColumn.yields {c : TableColumn} (h : WritesTableColumn ts c us) :
    Yields ts c.layout us := by
  obtain ⟨h, g⟩ := h
  exact h.yields.append (yields_newName g)

/-- An aggregation has the leaves of its tokens. -/
theorem WritesAggregateCall.yields {a : AggregateCall} (h : WritesAggregateCall ts a us) :
    Yields ts a.layout us := by
  obtain @⟨name, f, column, newName, t, l, r, ts, us, vs, -, -, -, hc, -, -, hn⟩ := h
  have hword : (Item.word f.name).opensComment = false := by cases f <;> decide
  have hcolumn : Yields ts (column.toList.map .word) (r :: us) := by
    cases hc with
    | none => exact Yields.refl
    | some hc => exact hc.yields
  exact (hcolumn.tail.append (yields_newName hn)).cons.cons.congr (by
    simp [AggregateCall.layout, leaves_word hword])

/-- Aggregations and their groups have the leaves of their tokens. -/
theorem WritesAggregations.yields {calls : List AggregateCall} {groupBy : List String}
    (h : WritesAggregations ts (calls, groupBy) us) :
    Yields ts (aggregationsLayout calls groupBy) us := by
  obtain ⟨h, g⟩ := h
  have hword : (Item.word "by").opensComment = false := by decide
  have hcalls := h.yields AggregateCall.layout fun a _ _ _ ha => ha.yields
  refine hcalls.append ?_
  cases g with
  | none => exact Yields.refl
  | some g =>
    obtain ⟨-, g⟩ := g
    have hgroup := g.yields (fun name => [.word name]) fun name _ _ _ hn => hn.yields
    refine hgroup.cons.congr ?_
    unfold groupLayout
    split <;> simp_all [leaves_word hword]

/-- A sort key has the leaves of its tokens. -/
theorem WritesSortKey.yields {k : SortKey} (h : WritesSortKey ts k us) : Yields ts k.layout us := by
  have hword : ∀ d : Direction, (Item.word d.text).opensComment = false := by
    intro d
    cases d <;> decide
  have hkey : ∀ {us name} {d : Direction}, WritesName ts name us →
      Yields ts (SortKey.layout ⟨name, d⟩) us := by
    intro us name d h
    refine h.yields.congr ?_
    rw [SortKey.layout, ← List.singleton_append, leaves_append, leaves_blank, leaves_word (hword d)]
    simp
  cases h with
  | plain h => exact hkey h
  | asc h _ => exact (hkey h).tail
  | desc h _ => exact (hkey h).tail

/-- An option has the leaf of its value. -/
theorem leaves_optionLayout {name : String} (h : (Item.word name).opensComment = false)
    (value : Option String) :
    leaves (optionLayout name value) = leaves (value.toList.map .word) := by
  cases value with
  | none => rfl
  | some value => exact leaves_word h _

/-- An option that names a column has the leaf of its tokens. -/
theorem yields_setting {k : Keyword} {name : String} (h : Setting k WritesName ts name us) :
    Yields ts [.word name] us := by
  obtain ⟨-, -, h⟩ := h
  exact h.yields.cons.cons

/-- The column of the options, as a layout. -/
def timeColumnLayout (options : ChartOptions) : List Item := options.timeColumn.toList.map .word

/-- An option given again replaces a leaf by one that comes later. -/
theorem WritesChartOption.sublist {o : ChartOption} (h : WritesChartOption ts o us)
    (options : ChartOptions) :
    (leaves (timeColumnLayout (o.set options)) ++ tokenLeaves us).Sublist
      (leaves (timeColumnLayout options) ++ tokenLeaves ts) := by
  have hkeep : Yields ts [] us → (leaves (timeColumnLayout options) ++ tokenLeaves us).Sublist
      (leaves (timeColumnLayout options) ++ tokenLeaves ts) := fun hy => hy.append_left _
  cases h with
  | span h =>
    obtain ⟨-, -, -, -⟩ := h
    exact hkeep Yields.refl.cons.cons.cons
  | timeColumn h => exact (yields_setting h).trans (List.sublist_append_right ..)
  | maxGroups h =>
    obtain ⟨-, -, -, -⟩ := h
    exact hkeep Yields.refl.cons.cons.cons

/-- Options have leaves of their tokens; one that is replaced leaves its own out. -/
theorem sublist_foldl_set {list : List ChartOption} (h : Repeated WritesChartOption ts list us)
    (options : ChartOptions) :
    (leaves (timeColumnLayout (list.foldl ChartOption.set options)) ++ tokenLeaves us).Sublist
      (leaves (timeColumnLayout options) ++ tokenLeaves ts) := by
  induction h generalizing options with
  | nil => exact .refl _
  | cons h _ ih => exact (ih _).trans (h.sublist options)

/-- A body has the leaves of its tokens. -/
theorem WritesBody.yields [Regex.Library] {c : Command} {e : Stage} (h : WritesBody c ts e us)
    (he : e.WellFormed) : Yields ts e.bodyLayout us := by
  cases h with
  | table h => exact h.yields _ fun c _ _ _ hc => hc.yields
  | stats h => exact h.yields
  | @regex field pattern ts us vs h g =>
    obtain ⟨g, -⟩ := g
    refine Yields.append ?_ (yields_pattern g)
    cases h with
    | none => exact Yields.refl
    | some h => exact (yields_setting h).congr (leaves_optionLayout (by decide) _)
  | sort h => exact h.yields _ fun k _ _ _ hk => hk.yields
  | filter h => exact h.denotes.yields he
  | @timeChart list options calls groupBy ts us vs h ho g =>
    subst ho
    have hcolumn : Yields ts (timeColumnLayout (list.foldl ChartOption.set ⟨none, none, none⟩)) us :=
      sublist_foldl_set h _
    refine (hcolumn.append g.yields).congr ?_
    have hspan : ∀ d : Option TimeSpan,
        leaves (optionLayout "span" (d.map TimeSpan.text)) = [] := by
      intro d
      rw [leaves_optionLayout (by decide)]
      cases d with
      | none => rfl
      | some d => exact leaves_word (opensComment_of_plain d.isPlain_text) []
    have hgroups : ∀ n : Option Nat, leaves (optionLayout "maxGroups" (n.map toString)) = [] := by
      intro n
      rw [leaves_optionLayout (by decide)]
      cases n with
      | none => rfl
      | some n => exact leaves_word (opensComment_of_plain (isPlain_toString n)) []
    rw [Stage.bodyLayout, leaves_append, leaves_append, leaves_append, leaves_append, hspan, hgroups,
      leaves_optionLayout (by decide), timeColumnLayout]
    simp
  | eval h _ g =>
    refine (h.yields.tail.append (g.denotes.yields he.2)).congr ?_
    rw [Stage.bodyLayout, ← List.singleton_append, leaves_append, leaves_append]
    rfl

/-- The tokens of stages have the leaves of their canonical texts. -/
theorem WritesStages.yields [Regex.Library] {stages : List Stage} (h : WritesStages ts stages)
    (hw : ∀ e ∈ stages, e.WellFormed) : Yields ts (blankLayout (stages.map Stage.layout)) [] := by
  induction h with
  | nil => exact Yields.refl
  | @cons e stages pipe ts us _ hs _ ih =>
    rw [List.forall_mem_cons] at hw
    obtain ⟨-, hbody⟩ := hs
    have hname : (Item.word e.name).opensComment = false := by
      rw [e.name_eq]
      cases e.command <;> decide
    have he := (hbody.yields hw.1).frame us
    refine (Yields.append he (ih hw.2)).cons.cons.congr ?_
    simp [Stage.layout, leaves_word hname]

end LogSearch.Query
