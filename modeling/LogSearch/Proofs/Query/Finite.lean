import LogSearch.Proofs.Query.Derivation

/-!
# Numbers that come back

A number beyond the range of doubles is written as a word without digits. So no token of a canonical
text is such a number, and neither is any number of a query that those tokens write.

* `FiniteNumbers`: no piece of a layout is a number beyond the range.
* `Denotes.finite`: tokens without such a number write an expression without one.
* `WritesStages.finite`: stages that the tokens of their own canonical texts write have none.
-/

namespace LogSearch

open LogSearch.Query
open LogSearch.Query.Parser (literal?)

namespace Query

variable {s : Segment} {ts us : List Token}

/-! ## Numbers in a layout -/

/-- A token kind that is no number beyond the range of doubles. -/
def FiniteKind (k : TokenKind) : Prop := ∀ x, k = .number x → Number.isFinite x = true

/-- A layout none of whose pieces is a number beyond the range of doubles. -/
def FiniteNumbers (s : Segment) (items : List Item) : Prop :=
  ∀ i ∈ items, ∀ k, i.kind? s = some k → FiniteKind k

/-- Nothing holds no number. -/
@[simp] theorem finiteNumbers_nil : FiniteNumbers s [] := by simp [FiniteNumbers]

/-- The numbers of two layouts are finite if those of both are. -/
@[simp] theorem finiteNumbers_append {items more : List Item} :
    FiniteNumbers s (items ++ more) ↔ FiniteNumbers s items ∧ FiniteNumbers s more := by
  simp [FiniteNumbers, or_imp, forall_and]

/-- A blank is no number. -/
@[simp] theorem finiteNumbers_blank {items : List Item} :
    FiniteNumbers s (.blank :: items) ↔ FiniteNumbers s items := by
  simp [FiniteNumbers, Item.kind?]

/-- A symbol is no number. -/
@[simp] theorem finiteNumbers_symbol {m : Symbol} {items : List Item} :
    FiniteNumbers s (.symbol m :: items) ↔ FiniteNumbers s items := by
  simp [FiniteNumbers, Item.kind?, FiniteKind]

/-- A text in quotes is no number. -/
@[simp] theorem finiteNumbers_quoted {t : String} {items : List Item} :
    FiniteNumbers s (.quoted t :: items) ↔ FiniteNumbers s items := by
  simp [FiniteNumbers, Item.kind?, FiniteKind]

/-- A word may be a number, and so may the pieces after it. -/
@[simp] theorem finiteNumbers_word {w : String} {items : List Item} :
    FiniteNumbers s (.word w :: items) ↔
      FiniteKind (wordKind s w.toList) ∧ FiniteNumbers s items := by
  simp [FiniteNumbers, Item.kind?]

/-- Parentheses are no numbers. -/
theorem finiteNumbers_wrap (wrapped : Bool) {items : List Item} (h : FiniteNumbers s items) :
    FiniteNumbers s (wrap wrapped items) := by
  cases wrapped <;> simp [wrap, h]

/-- Commas are no numbers. -/
theorem finiteNumbers_commaLayout {layouts : List (List Item)}
    (h : ∀ items ∈ layouts, FiniteNumbers s items) : FiniteNumbers s (commaLayout layouts) := by
  induction layouts with
  | nil => exact finiteNumbers_nil
  | cons items layouts ih =>
    rw [List.forall_mem_cons] at h
    cases layouts with
    | nil => exact h.1
    | cons more layouts =>
      rw [commaLayout, finiteNumbers_append]
      · exact ⟨h.1, by simp [ih h.2]⟩
      · simp

/-- A word that is no numeral is no number. -/
theorem finiteKind_of_not_isNumeral {w : List Char} (h : isNumeral w = false) :
    FiniteKind (wordKind s w) := by
  intro x hx
  rw [(isNumeral_of_wordKind hx).1] at h
  exact absurd h (by simp)

/-- A number that can be written is a finite one. -/
theorem finiteKind_plainText {x : Float} (h : IsNumber x) (hs : s ≠ .opening) :
    FiniteKind (wordKind s (Number.plainText x).toList) := by
  cases hf : Number.isFinite x with
  | true =>
    rw [wordKind_plainText h hf hs]
    rintro _ ⟨⟩
    exact hf
  | false =>
    rw [h.not_finite hf]
    exact finiteKind_of_not_isNumeral (by decide)

end Query

variable {s : Segment} {ts us : List Token}

/-- A name is no number. -/
theorem IsName.finiteKind {name : String} (h : IsName s name) :
    FiniteKind (wordKind s name.toList) := by
  rw [h.kind]
  rintro _ ⟨⟩

/-- The numbers of a well-formed constant are finite. -/
theorem Literal.finiteNumbers {l : Literal} (h : l.WellFormedMember) (hs : s ≠ .opening) :
    FiniteNumbers s l.layout := by
  cases l with
  | number x =>
    rcases h with h | ⟨y, h, rfl⟩
    · simp [Literal.layout, numberLayout_eq h, finiteKind_plainText h hs]
    · simp [Literal.layout, numberLayout_neg h, finiteKind_plainText h hs]
  | string t => simp [Literal.layout]
  | boolean b =>
    have hword : FiniteKind (wordKind s (if b then "true" else "false").toList) :=
      finiteKind_of_not_isNumeral (by cases b <;> decide)
    simpa [Literal.layout] using hword
  | null =>
    have hword : FiniteKind (wordKind s "null".toList) := finiteKind_of_not_isNumeral (by decide)
    simpa [Literal.layout] using hword

mutual
/-- The numbers of a well-formed expression are finite. -/
theorem Expr.finiteNumbers [Regex.Library] (hs : s ≠ .opening) : (e : Expr) → e.WellFormed s →
    FiniteNumbers s e.layout
  | .literal l, h => by
    rw [Expr.layout]
    exact l.finiteNumbers h.member hs
  | .column name, h => by simp [Expr.layout, IsName.finiteKind h]
  | .not e, h => by simp [Expr.layout, finiteNumbers_wrap _ (e.finiteNumbers hs h)]
  | .negate e, h => by simp [Expr.layout, finiteNumbers_wrap _ (e.finiteNumbers hs h)]
  | .binary op l r, h => by
    simp [Expr.layout, finiteNumbers_wrap _ (l.finiteNumbers hs h.1),
      finiteNumbers_wrap _ (r.finiteNumbers hs h.2)]
  | .member e list, h => by
    have hword : FiniteKind (wordKind s "in".toList) := finiteKind_of_not_isNumeral (by decide)
    have hlist : FiniteNumbers s (commaLayout (list.map Literal.layout)) :=
      finiteNumbers_commaLayout (by simpa using fun l hl => l.finiteNumbers (h.2.2 l hl) hs)
    simpa [Expr.layout, finiteNumbers_wrap _ (e.finiteNumbers hs h.1), hlist] using hword
  | .call f args, h => by
    have hword : FiniteKind (wordKind s f.name.toList) :=
      finiteKind_of_not_isNumeral (by cases f <;> decide)
    simp [Expr.layout, finiteNumbers_commaLayout (finiteNumbers_arguments hs args h.2), hword]

/-- The numbers of well-formed arguments are finite. -/
theorem finiteNumbers_arguments [Regex.Library] (hs : s ≠ .opening) : (args : List Expr) →
    WellFormedArguments s args → ∀ items ∈ argumentLayouts args, FiniteNumbers s items
  | [], _ => by simp [argumentLayouts]
  | e :: rest, h => by
    simpa [argumentLayouts] using ⟨e.finiteNumbers hs h.1, finiteNumbers_arguments hs rest h.2⟩
end

namespace Query

/-! ## Numbers among tokens -/

/-- Tokens none of which is a number beyond the range of doubles. -/
def FiniteTokens (ts : List Token) : Prop := ∀ t ∈ ts, FiniteKind t.kind

/-- Tokens after the first one are as finite. -/
theorem FiniteTokens.tail {t : Token} (h : FiniteTokens (t :: ts)) : FiniteTokens ts :=
  fun u hu => h u (List.mem_cons_of_mem _ hu)

/-- What is left of finite tokens is finite. -/
theorem FiniteTokens.of_passes (h : FiniteTokens ts) (hp : Passes ts us) : FiniteTokens us := by
  obtain ⟨xs, rfl, -⟩ := MayPass.exists_append hp.to_reflTransGen
  exact fun t ht => h t (List.mem_append_right _ ht)

/-- A constant from finite tokens is finite. -/
theorem FiniteTokens.literal {t : Token} {l : Literal} {kind : HighlightKind}
    (h : FiniteTokens (t :: ts)) (hk : literal? t.kind = some (l, kind)) : l.Finite := by
  cases l with
  | number x =>
    have ht : t.kind = .number x := by
      unfold literal? at hk
      split at hk <;> simp_all
    exact h t (List.mem_cons_self ..) x ht
  | _ => trivial

/-- A constant of a list from finite tokens is finite. -/
theorem WritesConstant.finite {l : Literal} (h : WritesConstant ts l us) (hf : FiniteTokens ts) :
    l.Finite := by
  cases h with
  | plain h => exact hf.literal h
  | negative _ hn =>
    rw [Literal.Finite, isFinite_neg]
    exact hf.tail _ (List.mem_cons_self ..) _ hn

/-- Constants of a list from finite tokens are finite. -/
theorem finite_of_separated {list : List Literal} (h : Separated WritesConstant ts list us)
    (hf : FiniteTokens ts) : ∀ l ∈ list, l.Finite := by
  induction h with
  | single h => simpa using h.finite hf
  | cons h _ _ ih =>
    exact List.forall_mem_cons.2 ⟨h.finite hf, ih (hf.of_passes h.passes).tail⟩

mutual
/-- An expression from finite tokens is finite, and so are the tokens after it. -/
theorem Denotes.finite [Regex.Library] : ∀ {ts : List Token} {e : Expr} {us : List Token},
    Denotes ts e us → FiniteTokens ts → e.Finite ∧ FiniteTokens us
  | _, _, _, .parens _ h _, hf =>
    have ⟨he, hu⟩ := h.finite hf.tail
    ⟨he, hu.tail⟩
  | _, _, _, .literal h, hf => ⟨hf.literal h, hf.tail⟩
  | _, _, _, .column _, hf => ⟨trivial, hf.tail⟩
  | _, _, _, .not _ h, hf => h.finite hf.tail
  | _, _, _, .negate _ h, hf => h.finite hf.tail
  | _, _, _, .binary h _ g, hf =>
    have ⟨hl, hu⟩ := h.finite hf
    have ⟨hr, hv⟩ := g.finite hu.tail
    ⟨⟨hl, hr⟩, hv⟩
  | _, _, _, .member h g, hf =>
    have ⟨he, hu⟩ := h.finite hf
    have hv := hu.of_passes g.passes
    match g with
    | .mk _ _ g _ => ⟨⟨he, finite_of_separated g hu.tail.tail⟩, hv⟩
  | _, _, _, .call _ _ _ h _ _, hf =>
    have ⟨hargs, hu⟩ := h.finite hf.tail.tail
    ⟨hargs, hu.tail⟩

/-- Arguments from finite tokens are finite, and so are the tokens after them. -/
theorem DenotesArguments.finite [Regex.Library] : ∀ {ts : List Token} {args : List Expr}
    {us : List Token},
    DenotesArguments ts args us → FiniteTokens ts → FiniteArguments args ∧ FiniteTokens us
  | _, _, _, .none, hf => ⟨trivial, hf⟩
  | _, _, _, .single h, hf =>
    have ⟨he, hu⟩ := h.finite hf
    ⟨⟨he, trivial⟩, hu⟩
  | _, _, _, .cons h _ g, hf =>
    have ⟨he, hu⟩ := h.finite hf
    have ⟨hargs, hv⟩ := g.finite hu.tail
    ⟨⟨he, hargs⟩, hv⟩
end

/-! ## Pipes -/

/-- Tokens up to a pipe. -/
def NoPipe (ks : List Spelling) : Prop := ∀ k ∈ ks, k.1 ≠ .symbol .pipe

/-- No tokens, or tokens from a pipe on. -/
def AtPipe (ks : List Spelling) : Prop := ∀ k ∈ ks.head?, k.1 = .symbol .pipe

/-- Pipes divide tokens in one way only. -/
theorem eq_of_append_eq {ks ks' more more' : List Spelling} (hk : NoPipe ks) (hk' : NoPipe ks')
    (hm : AtPipe more) (hm' : AtPipe more') (h : ks ++ more = ks' ++ more') :
    ks = ks' ∧ more = more' := by
  have htake : ∀ {ks more : List Spelling}, NoPipe ks → AtPipe more →
      (ks ++ more).takeWhile (fun k => k.1 ≠ .symbol .pipe) = ks := by
    intro ks more hk hm
    rw [List.takeWhile_append_of_pos fun k h => decide_eq_true (hk k h)]
    cases more with
    | nil => simp
    | cons k more => simp [hm k rfl]
  have heq : ks = ks' := by rw [← htake hk hm, h, htake hk' hm']
  subst heq
  exact ⟨rfl, List.append_cancel_left h⟩

/-- What stands inside a stage is spelled without a pipe. -/
theorem Inner.noPipe {items : List Item} (h : Inner items) :
    NoPipe (items.filterMap (Item.spelling? s)) := by
  intro k hk
  obtain ⟨i, hi, hspell⟩ := List.mem_filterMap.1 hk
  obtain ⟨kind, hkind, rfl⟩ := Option.map_eq_some_iff.1 hspell
  cases i with
  | blank => simp [Item.kind?] at hkind
  | word w =>
    obtain rfl : wordKind s w.toList = kind := by simpa [Item.kind?] using hkind
    exact wordKind_ne_symbol
  | symbol m =>
    obtain rfl : TokenKind.symbol m = kind := by simpa [Item.kind?] using hkind
    rintro ⟨⟩
    exact h hi
  | quoted t =>
    obtain rfl : TokenKind.quoted t = kind := by simpa [Item.kind?] using hkind
    simp
  | backtick t =>
    obtain rfl : TokenKind.backtick t = kind := by simpa [Item.kind?] using hkind
    simp

/-- Well-formed stages are spelled from a pipe on. -/
theorem atPipe_stages [Regex.Library] {stages : List Stage} (h : ∀ e ∈ stages, e.WellFormed) :
    AtPipe (spellings s (blankLayout (stages.map Stage.layout))) := by
  cases stages with
  | nil => simp [AtPipe, blankLayout, spellings]
  | cons e stages =>
    rw [List.map_cons, spellings_blankLayout, Stage.spellings_layout (h e (List.mem_cons_self ..))]
    simp [AtPipe]

/-- The tokens of a pipeline are spelled from a pipe on. -/
theorem WritesStages.atPipe [Regex.Library] {stages : List Stage} (h : WritesStages ts stages) :
    AtPipe (ts.map Token.spelling) := by
  cases h with
  | nil => simp [AtPipe]
  | cons hpipe _ _ => simp [AtPipe, Token.spelling, hpipe]

/-- Tokens that are spelled like a finite layout are finite. -/
theorem finiteTokens_of_spelling {items : List Item} (h : FiniteNumbers s items)
    (hts : ts.map Token.spelling = items.filterMap (Item.spelling? s)) : FiniteTokens ts := by
  intro t ht
  have hmem : t.spelling ∈ items.filterMap (Item.spelling? s) := hts ▸ List.mem_map_of_mem ht
  obtain ⟨i, hi, hspell⟩ := List.mem_filterMap.1 hmem
  obtain ⟨kind, hkind, heq⟩ := Option.map_eq_some_iff.1 hspell
  have hkt : kind = t.kind := congrArg Prod.fst heq
  exact h i hi _ (hkt ▸ hkind)

/-- The stage of a body is finite if it is spelled like a well-formed one. -/
theorem WritesBody.finite [Regex.Library] {c : Command} {e : Stage} (h : WritesBody c ts e [])
    (hw : e.WellFormed)
    (hts : ts.map Token.spelling = e.bodyLayout.filterMap (Item.spelling? (.command c))) :
    e.Finite := by
  cases h with
  | filter h =>
    exact (h.denotes.finite (finiteTokens_of_spelling (Expr.finiteNumbers (by simp) _ hw) hts)).1
  | @eval target value _ _ _ _ h _ g =>
    have hbody : FiniteNumbers (.command .eval) (Stage.eval target value).bodyLayout := by
      simp [Stage.bodyLayout, hw.1.finiteKind, Expr.finiteNumbers (by simp) _ hw.2]
    have hf := finiteTokens_of_spelling hbody hts
    exact (g.denotes.finite (hf.of_passes h.passes).tail).1
  | _ => trivial

/-- The numbers of stages that the tokens of their canonical texts write are finite. -/
theorem WritesStages.finite [Regex.Library] {stages : List Stage} (h : WritesStages ts stages)
    (hw : ∀ e ∈ stages, e.WellFormed)
    (hts : ts.map Token.spelling = spellings s (blankLayout (stages.map Stage.layout))) :
    ∀ e ∈ stages, e.Finite := by
  induction h generalizing s with
  | nil => simp
  | @cons e stages pipe ts us hpipe hs hrest ih =>
    have hno := hs.no_pipe
    rw [List.forall_mem_cons] at hw
    obtain @⟨c, e, t, ts, us', hc, hbody⟩ := hs
    rw [List.map_cons (f := Stage.layout), spellings_blankLayout, Stage.spellings_layout hw.1] at hts
    obtain ⟨-, hts⟩ := List.cons.inj hts
    rw [List.map_append] at hts
    have hkinds : NoPipe ((t :: ts).map Token.spelling) := by simpa [NoPipe, Token.spelling] using hno
    have hlayout : NoPipe ((.command e.command, e.name) ::
        e.bodyLayout.filterMap (Item.spelling? (.command e.command))) :=
      List.forall_mem_cons.2 ⟨by simp, (Stage.inner hw.1).noPipe⟩
    obtain ⟨hstage, hus⟩ := eq_of_append_eq hkinds hlayout hrest.atPipe (atPipe_stages hw.2) hts
    obtain ⟨hcommand, hbodyts⟩ := List.cons.inj hstage
    obtain rfl : c = e.command := by
      have hkind := (Prod.mk.inj hcommand).1
      rw [hc] at hkind
      exact TokenKind.command.inj hkind
    exact List.forall_mem_cons.2 ⟨hbody.finite hw.1 hbodyts, ih hw.2 hus⟩

end Query

end LogSearch
