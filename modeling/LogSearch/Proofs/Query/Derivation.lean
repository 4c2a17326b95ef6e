import LogSearch.Proofs.Query.Legibility

/-!
# Canonical texts are derivable

The tokens of the layout of a well-formed tree derive the tree, where numbers read back.

* `Ahead`: tokens that start with those of a layout.
* `WritesAt`: the production that a level of precedence stands for.
* `Expr.derives`, `Search.derives`, `Stage.derives`, `Query.derives`: the derivations.
-/

namespace LogSearch

open LogSearch.Query
open LogSearch.Query.Parser (literal? logicalOp? comparisonOp? sumOp? productOp? filterOp?
  filterValue? ChartOptions)

namespace Query

variable {s : Segment} {ts us vs : List Token}

/-! ## Tokens of a layout -/

/-- The tokens `ts` start with those of the layout, and `us` comes after them. -/
def Ahead (s : Segment) : List Item → List Token → List Token → Prop
  | [], ts, us => ts = us
  | i :: items, ts, us =>
    match i.spelling? s with
    | none => Ahead s items ts us
    | some k => ∃ t vs, ts = t :: vs ∧ t.spelling = k ∧ Ahead s items vs us

/-- Nothing ahead leaves the tokens as they are. -/
@[simp] theorem ahead_nil : Ahead s [] ts us ↔ ts = us := Iff.rfl

/-- A blank ahead is no token. -/
@[simp] theorem ahead_blank {items : List Item} :
    Ahead s (.blank :: items) ts us ↔ Ahead s items ts us := Iff.rfl

/-- A word ahead is a token of its kind. -/
theorem ahead_word {w : String} {items : List Item} :
    Ahead s (.word w :: items) ts us ↔ ∃ t vs, ts = t :: vs ∧
      (t.kind = wordKind s w.toList ∧ t.text = w) ∧ Ahead s items vs us := by
  simp [Ahead, Item.spelling?, Item.kind?, Token.spelling]

/-- A symbol ahead is its token. -/
theorem ahead_symbol {m : Symbol} {items : List Item} :
    Ahead s (.symbol m :: items) ts us ↔ ∃ t vs, ts = t :: vs ∧
      (t.kind = .symbol m ∧ t.text = m.text) ∧ Ahead s items vs us := by
  simp [Ahead, Item.spelling?, Item.kind?, Token.spelling]

/-- A text in quotes ahead is its token. -/
theorem Ahead.quoted {x : String} {items : List Item} (h : Ahead s (.quoted x :: items) ts us) :
    ∃ t vs, ts = t :: vs ∧ t.kind = .quoted x ∧ Ahead s items vs us := by
  obtain ⟨t, vs, rfl, ht, h⟩ := h
  exact ⟨t, vs, rfl, (Prod.mk.inj ht).1, h⟩

/-- A pattern ahead is a token in backticks or in quotes. -/
theorem Ahead.pattern {x : String} {items : List Item}
    (h : Ahead s (patternItem x :: items) ts us) :
    ∃ t vs, ts = t :: vs ∧ (t.kind = .backtick x ∨ t.kind = .quoted x) ∧ Ahead s items vs us := by
  unfold patternItem at h
  split at h
  · obtain ⟨t, vs, rfl, ht, h⟩ := h
    exact ⟨t, vs, rfl, .inr (Prod.mk.inj ht).1, h⟩
  · obtain ⟨t, vs, rfl, ht, h⟩ := h
    exact ⟨t, vs, rfl, .inl (Prod.mk.inj ht).1, h⟩

/-- Two layouts ahead are one behind the other. -/
theorem ahead_append {items more : List Item} :
    Ahead s (items ++ more) ts vs ↔ ∃ us, Ahead s items ts us ∧ Ahead s more us vs := by
  induction items generalizing ts with
  | nil => simp
  | cons i items ih =>
    simp only [List.cons_append, Ahead]
    split
    · exact ih
    · simp only [ih]
      constructor
      · rintro ⟨t, xs, rfl, ht, us, h, g⟩
        exact ⟨us, ⟨t, xs, rfl, ht, h⟩, g⟩
      · rintro ⟨us, ⟨t, xs, rfl, ht, h⟩, g⟩
        exact ⟨t, xs, rfl, ht, us, h, g⟩

/-- Tokens that are spelled like a layout have it ahead. -/
theorem ahead_of_spelling {items : List Item} (us : List Token)
    (h : ts.map Token.spelling = items.filterMap (Item.spelling? s)) :
    Ahead s items (ts ++ us) us := by
  induction items generalizing ts with
  | nil => simpa using h
  | cons i items ih =>
    rw [List.filterMap_cons] at h
    unfold Ahead
    split
    next hi =>
      rw [hi] at h
      exact ih h
    next k hi =>
      rw [hi] at h
      obtain ⟨t, xs, rfl, ht, hxs⟩ := List.map_eq_cons_iff.1 h
      exact ⟨t, xs ++ us, rfl, ht, ih hxs⟩

/-! ## Lists and parentheses -/

/-- Items with commas between them are written, if each item is. -/
theorem separated_of_ahead {α : Type} {Item : List Token → α → List Token → Prop}
    {layout : α → List Query.Item} {as : List α} (hne : as ≠ [])
    (h : ∀ a ∈ as, ∀ {ts us}, Ahead s (layout a) ts us → Item ts a us)
    (ha : Ahead s (commaLayout (as.map layout)) ts us) : Separated Item ts as us := by
  induction as generalizing ts with
  | nil => exact absurd rfl hne
  | cons a as ih =>
    rw [List.forall_mem_cons] at h
    cases as with
    | nil => exact .single (h.1 ha)
    | cons b as =>
      rw [List.map_cons, List.map_cons, commaLayout, ahead_append] at ha
      · obtain ⟨xs, ha, hc⟩ := ha
        obtain ⟨t, ys, rfl, ht, hrest⟩ := ahead_symbol.1 hc
        exact .cons (h.1 ha) ht.1 (ih (by simp) h.2 hrest)
      · simp

/-- A layout in parentheses stands between two tokens for them. -/
theorem Ahead.parens {items : List Item} (h : Ahead s (wrap true items) ts us) :
    ∃ l xs r, ts = l :: xs ∧ l.kind = .symbol .leftParen ∧ Ahead s items xs (r :: us) ∧
      r.kind = .symbol .rightParen := by
  simp only [wrap, if_true, List.cons_append] at h
  obtain ⟨l, xs, rfl, hl, h⟩ := ahead_symbol.1 h
  obtain ⟨_, hitems, h⟩ := ahead_append.1 h
  obtain ⟨r, _, rfl, hr, rfl⟩ := ahead_symbol.1 h
  exact ⟨l, xs, r, rfl, hl.1, hitems, hr.1⟩

/-! ## Levels of precedence -/

/-- The production that a level stands for. -/
def WritesAt [Regex.Library] : Nat → List Token → Expr → List Token → Prop
  | 0 => WritesLogical
  | 1 => WritesCondition
  | 2 => WritesComparison
  | 3 => WritesSum
  | 4 => WritesProduct
  | _ => WritesFactor

/-- An expression of one level is one of the level below. -/
theorem WritesAt.pred [Regex.Library] {n : Nat} {e : Expr} (h : WritesAt (n + 1) ts e us) :
    WritesAt n ts e us := by
  match n with
  | 0 => exact .single h
  | 1 => exact .comparison h
  | 2 => exact .single h
  | 3 => exact .mk h .done
  | 4 => exact .mk h .done
  | _ + 5 => exact h

/-- An expression of a level is one of all levels below. -/
theorem WritesAt.mono [Regex.Library] {m n : Nat} {e : Expr} (h : WritesAt n ts e us) (hm : m ≤ n) :
    WritesAt m ts e us := by
  induction n with
  | zero =>
    obtain rfl : m = 0 := by omega
    exact h
  | succ n ih =>
    by_cases he : m = n + 1
    · exact he ▸ h
    · exact ih h.pred (by omega)

/-- An operator and an operand more make a longer chain. -/
theorem Joined.snoc {op? : TokenKind → Option BinaryOp}
    {Operand : List Token → Expr → List Token → Prop} {l r : Expr} {op : BinaryOp} {t : Token}
    (h : Joined op? Operand ts l (t :: us)) (ht : op? t.kind = some op) (hr : Operand us r vs) :
    Joined op? Operand ts (.binary op l r) vs := by
  obtain ⟨ho, hf⟩ := h
  refine .mk ho ?_
  clear ho
  generalize hus : t :: us = us' at hf
  induction hf with
  | done =>
    subst hus
    exact .join ht hr .done
  | join h g _ ih => exact .join h g (ih hus)

/-- Operands that hold together as tightly as an operator asks for are joined by it. -/
theorem writesAt_binary [Regex.Library] {op : BinaryOp} {l r : Expr} {t : Token}
    (hl : WritesAt op.operandLevels.1 ts l (t :: us)) (ht : t.kind = .symbol op.symbol)
    (hr : WritesAt op.operandLevels.2 us r vs) : WritesAt op.level ts (.binary op l r) vs := by
  cases op with
  | and => exact .join hl (by rw [ht]; rfl) hr
  | or => exact .join hl (by rw [ht]; rfl) hr
  | equal => exact .compare hl (by rw [ht]; rfl) hr
  | notEqual => exact .compare hl (by rw [ht]; rfl) hr
  | greater => exact .compare hl (by rw [ht]; rfl) hr
  | greaterEqual => exact .compare hl (by rw [ht]; rfl) hr
  | less => exact .compare hl (by rw [ht]; rfl) hr
  | lessEqual => exact .compare hl (by rw [ht]; rfl) hr
  | add => exact Joined.snoc hl (by rw [ht]; rfl) hr
  | sub => exact Joined.snoc hl (by rw [ht]; rfl) hr
  | mul => exact Joined.snoc hl (by rw [ht]; rfl) hr
  | div => exact Joined.snoc hl (by rw [ht]; rfl) hr

/-- An expression that holds together less tightly than its place asks for stands in parentheses. -/
theorem writesAt_wrap [Regex.Library] {n : Nat} {e : Expr}
    (h : ∀ {ts us}, Ahead s e.layout ts us → WritesAt e.level ts e us)
    (ha : Ahead s (wrap (e.level < n) e.layout) ts us) : WritesAt n ts e us := by
  by_cases hn : e.level < n
  · simp only [hn, decide_true, wrap, if_true, List.cons_append] at ha
    obtain ⟨l, xs, rfl, hl, hrest⟩ := ahead_symbol.1 ha
    obtain ⟨ys, hinner, hlast⟩ := ahead_append.1 hrest
    obtain ⟨r, zs, rfl, hr, rfl⟩ := ahead_symbol.1 hlast
    have hfactor : WritesAt (n + 5) (l :: xs) e zs :=
      WritesFactor.parens hl.1 ((h hinner).mono (Nat.zero_le _)) hr.1
    exact hfactor.mono (by omega)
  · simp only [hn, decide_false, wrap] at ha
    exact (h ha).mono (by omega)

/-! ## Words of expressions -/

/-- A numeral is no keyword. -/
theorem keyword?_eq_none {w : List Char} (h : isNumeral w = true) :
    s.keyword? (String.ofList w) = none := by
  cases hk : s.keyword? (String.ofList w) with
  | none => rfl
  | some k =>
    have htext : k.text = String.ofList w := by simpa using List.find?_some hk
    have hw : w = k.text.toList := by simp [htext]
    subst hw
    cases k <;> simp [Keyword.text, isNumeral, Number.isDigit] at h

/-- Where keywords and commands stand apart, a numeral is a number. -/
theorem wordKind_numeral {w : List Char} (hs : s ≠ .opening) (h : isNumeral w = true) :
    wordKind s w = .number (numeralValue w) := by
  unfold wordKind
  dsimp only
  split
  · exact absurd rfl hs
  · rw [keyword?_eq_none h]
    simp [h]

/-- Only conditions and assignments have operators. -/
theorem eq_of_hasOperators (hs : s.hasOperators = true) :
    s = .command .filter ∨ s = .command .eval := by
  cases s with
  | command c => cases c <;> simp_all [Segment.hasOperators, Command.hasExpressions]
  | _ => simp [Segment.hasOperators] at hs

/-- The name of a function is a word where there are operators. -/
theorem wordKind_function (hs : s.hasOperators = true) (f : Function) :
    wordKind s f.name.toList = .word f.name := by
  rcases eq_of_hasOperators hs with rfl | rfl <;> cases f <;> decide

end Query

variable {s : Segment} {ts us vs : List Token}

/-! ## Expressions -/

/-- A constant that is no number beyond the range of doubles. -/
def Literal.Finite : Literal → Prop
  | number x => Number.isFinite x = true
  | _ => True

mutual
/-- An expression all of whose numbers are finite. -/
def Expr.Finite : Expr → Prop
  | .literal l => l.Finite
  | .column _ => True
  | .not e | .negate e => e.Finite
  | .binary _ l r => l.Finite ∧ r.Finite
  | .member e list => e.Finite ∧ ∀ l ∈ list, l.Finite
  | .call _ args => FiniteArguments args

/-- Arguments all of whose numbers are finite. -/
def FiniteArguments : List Expr → Prop
  | [] => True
  | e :: rest => e.Finite ∧ FiniteArguments rest
end

/-- The word of a finite number is that number. -/
theorem wordKind_plainText {x : Float} (h : IsNumber x) (hf : Number.isFinite x = true)
    (hs : s ≠ .opening) : wordKind s (Number.plainText x).toList = .number x := by
  obtain ⟨hn, hv⟩ := h.reads_back hf
  rw [wordKind_numeral hs hn, hv]

/-- A well-formed constant is written by a token of its own. -/
theorem Literal.derives {l : Literal} (hs : s.hasOperators = true) (h : l.WellFormed)
    (hf : l.Finite) (ha : Ahead s l.layout ts us) :
    ∃ t kind, ts = t :: us ∧ literal? t.kind = some (l, kind) := by
  have hs' : s ≠ .opening := by rcases eq_of_hasOperators hs with rfl | rfl <;> simp
  cases l with
  | number x =>
    rw [Literal.layout, numberLayout_eq h] at ha
    obtain ⟨t, _, rfl, ⟨ht, -⟩, rfl⟩ := ahead_word.1 ha
    rw [wordKind_plainText h hf hs'] at ht
    exact ⟨t, _, rfl, by rw [ht]; rfl⟩
  | string x =>
    obtain ⟨t, _, rfl, ht, rfl⟩ := Ahead.quoted ha
    exact ⟨t, _, rfl, by rw [ht]; rfl⟩
  | boolean b =>
    obtain ⟨t, _, rfl, ⟨ht, -⟩, rfl⟩ := ahead_word.1 ha
    have hk : wordKind s (if b then "true" else "false").toList =
        .keyword (if b then .true else .false) := by
      rcases eq_of_hasOperators hs with rfl | rfl <;> cases b <;> decide
    rw [hk] at ht
    cases b <;> exact ⟨t, _, rfl, by rw [ht]; rfl⟩
  | null =>
    obtain ⟨t, _, rfl, ⟨ht, -⟩, rfl⟩ := ahead_word.1 ha
    have hk : wordKind s "null".toList = .keyword .null := by
      rcases eq_of_hasOperators hs with rfl | rfl <;> decide
    rw [hk] at ht
    exact ⟨t, _, rfl, by rw [ht]; rfl⟩

/-- A constant of a list is written by its tokens. -/
theorem Literal.derives_member {l : Literal} (hs : s.hasOperators = true) (h : l.WellFormedMember)
    (hf : l.Finite) (ha : Ahead s l.layout ts us) : WritesConstant ts l us := by
  have hs' : s ≠ .opening := by rcases eq_of_hasOperators hs with rfl | rfl <;> simp
  have hplain : l.WellFormed → WritesConstant ts l us := fun hw => by
    obtain ⟨t, kind, rfl, ht⟩ := Literal.derives hs hw hf ha
    exact .plain ht
  cases l with
  | number x =>
    rcases h with h | ⟨y, h, rfl⟩
    · exact hplain h
    · rw [Literal.layout, numberLayout_neg h] at ha
      obtain ⟨m, _, rfl, ⟨hm, -⟩, ha⟩ := ahead_symbol.1 ha
      obtain ⟨t, _, rfl, ⟨ht, -⟩, rfl⟩ := ahead_word.1 ha
      rw [Literal.Finite, isFinite_neg] at hf
      rw [wordKind_plainText h hf hs'] at ht
      exact .negative hm ht
  | _ => exact hplain trivial

/-- A function is found by its name. -/
theorem ofName?_name (f : Function) : Function.ofName? f.name = some f := by
  cases f <;> decide

/-- The layouts of arguments are those of each. -/
theorem argumentLayouts_eq (args : List Expr) : argumentLayouts args = args.map Expr.layout := by
  induction args with
  | nil => rfl
  | cons e rest ih => rw [argumentLayouts, ih, List.map_cons]

mutual
/-- The tokens of a well-formed expression of finite numbers derive it at its level. -/
theorem Expr.derives [Regex.Library] (hs : s.hasOperators = true) :
    (e : Expr) → e.WellFormed s → e.Finite →
    ∀ {ts us}, Ahead s e.layout ts us → WritesAt e.level ts e us
  | .literal l, h, hf, ts, us, ha => by
    rw [Expr.layout] at ha
    obtain ⟨t, kind, rfl, ht⟩ := Literal.derives hs h hf ha
    exact WritesFactor.literal ht
  | .column name, h, _, ts, us, ha => by
    rw [Expr.layout] at ha
    obtain ⟨t, _, rfl, ⟨ht, -⟩, rfl⟩ := ahead_word.1 ha
    rw [IsName.kind h] at ht
    exact WritesFactor.column ht
  | .not e, h, hf, ts, us, ha => by
    rw [Expr.layout] at ha
    obtain ⟨t, vs, rfl, ⟨ht, -⟩, ha⟩ := ahead_symbol.1 ha
    exact WritesCondition.not ht (writesAt_wrap (e.derives hs h hf) ha)
  | .negate e, h, hf, ts, us, ha => by
    rw [Expr.layout] at ha
    obtain ⟨t, vs, rfl, ⟨ht, -⟩, ha⟩ := ahead_symbol.1 ha
    exact WritesFactor.negate ht (writesAt_wrap (e.derives hs h hf) ha)
  | .binary op l r, h, hf, ts, us, ha => by
    rw [Expr.layout] at ha
    obtain ⟨xs, hl, ha⟩ := ahead_append.1 ha
    obtain ⟨t, vs, rfl, ⟨ht, -⟩, hr⟩ := ahead_symbol.1 (ahead_blank.1 ha)
    exact writesAt_binary (writesAt_wrap (l.derives hs h.1 hf.1) hl) ht
      (writesAt_wrap (r.derives hs h.2 hf.2) (ahead_blank.1 hr))
  | .member e list, h, hf, ts, us, ha => by
    rw [Expr.layout, List.append_assoc] at ha
    obtain ⟨xs, he, ha⟩ := ahead_append.1 ha
    obtain ⟨i, _, rfl, ⟨hi, -⟩, ha⟩ := ahead_word.1 (ahead_blank.1 ha)
    obtain ⟨l, _, rfl, ⟨hl, -⟩, ha⟩ := ahead_symbol.1 (ahead_blank.1 ha)
    obtain ⟨_, hlist, ha⟩ := ahead_append.1 ha
    obtain ⟨r, _, rfl, ⟨hr, -⟩, rfl⟩ := ahead_symbol.1 ha
    have hin : wordKind s "in".toList = .keyword .memberOf := by
      rcases eq_of_hasOperators hs with rfl | rfl <;> decide
    rw [hin] at hi
    have hmembers : Separated WritesConstant _ list _ := separated_of_ahead h.2.1
      (fun l hl => Literal.derives_member hs (h.2.2 l hl) (hf.2 l hl)) hlist
    exact WritesComparison.member (writesAt_wrap (e.derives hs h.1 hf.1) he)
      (.mk hi hl hmembers hr)
  | .call f args, h, hf, ts, us, ha => by
    rw [Expr.layout, List.cons_append, List.cons_append, argumentLayouts_eq] at ha
    obtain ⟨t, _, rfl, ⟨ht, -⟩, ha⟩ := ahead_word.1 ha
    obtain ⟨l, _, rfl, ⟨hl, -⟩, ha⟩ := ahead_symbol.1 ha
    obtain ⟨_, hargs, ha⟩ := ahead_append.1 ha
    obtain ⟨r, _, rfl, ⟨hr, -⟩, rfl⟩ := ahead_symbol.1 ha
    rw [wordKind_function hs] at ht
    refine WritesFactor.call ht (ofName?_name f) hl ?_ hr h.1
    by_cases hne : args = []
    · subst hne
      obtain rfl := ahead_nil.1 hargs
      exact .none
    · exact .some (separated_of_ahead hne (derives_arguments hs args h.2 hf) hargs)

/-- Well-formed arguments are written by their tokens. -/
theorem derives_arguments [Regex.Library] (hs : s.hasOperators = true) : (args : List Expr) →
    WellFormedArguments s args → FiniteArguments args →
    ∀ e ∈ args, ∀ {ts us}, Ahead s e.layout ts us → WritesLogical ts e us
  | [], _, _ => by simp
  | e :: rest, h, hf => by
    refine List.forall_mem_cons.2 ⟨fun ha => ?_, derives_arguments hs rest h.2 hf.2⟩
    exact (e.derives hs h.1 hf.1 ha).mono (Nat.zero_le _)
end

/-! ## Head -/

/-- A pre-filter is written by the tokens of its layout. -/
theorem PreFilter.derives {f : PreFilter} (h : IsName .search f.key)
    (ha : Ahead .search f.layout ts us) : WritesPreFilter ts f us := by
  obtain ⟨key, op, value⟩ := f
  obtain ⟨k, _, rfl, ⟨hk, -⟩, ha⟩ := ahead_word.1 ha
  obtain ⟨o, _, rfl, ⟨ho, -⟩, ha⟩ := ahead_symbol.1 ha
  obtain ⟨v, _, rfl, hv, rfl⟩ := Ahead.pattern ha
  rw [h.kind] at hk
  refine .mk hk ?_ ?_
  · rw [ho]
    cases op <;> rfl
  · rcases hv with hv | hv <;> simp [filterValue?, hv]

/-- A search literal is written by the token of its piece. -/
theorem SearchLiteral.derives {l : SearchLiteral} (h : (Search.literal l).WellFormed)
    (ha : Ahead .search [l.item] ts us) : WritesSearchFactor ts (.literal l) us := by
  cases l with
  | term x =>
    obtain ⟨t, _, rfl, ⟨ht, htext⟩, rfl⟩ := ahead_word.1 ha
    rcases IsTerm.kind h with ⟨w, hw⟩ | ⟨y, hy⟩
    · obtain rfl : w = x := by simpa using eq_of_wordKind_word hw
      exact .word (ht.trans hw)
    · subst htext
      exact .number (ht.trans hy)
  | phrase x =>
    obtain ⟨t, _, rfl, ht, rfl⟩ := Ahead.quoted ha
    exact .phrase (.inl ht)

/-- A search is written by the tokens of its layout, also in parentheses. -/
theorem Search.derives_wrap {e : Search} (h : e.WellFormed)
    (hd : ∀ {ts us}, Ahead .search e.layout ts us → WritesSearch ts e us)
    (ha : Ahead .search (wrap (!e.isLiteral) e.layout) ts us) : WritesSearchFactor ts e us := by
  have hparens : Ahead .search (wrap true e.layout) ts us → WritesSearchFactor ts e us := by
    intro ha
    obtain ⟨l, xs, r, rfl, hl, hinner, hr⟩ := ha.parens
    exact .parens hl (hd hinner) hr
  cases e with
  | literal l => exact SearchLiteral.derives h ha
  | and l r => exact hparens ha
  | or l r => exact hparens ha

/-- The tokens of a well-formed search derive it. -/
theorem Search.derives {e : Search} (h : e.WellFormed) :
    ∀ {ts us}, Ahead .search e.layout ts us → WritesSearch ts e us := by
  induction e with
  | literal l => exact fun ha => .single (SearchLiteral.derives h ha)
  | and l r hl hr =>
    intro ts us ha
    obtain ⟨_, hleft, ha⟩ := ahead_append.1 ha
    obtain ⟨t, _, rfl, ⟨ht, -⟩, ha⟩ := ahead_word.1 (ahead_blank.1 ha)
    exact .and (l.derives_wrap h.1 (hl h.1) hleft) (ht.trans (by decide))
      (hr h.2 (ahead_blank.1 ha))
  | or l r hl hr =>
    intro ts us ha
    obtain ⟨_, hleft, ha⟩ := ahead_append.1 ha
    obtain ⟨t, _, rfl, ⟨ht, -⟩, ha⟩ := ahead_word.1 (ahead_blank.1 ha)
    exact .or (l.derives_wrap h.1 (hl h.1) hleft) (ht.trans (by decide))
      (hr h.2 (ahead_blank.1 ha))

/-! ## Stages -/

/-- A name is written by its token. -/
theorem writesName_of_ahead {name : String} (h : IsName s name)
    (ha : Ahead s [.word name] ts us) : WritesName ts name us := by
  obtain ⟨t, _, rfl, ⟨ht, -⟩, rfl⟩ := ahead_word.1 ha
  exact .mk (ht.trans h.kind)

/-- A new name, or none, is written by the tokens of its layout. -/
theorem alias_of_ahead {name : Option String} (hs : wordKind s "as".toList = .keyword .as)
    (h : ∀ n ∈ name, IsName s n) (ha : Ahead s (newNameLayout name) ts us) :
    Maybe (Under .as WritesName) ts name us := by
  cases name with
  | none =>
    obtain rfl := ahead_nil.1 ha
    exact .none
  | some name =>
    obtain ⟨t, _, rfl, ⟨ht, -⟩, ha⟩ := ahead_word.1 (ahead_blank.1 ha)
    exact .some (.mk (ht.trans hs) (writesName_of_ahead (h name rfl) (ahead_blank.1 ha)))

/-- A column of a table is written by the tokens of its layout. -/
theorem TableColumn.derives {c : TableColumn} (h : c.WellFormed)
    (ha : Ahead (.command .table) c.layout ts us) : WritesTableColumn ts c us := by
  obtain ⟨t, _, rfl, ⟨ht, -⟩, ha⟩ := ahead_word.1 ha
  exact .mk (.mk (ht.trans h.column.kind)) (alias_of_ahead (by decide) h.newName ha)

/-- What the segments of aggregations have in common. -/
structure Aggregates (s : Segment) : Prop where
  word : ∀ f : Aggregate, wordKind s f.name.toList = .word f.name
  as : wordKind s "as".toList = .keyword .as
  group : wordKind s "by".toList = .keyword .by

/-- In a `stats` stage the names of aggregations are words, and `as` and `by` are keywords. -/
theorem aggregates_stats : Aggregates (.command .stats) where
  word f := by cases f <;> decide
  as := by decide
  group := by decide

/-- In a `timechart` stage the names of aggregations are words, and `as` and `by` are keywords. -/
theorem aggregates_timeChart : Aggregates (.command .timeChart) where
  word f := by cases f <;> decide
  as := by decide
  group := by decide

/-- An aggregation is written by the tokens of its layout. -/
theorem AggregateCall.derives {a : AggregateCall} (hs : Aggregates s) (h : a.WellFormed s)
    (ha : Ahead s a.layout ts us) : WritesAggregateCall ts a us := by
  obtain ⟨f, column, newName⟩ := a
  simp only [AggregateCall.layout, List.cons_append] at ha
  obtain ⟨t, _, rfl, ⟨ht, -⟩, ha⟩ := ahead_word.1 ha
  obtain ⟨l, _, rfl, ⟨hl, -⟩, ha⟩ := ahead_symbol.1 ha
  obtain ⟨_, hcolumn, ha⟩ := ahead_append.1 ha
  obtain ⟨r, _, rfl, ⟨hr, -⟩, ha⟩ := ahead_symbol.1 ha
  have hname : Aggregate.ofName? f.name = some f := by cases f <;> decide
  refine .mk (ht.trans (hs.word f)) hname hl ?_ hr h.count (alias_of_ahead hs.as h.newName ha)
  cases column with
  | none =>
    obtain rfl := ahead_nil.1 hcolumn
    exact .none
  | some name => exact .some (writesName_of_ahead (h.column name rfl) hcolumn)

/-- Aggregations and their groups are written by the tokens of their layout. -/
theorem writesAggregations_of_ahead {calls : List AggregateCall} {groupBy : List String}
    (hs : Aggregates s) (h : WellFormedAggregations s calls groupBy)
    (ha : Ahead s (aggregationsLayout calls groupBy) ts us) :
    WritesAggregations ts (calls, groupBy) us := by
  obtain ⟨_, hcalls, ha⟩ := ahead_append.1 ha
  refine .mk (separated_of_ahead h.ne_nil (fun a hm => a.derives hs (h.calls a hm)) hcalls) ?_
  unfold groupLayout at ha
  split at ha
  next he =>
    obtain rfl := ahead_nil.1 ha
    rw [List.isEmpty_iff.1 he]
    exact .none
  next he =>
    obtain ⟨t, _, rfl, ⟨ht, -⟩, ha⟩ := ahead_word.1 (ahead_blank.1 ha)
    have hne : groupBy ≠ [] := by simpa using he
    exact .some (.mk (ht.trans hs.group)
      (separated_of_ahead hne (fun n hn => writesName_of_ahead (h.groupBy n hn)) (ahead_blank.1 ha)))

/-- An option is written by the tokens of its layout, if its value is. -/
theorem setting_of_ahead {α : Type} {Item : List Token → α → List Token → Prop} {k : Keyword}
    {value : String} {a : α} (hk : wordKind s k.text.toList = .keyword k)
    (h : ∀ {ts}, Ahead s [.word value] ts us → Item ts a us)
    (ha : Ahead s (optionLayout k.text (some value)) ts us) : Setting k Item ts a us := by
  obtain ⟨t, _, rfl, ⟨ht, -⟩, ha⟩ := ahead_word.1 ha
  obtain ⟨e, _, rfl, ⟨he, -⟩, ha⟩ := ahead_symbol.1 ha
  obtain ⟨v, _, rfl, hv, ha⟩ := ahead_word.1 ha
  obtain rfl := ahead_nil.1 (ahead_blank.1 ha)
  exact .mk (ht.trans hk) he (h (ahead_word.2 ⟨v, _, rfl, hv, rfl⟩))

/-- No keyword starts as a duration does. -/
theorem wordKind_duration (d : TimeSpan) :
    (∃ w, wordKind (.command .timeChart) d.text.toList = .word w) ∨
      ∃ x, wordKind (.command .timeChart) d.text.toList = .number x := by
  have hk : Segment.keyword? (.command .timeChart) (String.ofList d.text.toList) = none := by
    cases hk : Segment.keyword? (.command .timeChart) (String.ofList d.text.toList) with
    | none => rfl
    | some k =>
      have htext : k.text = d.text := by simpa using List.find?_some hk
      have hhead : ∃ c cs, k.text.toList = c :: cs ∧ c.isDigit = true := by
        rw [htext, d.toList_text]
        cases hd : Number.digitsOf d.amount.toNat with
        | nil => exact absurd hd (Number.digitsOf_ne_nil _)
        | cons c cs => exact ⟨c, _, rfl, Number.isDigit_of_mem_digitsOf (hd ▸ List.mem_cons_self ..)⟩
      obtain ⟨c, cs, hc, hdigit⟩ := hhead
      cases k <;> simp [Keyword.text] at hc <;> obtain ⟨rfl, -⟩ := hc <;>
        simp [Char.isDigit] at hdigit
  unfold wordKind
  simp only [hk]
  split
  · exact .inr ⟨_, rfl⟩
  · exact .inl ⟨_, rfl⟩

/-- A duration is written by the token of its text. -/
theorem TimeSpan.derives {d : TimeSpan} (h : d.amount ≠ 0)
    (ha : Ahead (.command .timeChart) [.word d.text] ts us) : WritesDuration ts d us := by
  obtain ⟨t, _, rfl, ⟨ht, htext⟩, rfl⟩ := ahead_word.1 ha
  refine .mk ?_ (htext ▸ d.ofText?_text h)
  rw [ht]
  exact wordKind_duration d

/-- A positive integer is written by the token of its digits. -/
theorem writesPositive_of_ahead {n : Nat} (h : ∃ x, Parser.positive? x = some n)
    (hs : s ≠ .opening) (ha : Ahead s [.word (toString n)] ts us) : WritesPositive ts n us := by
  obtain ⟨x, hx⟩ := h
  obtain ⟨hn, hp⟩ := positive?_reads_back hx
  obtain ⟨t, _, rfl, ⟨ht, -⟩, rfl⟩ := ahead_word.1 ha
  exact .mk (ht.trans (wordKind_numeral hs hn)) hp

/-- An option of a `timechart` stage, if it is set. -/
theorem chartOption_of_ahead {α : Type} {value : Option α} {k : Keyword}
    {Item : List Token → α → List Token → Prop} (text : α → String) (option : α → ChartOption)
    (hoption : ∀ {a ts us}, Setting k Item ts a us → WritesChartOption ts (option a) us)
    (hk : wordKind s k.text.toList = .keyword k)
    (h : ∀ a ∈ value, ∀ {ts us}, Ahead s [.word (text a)] ts us → Item ts a us)
    (ha : Ahead s (optionLayout k.text (value.map text)) ts us)
    {list : List ChartOption} (hrest : Repeated WritesChartOption us list vs) :
    Repeated WritesChartOption ts ((value.map option).toList ++ list) vs := by
  cases value with
  | none =>
    obtain rfl := ahead_nil.1 ha
    exact hrest
  | some a => exact .cons (hoption (setting_of_ahead hk (h a rfl) ha)) hrest

/-- The body of a well-formed chart is written by the tokens of its layout. -/
theorem writesChart_of_ahead [Regex.Library] {span : Option TimeSpan} {timeColumn : Option String}
    {maxGroups : Option Nat} {calls : List AggregateCall} {groupBy : List String}
    (h : (Stage.timeChart span timeColumn maxGroups calls groupBy).WellFormed)
    (ha : Ahead (.command .timeChart)
      (Stage.timeChart span timeColumn maxGroups calls groupBy).bodyLayout ts us) :
    WritesBody .timeChart ts (.timeChart span timeColumn maxGroups calls groupBy) us := by
  obtain ⟨hspan, htime, hgroups, hcalls⟩ := h
  obtain ⟨zs, ha, hag⟩ := ahead_append.1 ha
  obtain ⟨ys, ha, hmax⟩ := ahead_append.1 ha
  obtain ⟨xs, hdur, hcol⟩ := ahead_append.1 ha
  have hname : Ahead (.command .timeChart) (optionLayout "timeCol" (timeColumn.map id)) xs ys := by
    rw [Option.map_id]
    exact hcol
  have hoptions := chartOption_of_ahead TimeSpan.text .span .span (by decide)
    (fun d hd => TimeSpan.derives (hspan d hd)) hdur <|
    chartOption_of_ahead id .timeColumn .timeColumn (by decide)
      (fun n hn => writesName_of_ahead (htime n hn)) hname <|
    chartOption_of_ahead toString .maxGroups .maxGroups (by decide)
      (fun n hn => writesPositive_of_ahead (hgroups n hn) (by simp)) hmax .nil
  have hset := WritesBody.timeChart hoptions rfl
    (writesAggregations_of_ahead aggregates_timeChart hcalls hag)
  cases span <;> cases timeColumn <;> cases maxGroups <;> exact hset

/-- A stage whose numbers are finite. -/
def Stage.Finite : Stage → Prop
  | .filter condition => condition.Finite
  | .eval _ value => value.Finite
  | _ => True

/-- The tokens of a well-formed stage of finite numbers derive it. -/
theorem Stage.derives [Regex.Library] {e : Stage} (h : e.WellFormed) (hf : e.Finite)
    (ha : Ahead (.command e.command) e.bodyLayout ts us) : WritesBody e.command ts e us := by
  cases e with
  | table columns =>
    exact .table (separated_of_ahead h.1 (fun c hc => c.derives (h.2 c hc)) ha)
  | stats calls groupBy => exact .stats (writesAggregations_of_ahead aggregates_stats h ha)
  | regex field pattern =>
    obtain ⟨_, hfield, ha⟩ := ahead_append.1 ha
    obtain ⟨t, _, rfl, ht, rfl⟩ := Ahead.pattern ha
    refine .regex ?_ (.mk ht h.2)
    cases field with
    | none =>
      obtain rfl := ahead_nil.1 hfield
      exact .none
    | some name =>
      exact .some (setting_of_ahead (k := .field) (by decide)
        (writesName_of_ahead (h.1 name rfl)) hfield)
  | sort keys =>
    refine .sort (separated_of_ahead h.1 (fun k hk ts us ha => ?_) ha)
    obtain ⟨name, direction⟩ := k
    have hname := (h.2 _ hk).kind
    obtain ⟨t, _, rfl, ⟨ht, -⟩, ha⟩ := ahead_word.1 ha
    obtain ⟨d, _, rfl, ⟨hd, -⟩, rfl⟩ := ahead_word.1 (ahead_blank.1 ha)
    cases direction with
    | asc =>
      have hk : wordKind (.command .sort) "asc".toList = .keyword .asc := by decide
      exact .asc (.mk (ht.trans hname)) (hd.trans hk)
    | desc =>
      have hk : wordKind (.command .sort) "desc".toList = .keyword .desc := by decide
      exact .desc (.mk (ht.trans hname)) (hd.trans hk)
  | filter condition => exact .filter ((condition.derives rfl h hf ha).mono (Nat.zero_le _))
  | timeChart span timeColumn maxGroups calls groupBy => exact writesChart_of_ahead h ha
  | eval target value =>
    obtain ⟨t, _, rfl, ⟨ht, -⟩, ha⟩ := ahead_word.1 ha
    obtain ⟨q, _, rfl, ⟨hq, -⟩, ha⟩ := ahead_symbol.1 (ahead_blank.1 ha)
    exact .eval (.mk (ht.trans h.1.kind)) hq
      ((value.derives rfl h.2 hf (ahead_blank.1 ha)).mono (Nat.zero_le _))

/-! ## Queries -/

/-- Layouts with blanks between them are spelled one behind the other, each in the segment it is in. -/
theorem spellings_blankLayout (items : List Item) (layouts : List (List Item)) :
    spellings s (blankLayout (items :: layouts)) =
      spellings s items ++ spellings (segmentAfter s items) (blankLayout layouts) := by
  cases layouts with
  | nil => simp [blankLayout, spellings]
  | cons more layouts =>
    rw [blankLayout, spellings_append]
    · rfl
    · simp

/-- A stage is spelled as a pipe, its command and its body in the segment of the command. -/
theorem Stage.spellings_layout [Regex.Library] {e : Stage} (h : e.WellFormed) :
    spellings s e.layout = (.symbol .pipe, "|") :: (.command e.command, e.name) ::
      e.bodyLayout.filterMap (Item.spelling? (.command e.command)) := by
  have hname := after_command e.command
  have hkind : wordKind .opening e.name.toList = .command e.command := by
    rw [e.name_eq]
    cases e.command <;> decide
  rw [← e.name_eq] at hname
  rw [← (Stage.inner h).spellings (by simp), ← hname]
  simp [Stage.layout, spellings, Item.spelling?, Item.kind?, Item.after, hkind, Segment.after,
    Symbol.text]

/-- Tokens that are spelled like stages write them. -/
theorem writesStages_of_spellings [Regex.Library] {stages : List Stage}
    (h : ∀ e ∈ stages, e.WellFormed) (hf : ∀ e ∈ stages, e.Finite)
    (hts : ts.map Token.spelling = spellings s (blankLayout (stages.map Stage.layout))) :
    WritesStages ts stages := by
  induction stages generalizing s ts with
  | nil =>
    obtain rfl : ts = [] := by simpa [blankLayout, spellings] using hts
    exact .nil
  | cons e stages ih =>
    rw [List.forall_mem_cons] at h hf
    rw [List.map_cons, spellings_blankLayout, Stage.spellings_layout h.1] at hts
    obtain ⟨pipe, xs, rfl, hpipe, hts⟩ := List.map_eq_cons_iff.1 hts
    obtain ⟨t, ys, rfl, ht, hts⟩ := List.map_eq_cons_iff.1 hts
    obtain ⟨body, us, rfl, hbody, hus⟩ := List.map_eq_append_iff.1 hts
    have hstage : WritesStage (t :: body) e [] := by
      refine .mk (Prod.mk.inj ht).1 (e.derives h.1 hf.1 ?_)
      simpa using ahead_of_spelling [] hbody
    exact .cons (Prod.mk.inj hpipe).1 hstage (ih h.2 hf.2 hus)

/-- Tokens that are spelled like pre-filters write them, and the others are spelled like what
follows. -/
theorem writesFilters_of_spellings {filters : List PreFilter} {more : List (List Item)}
    (h : ∀ f ∈ filters, IsName .search f.key)
    (hts : ts.map Token.spelling =
      spellings .search (blankLayout (filters.map PreFilter.layout ++ more))) :
    ∃ xs us, ts = xs ++ us ∧ (∀ vs, Repeated WritesPreFilter (xs ++ vs) filters vs) ∧
      us.map Token.spelling = spellings .search (blankLayout more) := by
  induction filters generalizing ts with
  | nil => exact ⟨[], ts, rfl, fun _ => .nil, hts⟩
  | cons f filters ih =>
    rw [List.forall_mem_cons] at h
    rw [List.map_cons, List.cons_append, spellings_blankLayout, f.inner.spellings (by simp),
      f.inner.segmentAfter (by simp)] at hts
    obtain ⟨ws, ys, rfl, hws, hys⟩ := List.map_eq_append_iff.1 hts
    obtain ⟨xs, us, rfl, hrest, hus⟩ := ih h.2 hys
    refine ⟨ws ++ xs, us, by rw [List.append_assoc], fun vs => ?_, hus⟩
    rw [List.append_assoc]
    exact .cons (f.derives h.1 (ahead_of_spelling _ hws)) (hrest vs)

/-- The tokens of a well-formed query of finite numbers derive it. -/
theorem Query.derives [Regex.Library] {q : Query} (h : q.WellFormed)
    (hf : ∀ e ∈ q.pipeline, e.Finite)
    (hts : ts.map Token.spelling = spellings .search q.layout) : WritesQuery ts q := by
  obtain ⟨filters, search, stages⟩ := q
  obtain ⟨hfilters, hsearch, hstages⟩ := h
  rw [Query.layout, List.append_assoc] at hts
  obtain ⟨xs, us, rfl, hxs, hus⟩ := writesFilters_of_spellings hfilters hts
  cases search with
  | none => exact .mk (.mk (by simpa using hxs []) .none) (writesStages_of_spellings hstages hf hus)
  | some e =>
    simp only [Option.toList_some, List.map_cons, List.map_nil, List.singleton_append] at hus
    rw [spellings_blankLayout, e.inner.spellings (by simp), e.inner.segmentAfter (by simp)] at hus
    obtain ⟨ys, zs, rfl, hys, hzs⟩ := List.map_eq_append_iff.1 hus
    have hsearch' : WritesSearch ys e [] := by
      refine e.derives (hsearch e rfl) ?_
      simpa using ahead_of_spelling [] hys
    rw [← List.append_assoc]
    exact .mk (.mk (hxs ys) (.some hsearch')) (writesStages_of_spellings hstages hf hzs)

end LogSearch
