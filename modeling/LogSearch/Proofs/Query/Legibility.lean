import LogSearch.Proofs.Query.Canonical
import LogSearch.Proofs.Query.Numeral

/-!
# Canonical texts are legible

* `LegibleIn`: a layout that stays in one segment is told from what follows each of its pieces.
* `Closed`: a text that ends the word before it.
* `Stage.legible`, `Search.legible`: the layouts of well-formed trees are legible.
-/

namespace LogSearch

open LogSearch.Query
open Text (isBlank)

namespace Query

variable {s : Segment} {rest : List Char}

/-! ## Layouts in one segment -/

/-- Each piece of a layout is told from what follows it, the segment being the same for all. -/
def LegibleIn (s : Segment) : List Item → List Char → Prop
  | [], _ => True
  | i :: items, rest => i.Legible s (chars items ++ rest) ∧ LegibleIn s items rest

/-- A layout without a pipe. -/
def Inner (items : List Item) : Prop := .symbol .pipe ∉ items

/-- Nothing can be told. -/
@[simp] theorem legibleIn_nil : LegibleIn s [] rest := trivial

/-- A layout can be told if its first piece can before the others, and the others can. -/
@[simp] theorem legibleIn_cons {i : Item} {items : List Item} :
    LegibleIn s (i :: items) rest ↔ i.Legible s (chars items ++ rest) ∧ LegibleIn s items rest :=
  Iff.rfl

/-- Two layouts can be told if the first can before the second, and the second can. -/
@[simp] theorem legibleIn_append {items more : List Item} :
    LegibleIn s (items ++ more) rest ↔
      LegibleIn s items (chars more ++ rest) ∧ LegibleIn s more rest := by
  induction items with
  | nil => simp
  | cons i items ih => simp [ih, and_assoc]

/-- Nothing holds no pipe. -/
@[simp] theorem inner_nil : Inner [] := by simp [Inner]

/-- A layout holds no pipe if its first piece is none and the others hold none. -/
@[simp] theorem inner_cons {i : Item} {items : List Item} :
    Inner (i :: items) ↔ i ≠ .symbol .pipe ∧ Inner items := by
  simp [Inner, eq_comm]

/-- Two layouts hold no pipe if neither does. -/
@[simp] theorem inner_append {items more : List Item} :
    Inner (items ++ more) ↔ Inner items ∧ Inner more := by simp [Inner]

/-- A token that is no pipe leaves the segment, once it is known. -/
theorem after_eq {k : TokenKind} (hs : s ≠ .opening) (hk : k ≠ .symbol .pipe) : s.after k = s := by
  unfold Segment.after
  split <;> simp_all

/-- A piece that is no pipe leaves the segment, once it is known. -/
theorem Item.after_eq {i : Item} (hs : s ≠ .opening) (hi : i ≠ .symbol .pipe) : i.after s = s := by
  cases i with
  | blank => rfl
  | word w => exact Query.after_eq hs wordKind_ne_symbol
  | symbol m => exact Query.after_eq hs (by simpa using hi)
  | quoted t => exact Query.after_eq (k := .quoted t) hs (by simp)
  | backtick t => exact Query.after_eq (k := .backtick t) hs (by simp)

/-- A layout without a pipe leaves the segment, once it is known. -/
theorem Inner.segmentAfter {items : List Item} (hs : s ≠ .opening) (h : Inner items) :
    segmentAfter s items = s := by
  induction items with
  | nil => rfl
  | cons i items ih =>
    rw [inner_cons] at h
    rw [Query.segmentAfter, List.foldl_cons, i.after_eq hs h.1]
    exact ih h.2

/-- A layout without a pipe is spelled in one segment. -/
theorem Inner.spellings {items : List Item} (hs : s ≠ .opening) (h : Inner items) :
    spellings s items = items.filterMap (Item.spelling? s) := by
  induction items with
  | nil => rfl
  | cons i items ih =>
    rw [inner_cons] at h
    rw [Query.spellings, i.after_eq hs h.1, ih h.2, List.filterMap_cons]
    cases i.spelling? s <;> rfl

/-- What can be told in one segment can be told. -/
theorem LegibleIn.legible {items : List Item} (hs : s ≠ .opening) (hi : Inner items)
    (h : LegibleIn s items rest) : Legible s items rest := by
  induction items with
  | nil => trivial
  | cons i items ih =>
    rw [inner_cons] at hi
    refine ⟨h.1, ?_⟩
    rw [i.after_eq hs hi.1]
    exact ih hi.2 h.2

/-! ## Words -/

/-- A text that ends the word before it, whatever the word is. -/
structure Closed (s : Segment) (rest : List Char) : Prop where
  length : wordLength s rest = 0
  head : rest.head? ≠ some '='

/-- A word can be told before what ends it. -/
theorem IsWord.legible {w : String} (h : IsWord s w.toList) (hr : Closed s rest) :
    (Item.word w).Legible s rest := ⟨h.ne_nil, h.append hr.length fun _ => hr.head⟩

/-- The end ends a word. -/
theorem closed_nil : Closed s [] := ⟨rfl, by simp⟩

/-- A blank or a parenthesis ends a word. -/
theorem closed_of_mark {c : Char} (h : c = ' ' ∨ c = '(' ∨ c = ')') : Closed s (c :: rest) := by
  have hc : continuesWord s c rest.head? = false ∧ c ≠ '=' := by
    rcases h with rfl | rfl | rfl
    · have hblank : isBlank ' ' = true := by decide
      simp [continuesWord, hblank]
    · simp [continuesWord]
    · simp [continuesWord]
  exact ⟨by simp [wordLength, hc.1], by simpa using hc.2⟩

/-- A blank ends a word. -/
theorem closed_blank : Closed s (' ' :: rest) := closed_of_mark (.inl rfl)

/-- A closing parenthesis ends a word. -/
theorem closed_rightParen : Closed s (')' :: rest) := closed_of_mark (.inr (.inr rfl))

/-- A comma ends a word behind the first pipe. -/
theorem closed_comma (hs : s ≠ .search) : Closed s (',' :: rest) := by
  have hc : continuesWord s ',' rest.head? = false := by simp [continuesWord, hs]
  exact ⟨by simp [wordLength, hc], by simp⟩

/-- A closing bracket ends a word where there are operators. -/
theorem closed_rightBracket (hs : s.hasOperators = true) : Closed s (']' :: rest) := by
  have hc : continuesWord s ']' rest.head? = false := by simp [continuesWord, hs]
  exact ⟨by simp [wordLength, hc], by simp⟩

/-! ## Symbols -/

/-- A symbol can be told where the lexer finds it, and no comment. -/
theorem legible_symbol {m : Symbol} (c : Char) (cs : List Char) (hm : m.text.toList = c :: cs)
    (h : symbol? s c (cs ++ rest).head? = some m) (hslash : c = '/' → rest.head? ≠ some '/') :
    (Item.symbol m).Legible s rest := by
  intro d ds hd
  rw [hm] at hd
  obtain ⟨rfl, rfl⟩ : c = d ∧ cs = ds := by simpa using hd
  exact ⟨h, hslash⟩

/-- An opening parenthesis can be told anywhere. -/
theorem legible_leftParen : (Item.symbol .leftParen).Legible s rest :=
  legible_symbol '(' [] rfl rfl (by simp)

/-- A closing parenthesis can be told anywhere. -/
theorem legible_rightParen : (Item.symbol .rightParen).Legible s rest :=
  legible_symbol ')' [] rfl rfl (by simp)

/-- An inequality sign can be told anywhere. -/
theorem legible_notEqual : (Item.symbol .notEqual).Legible s rest :=
  legible_symbol '!' ['='] rfl rfl (by simp)

/-- A comma can be told behind the first pipe. -/
theorem legible_comma (hs : s ≠ .search) : (Item.symbol .comma).Legible s rest :=
  legible_symbol ',' [] rfl (if_pos hs) (by simp)

/-- An equals sign can be told unless another one follows where there are operators. -/
theorem legible_equal (hr : s.hasOperators = true → rest.head? ≠ some '=') :
    (Item.symbol .equal).Legible s rest := by
  refine legible_symbol '=' [] rfl ?_ (by simp)
  cases hs : s.hasOperators with
  | false => simp [symbol?, hs]
  | true => simp [symbol?, hs, hr hs]

/-- A pipe can be told unless another one follows. -/
theorem legible_pipe (hr : rest.head? ≠ some '|') : (Item.symbol .pipe).Legible s rest :=
  legible_symbol '|' [] rfl (by simp [symbol?, hr]) (by simp)

/-- A negation can be told where there are operators, unless an equals sign follows. -/
theorem legible_bang (hs : s.hasOperators = true) (hr : rest.head? ≠ some '=') :
    (Item.symbol .bang).Legible s rest :=
  legible_symbol '!' [] rfl (by simp [symbol?, hs, hr]) (by simp)

/-- A minus can be told where there are operators. -/
theorem legible_minus (hs : s.hasOperators = true) : (Item.symbol .minus).Legible s rest :=
  legible_symbol '-' [] rfl (by simp [symbol?, hs]) (by simp)

/-- An opening bracket can be told where there are operators. -/
theorem legible_leftBracket (hs : s.hasOperators = true) :
    (Item.symbol .leftBracket).Legible s rest :=
  legible_symbol '[' [] rfl (by simp [symbol?, hs]) (by simp)

/-- A closing bracket can be told where there are operators. -/
theorem legible_rightBracket (hs : s.hasOperators = true) :
    (Item.symbol .rightBracket).Legible s rest :=
  legible_symbol ']' [] rfl (by simp [symbol?, hs]) (by simp)

/-- An operator before a blank. -/
theorem legible_operator (op : BinaryOp) (hs : s.hasOperators = true) :
    (Item.symbol op.symbol).Legible s (' ' :: rest) := by
  cases op with
  | add => exact legible_symbol '+' [] rfl (by simp [symbol?, hs, BinaryOp.symbol]) (by simp)
  | sub => exact legible_minus hs
  | mul => exact legible_symbol '*' [] rfl (by simp [symbol?, hs, BinaryOp.symbol]) (by simp)
  | div => exact legible_symbol '/' [] rfl (by simp [symbol?, hs, BinaryOp.symbol]) (by simp)
  | equal => exact legible_symbol '=' ['='] rfl (by simp [symbol?, hs, BinaryOp.symbol]) (by simp)
  | notEqual => exact legible_notEqual
  | greater => exact legible_symbol '>' [] rfl (by simp [symbol?, hs, BinaryOp.symbol]) (by simp)
  | greaterEqual =>
    exact legible_symbol '>' ['='] rfl (by simp [symbol?, hs, BinaryOp.symbol]) (by simp)
  | less => exact legible_symbol '<' [] rfl (by simp [symbol?, hs, BinaryOp.symbol]) (by simp)
  | lessEqual =>
    exact legible_symbol '<' ['='] rfl (by simp [symbol?, hs, BinaryOp.symbol]) (by simp)
  | and => exact legible_symbol '&' ['&'] rfl (by simp [symbol?, hs, BinaryOp.symbol]) (by simp)
  | or => exact legible_symbol '|' ['|'] rfl (by simp [symbol?, hs, BinaryOp.symbol]) (by simp)

/-! ## Texts and patterns -/

/-- A text in quotes can be told anywhere. -/
theorem legible_quoted {t : String} : (Item.quoted t).Legible s rest := trivial

/-- A pattern can be told anywhere. -/
theorem legible_patternItem (t : String) : (patternItem t).Legible s rest := by
  unfold patternItem
  split
  · trivial
  next h => simpa [Item.Legible] using h

/-- A pattern is no pipe. -/
theorem inner_patternItem (t : String) : patternItem t ≠ .symbol .pipe := by
  unfold patternItem
  split <;> simp

/-! ## Lists -/

/-- A layout in parentheses can be told, if the layout can before what ends it. -/
theorem legibleIn_wrap {items : List Item} (wrapped : Bool)
    (h : ∀ {rest}, Closed s rest → LegibleIn s items rest) (hr : Closed s rest) :
    LegibleIn s (wrap wrapped items) rest := by
  cases wrapped with
  | false => exact h hr
  | true =>
    simp only [wrap, if_true, List.cons_append, legibleIn_cons, legibleIn_append]
    exact ⟨legible_leftParen, h closed_rightParen, legible_rightParen, legibleIn_nil⟩

/-- Layouts with commas between them can be told, if each can before what ends it. -/
theorem legibleIn_commaLayout (hs : s ≠ .search) {layouts : List (List Item)}
    (h : ∀ items ∈ layouts, ∀ {rest}, Closed s rest → LegibleIn s items rest)
    (hr : Closed s rest) : LegibleIn s (commaLayout layouts) rest := by
  induction layouts with
  | nil => trivial
  | cons items layouts ih =>
    rw [List.forall_mem_cons] at h
    cases layouts with
    | nil => exact h.1 hr
    | cons more layouts =>
      rw [commaLayout, legibleIn_append]
      · exact ⟨h.1 (closed_comma hs), legible_comma hs, trivial, ih h.2⟩
      · simp

/-- Parentheses add no pipe. -/
theorem inner_wrap {items : List Item} (wrapped : Bool) (h : Inner items) :
    Inner (wrap wrapped items) := by
  cases wrapped <;> simp [wrap, h]

/-- Commas add no pipe. -/
theorem inner_commaLayout {layouts : List (List Item)} (h : ∀ items ∈ layouts, Inner items) :
    Inner (commaLayout layouts) := by
  induction layouts with
  | nil => exact inner_nil
  | cons items layouts ih =>
    rw [List.forall_mem_cons] at h
    cases layouts with
    | nil => exact h.1
    | cons more layouts =>
      rw [commaLayout, inner_append]
      · exact ⟨h.1, by simp [ih h.2]⟩
      · simp

/-! ## Starts of operands -/

/-- A text that starts, and not with an equals sign. -/
def StartsOperand (text : List Char) : Prop := ∃ c cs, text = c :: cs ∧ c ≠ '='

/-- What starts an operand does so whatever follows. -/
theorem StartsOperand.append {text : List Char} (h : StartsOperand text) (more : List Char) :
    StartsOperand (text ++ more) := by
  obtain ⟨c, cs, rfl, hc⟩ := h
  exact ⟨c, cs ++ more, rfl, hc⟩

/-- What starts an operand is no equals sign. -/
theorem StartsOperand.head {text : List Char} (h : StartsOperand text) : text.head? ≠ some '=' := by
  obtain ⟨c, cs, rfl, hc⟩ := h
  simpa using hc

/-- A word starts an operand. -/
theorem IsWord.startsOperand {w : List Char} (h : IsWord s w) : StartsOperand w := by
  obtain ⟨hw, hl⟩ := h
  cases w with
  | nil => exact absurd rfl hw
  | cons c w =>
    refine ⟨c, w, rfl, ?_⟩
    rintro rfl
    simp [wordLength, continuesWord] at hl

/-- Parentheses start an operand. -/
theorem startsOperand_wrap {items : List Item} (wrapped : Bool) (h : StartsOperand (chars items)) :
    StartsOperand (chars (wrap wrapped items)) := by
  cases wrapped with
  | false => exact h
  | true => exact ⟨'(', _, rfl, by simp⟩

end Query

variable {s : Segment} {rest : List Char}

/-! ## Head -/

/-- A pre-filter holds no pipe. -/
theorem PreFilter.inner (f : PreFilter) : Inner f.layout := by
  obtain ⟨key, op, value⟩ := f
  cases op <;> simp [PreFilter.layout, FilterOp.symbol, inner_patternItem]

/-- A pre-filter is legible unless its key takes an equals sign for part of an operator. -/
theorem PreFilter.legibleIn {f : PreFilter} (h : IsName .search f.key)
    (hbang : f.op = .equal → f.key.toList.getLast? ≠ some '!') :
    LegibleIn .search f.layout rest := by
  obtain ⟨key, op, value⟩ := f
  cases op with
  | equal =>
    refine ⟨⟨h.word.ne_nil, h.word.append ?_ fun hl => absurd hl (hbang rfl)⟩,
      legible_equal (by simp [Segment.hasOperators]), legible_patternItem value, trivial⟩
    simp [FilterOp.symbol, Symbol.text, wordLength, continuesWord]
  | notEqual =>
    refine ⟨⟨h.word.ne_nil, h.word.append ?_ fun _ => ?_⟩, legible_notEqual,
      legible_patternItem value, trivial⟩
    · simp [FilterOp.symbol, Symbol.text, wordLength, continuesWord]
    · simp [FilterOp.symbol, Symbol.text]

/-- A search holds no pipe. -/
theorem Search.inner (s : Search) : Inner s.layout := by
  induction s with
  | literal l => cases l <;> simp [Search.layout, SearchLiteral.item]
  | and l r hl hr => simp [Search.layout, inner_wrap _ hl, hr]
  | or l r hl hr => simp [Search.layout, inner_wrap _ hl, hr]

/-- A well-formed search can be told before what ends it. -/
theorem Search.legibleIn {e : Search} (h : e.WellFormed) (hr : Closed .search rest) :
    LegibleIn .search e.layout rest := by
  induction e generalizing rest with
  | literal l =>
    cases l with
    | term t => exact ⟨IsTerm.word h |>.legible hr, trivial⟩
    | phrase t => exact ⟨legible_quoted, trivial⟩
  | and l r hl hr' =>
    have hword : IsWord .search "AND".toList := isWord_plain (by simp) (by decide)
    simp only [Search.layout, legibleIn_append, legibleIn_cons]
    exact ⟨legibleIn_wrap _ (hl h.1) closed_blank, trivial, hword.legible closed_blank, trivial,
      hr' h.2 hr⟩
  | or l r hl hr' =>
    have hword : IsWord .search "OR".toList := isWord_plain (by simp) (by decide)
    simp only [Search.layout, legibleIn_append, legibleIn_cons]
    exact ⟨legibleIn_wrap _ (hl h.1) closed_blank, trivial, hword.legible closed_blank, trivial,
      hr' h.2 hr⟩

/-! ## Expressions -/

/-- A number is laid out as a word. -/
theorem numberLayout_eq {x : Float} (h : IsNumber x) :
    numberLayout x = [.word (Number.plainText x)] := by
  have hp := h.isPlain.2
  unfold numberLayout
  split
  next digits hd =>
    rw [hd] at hp
    rw [List.all_cons, Bool.and_eq_true] at hp
    exact absurd hp.1 (by decide)
  next => rfl

/-- A negative number is laid out as a minus and a word. -/
theorem numberLayout_neg {x : Float} (h : IsNumber x) :
    numberLayout (-x) = [.symbol .minus, .word (Number.plainText x)] := by
  unfold numberLayout
  rw [h.plainText_neg]
  simp

/-- The text of a number is a word. -/
theorem isWord_plainText {x : Float} (h : IsNumber x) : IsWord s (Number.plainText x).toList :=
  isWord_plain h.isPlain.1 h.isPlain.2

/-- A constant holds no pipe. -/
theorem Literal.inner {l : Literal} (h : l.WellFormedMember) : Inner l.layout := by
  cases l with
  | number x =>
    rcases h with h | ⟨y, h, rfl⟩
    · simp [Literal.layout, numberLayout_eq h]
    · simp [Literal.layout, numberLayout_neg h]
  | string t => simp [Literal.layout]
  | boolean b => simp [Literal.layout]
  | null => simp [Literal.layout]

/-- A constant can be told before what ends it. -/
theorem Literal.legibleIn {l : Literal} (h : l.WellFormedMember) (hs : s.hasOperators = true)
    (hr : Closed s rest) : LegibleIn s l.layout rest := by
  cases l with
  | number x =>
    rcases h with h | ⟨y, h, rfl⟩
    · rw [Literal.layout, numberLayout_eq h]
      exact ⟨(isWord_plainText h).legible hr, trivial⟩
    · rw [Literal.layout, numberLayout_neg h]
      exact ⟨legible_minus hs, (isWord_plainText h).legible hr, trivial⟩
  | string t => exact ⟨legible_quoted, trivial⟩
  | boolean b =>
    have hword : IsWord s (if b then "true" else "false").toList := by
      cases b <;> exact isWord_plain (by simp) (by decide)
    exact ⟨hword.legible hr, trivial⟩
  | null =>
    have hword : IsWord s "null".toList := isWord_plain (by simp) (by decide)
    exact ⟨hword.legible hr, trivial⟩

/-- A well-formed constant is one of lists as well. -/
theorem Literal.WellFormed.member {l : Literal} (h : l.WellFormed) : l.WellFormedMember := by
  cases l with
  | number x => exact .inl h
  | _ => trivial

/-- The name of a function is a word. -/
theorem Function.isWord (f : Function) : IsWord s f.name.toList := by
  cases f <;> exact isWord_plain (by simp [Function.name]) (by decide)

/-- A constant starts an operand. -/
theorem Literal.startsOperand {l : Literal} (h : l.WellFormed) : StartsOperand (chars l.layout) := by
  cases l with
  | number x =>
    rw [Literal.layout, numberLayout_eq h]
    exact (isWord_plainText (s := .search) h).startsOperand.append _
  | string t => exact ⟨'"', _, rfl, by simp⟩
  | boolean b => cases b <;> exact ⟨_, _, rfl, by decide⟩
  | null => exact ⟨_, _, rfl, by decide⟩

/-- An expression starts an operand. -/
theorem Expr.startsOperand [Regex.Library] : (e : Expr) → e.WellFormed s → StartsOperand
    (chars e.layout)
  | .literal l, h => by
    rw [Expr.layout]
    exact l.startsOperand h
  | .column name, h => by
    rw [Expr.layout]
    exact (IsName.word h).startsOperand.append _
  | .not e, _ => by
    rw [Expr.layout]
    exact ⟨'!', _, rfl, by simp⟩
  | .negate e, _ => by
    rw [Expr.layout]
    exact ⟨'-', _, rfl, by simp⟩
  | .binary op l r, h => by
    rw [Expr.layout, chars_append]
    exact (startsOperand_wrap _ (l.startsOperand h.1)).append _
  | .member e list, h => by
    rw [Expr.layout, List.append_assoc, chars_append]
    exact (startsOperand_wrap _ (e.startsOperand h.1)).append _
  | .call f args, _ => by
    rw [Expr.layout, List.cons_append, chars_cons]
    exact (f.isWord (s := .search)).startsOperand.append _

mutual
/-- An expression holds no pipe. -/
theorem Expr.inner [Regex.Library] : (e : Expr) → e.WellFormed s → Inner e.layout
  | .literal l, h => by
    rw [Expr.layout]
    exact l.inner h.member
  | .column name, _ => by simp [Expr.layout]
  | .not e, h => by simp [Expr.layout, inner_wrap _ (e.inner h)]
  | .negate e, h => by simp [Expr.layout, inner_wrap _ (e.inner h)]
  | .binary op l r, h => by
    have hop : op.symbol ≠ .pipe := by cases op <;> simp [BinaryOp.symbol]
    simp [Expr.layout, inner_wrap _ (l.inner h.1), inner_wrap _ (r.inner h.2), hop]
  | .member e list, h => by
    have hlist : Inner (commaLayout (list.map Literal.layout)) :=
      inner_commaLayout (by simpa using fun l hl => l.inner (h.2.2 l hl))
    simp [Expr.layout, inner_wrap _ (e.inner h.1), hlist]
  | .call f args, h => by
    simp [Expr.layout, inner_commaLayout (inner_arguments args h.2)]

/-- Arguments hold no pipe. -/
theorem inner_arguments [Regex.Library] : (args : List Expr) → WellFormedArguments s args →
    ∀ items ∈ argumentLayouts args, Inner items
  | [], _ => by simp [argumentLayouts]
  | e :: rest, h => by
    simpa [argumentLayouts] using ⟨e.inner h.1, inner_arguments rest h.2⟩
end

mutual
/-- An expression is legible before whatever ends a word. -/
theorem Expr.legibleIn [Regex.Library] (hs : s.hasOperators = true) : (e : Expr) → e.WellFormed s →
    ∀ {rest}, Closed s rest → LegibleIn s e.layout rest
  | .literal l, h, _, hr => by
    rw [Expr.layout]
    exact l.legibleIn h.member hs hr
  | .column name, h, _, hr => by
    rw [Expr.layout]
    exact ⟨(IsName.word h).legible hr, trivial⟩
  | .not e, h, _, hr => by
    rw [Expr.layout, legibleIn_cons]
    exact ⟨legible_bang hs ((startsOperand_wrap _ (e.startsOperand h)).append _).head,
      legibleIn_wrap _ (e.legibleIn hs h) hr⟩
  | .negate e, h, _, hr => by
    rw [Expr.layout, legibleIn_cons]
    exact ⟨legible_minus hs, legibleIn_wrap _ (e.legibleIn hs h) hr⟩
  | .binary op l r, h, _, hr => by
    simp only [Expr.layout, legibleIn_append, legibleIn_cons]
    exact ⟨legibleIn_wrap _ (l.legibleIn hs h.1) closed_blank, trivial, legible_operator op hs,
      trivial, legibleIn_wrap _ (r.legibleIn hs h.2) hr⟩
  | .member e list, h, _, hr => by
    have hsearch : s ≠ .search := by
      rintro rfl
      simp [Segment.hasOperators] at hs
    have hword : IsWord s "in".toList := isWord_plain (by simp) (by decide)
    have hlist : ∀ items ∈ list.map Literal.layout, ∀ {rest}, Closed s rest →
        LegibleIn s items rest := by
      simpa using fun l hl => l.legibleIn (h.2.2 l hl) hs
    simp only [Expr.layout, List.append_assoc, List.cons_append, legibleIn_append, legibleIn_cons]
    exact ⟨legibleIn_wrap _ (e.legibleIn hs h.1) closed_blank, trivial, hword.legible closed_blank,
      trivial, legible_leftBracket hs, legibleIn_commaLayout hsearch hlist (closed_rightBracket hs),
      legible_rightBracket hs, trivial⟩
  | .call f args, h, _, hr => by
    have hsearch : s ≠ .search := by
      rintro rfl
      simp [Segment.hasOperators] at hs
    simp only [Expr.layout, List.cons_append, legibleIn_append, legibleIn_cons]
    exact ⟨f.isWord.legible (closed_of_mark (.inr (.inl rfl))), legible_leftParen,
      legibleIn_commaLayout hsearch (legibleIn_arguments hs args h.2) closed_rightParen,
      legible_rightParen, trivial⟩

/-- Well-formed arguments can be told before what ends them. -/
theorem legibleIn_arguments [Regex.Library] (hs : s.hasOperators = true) : (args : List Expr) →
    WellFormedArguments s args →
    ∀ items ∈ argumentLayouts args, ∀ {rest}, Closed s rest → LegibleIn s items rest
  | [], _ => by simp [argumentLayouts]
  | e :: rest, h => by
    simpa [argumentLayouts] using ⟨e.legibleIn hs h.1, legibleIn_arguments hs rest h.2⟩
end

/-! ## Stages -/

/-- A new name, or none, ends the word before it if what follows does. -/
theorem closed_newNameLayout (name : Option String) (hr : Closed s rest) :
    Closed s (chars (newNameLayout name) ++ rest) := by
  cases name with
  | none => exact hr
  | some name => exact closed_blank

/-- A new name can be told before what ends it. -/
theorem legibleIn_newNameLayout {name : Option String} (h : ∀ n ∈ name, IsName s n)
    (hr : Closed s rest) : LegibleIn s (newNameLayout name) rest := by
  cases name with
  | none => trivial
  | some name =>
    have hword : IsWord s "as".toList := isWord_plain (by simp) (by decide)
    exact ⟨trivial, hword.legible closed_blank, trivial, (h name rfl).word.legible hr, trivial⟩

/-- A new name holds no pipe. -/
theorem inner_newNameLayout (name : Option String) : Inner (newNameLayout name) := by
  cases name <;> simp [newNameLayout]

/-- A column of a table can be told before what ends it. -/
theorem TableColumn.legibleIn {c : TableColumn} (h : c.WellFormed)
    (hr : Closed (.command .table) rest) : LegibleIn (.command .table) c.layout rest :=
  ⟨h.column.word.legible (closed_newNameLayout _ hr), legibleIn_newNameLayout h.newName hr⟩

/-- The name of an aggregation is a word. -/
theorem Aggregate.isWord (f : Aggregate) : IsWord s f.name.toList := by
  cases f <;> exact isWord_plain (by simp [Aggregate.name]) (by decide)

/-- An aggregation can be told before what ends it. -/
theorem AggregateCall.legibleIn {a : AggregateCall} (h : a.WellFormed s) (hr : Closed s rest) :
    LegibleIn s a.layout rest := by
  have hcolumn : LegibleIn s (a.column.toList.map .word)
      (chars (.symbol .rightParen :: newNameLayout a.newName) ++ rest) := by
    cases hc : a.column with
    | none => trivial
    | some name => exact ⟨(h.column name hc).word.legible closed_rightParen, trivial⟩
  simp only [AggregateCall.layout, List.cons_append, legibleIn_cons, legibleIn_append]
  exact ⟨a.function.isWord.legible (closed_of_mark (.inr (.inl rfl))), legible_leftParen, hcolumn,
    legible_rightParen, legibleIn_newNameLayout h.newName hr⟩

/-- An aggregation holds no pipe. -/
theorem AggregateCall.inner (a : AggregateCall) : Inner a.layout := by
  cases hc : a.column <;> simp [AggregateCall.layout, hc, inner_newNameLayout]

/-- Groups can be told before what ends them. -/
theorem legibleIn_groupLayout (hs : s ≠ .search) {groupBy : List String}
    (h : ∀ name ∈ groupBy, IsName s name) (hr : Closed s rest) :
    LegibleIn s (groupLayout groupBy) rest := by
  unfold groupLayout
  split
  · trivial
  · have hword : IsWord s "by".toList := isWord_plain (by simp) (by decide)
    refine ⟨trivial, hword.legible closed_blank, trivial, legibleIn_commaLayout hs ?_ hr⟩
    simpa using fun name hn {rest} (hr : Closed s rest) => (h name hn).word.legible hr

/-- Groups, or none, end the word before them if what follows does. -/
theorem closed_groupLayout (groupBy : List String) (hr : Closed s rest) :
    Closed s (chars (groupLayout groupBy) ++ rest) := by
  unfold groupLayout
  split
  · exact hr
  · exact closed_blank

/-- Aggregations and their groups can be told before what ends them. -/
theorem legibleIn_aggregationsLayout (hs : s ≠ .search) {calls : List AggregateCall}
    {groupBy : List String} (h : WellFormedAggregations s calls groupBy) (hr : Closed s rest) :
    LegibleIn s (aggregationsLayout calls groupBy) rest := by
  rw [aggregationsLayout, legibleIn_append]
  refine ⟨legibleIn_commaLayout hs ?_ (closed_groupLayout _ hr),
    legibleIn_groupLayout hs h.groupBy hr⟩
  simpa using fun a ha {rest} (hr : Closed s rest) => a.legibleIn (h.calls a ha) hr

/-- Aggregations and their groups hold no pipe. -/
theorem inner_aggregationsLayout (calls : List AggregateCall) (groupBy : List String) :
    Inner (aggregationsLayout calls groupBy) := by
  have hcalls : Inner (commaLayout (calls.map AggregateCall.layout)) :=
    inner_commaLayout (by simpa using fun a _ => a.inner)
  have hgroup : Inner (commaLayout (groupBy.map fun name => [.word name])) :=
    inner_commaLayout (by simp)
  unfold aggregationsLayout groupLayout
  split <;> simp [hcalls, hgroup]

/-- An option is legible where an equals sign is no operator. -/
theorem legibleIn_optionLayout (hs : s.hasOperators = false) {name : String} {value : Option String}
    (hn : name.toList.all isPlain = true) (hne : name.toList ≠ [])
    (h : ∀ v ∈ value, IsWord s v.toList) : LegibleIn s (optionLayout name value) rest := by
  cases value with
  | none => trivial
  | some v =>
    have hlast : name.toList.getLast? ≠ some '!' := fun hl => by
      have hplain := List.all_eq_true.1 hn '!' (List.mem_of_getLast? hl)
      exact absurd hplain (by decide)
    refine ⟨⟨hne, (isWord_plain hne hn).append ?_ fun hl => absurd hl hlast⟩,
      legible_equal (by simp [hs]), (h v rfl).legible closed_blank, trivial, trivial⟩
    simp [Symbol.text, wordLength, continuesWord]

/-- An option holds no pipe. -/
theorem inner_optionLayout (name : String) (value : Option String) :
    Inner (optionLayout name value) := by
  cases value <;> simp [optionLayout]

/-- The digits of a number are a word. -/
theorem isWord_toString (n : Nat) : IsWord s (toString n).toList := by
  refine isWord_plain ?_ (isPlain_toString n)
  rw [Number.toList_toString]
  exact Number.digitsOf_ne_nil n

/-- The text of a duration is a word. -/
theorem TimeSpan.isWord (d : TimeSpan) : IsWord s d.text.toList :=
  isWord_plain (by simp [d.toList_text]) d.isPlain_text

/-- The body of a stage holds no pipe. -/
theorem Stage.inner [Regex.Library] {e : Stage} (h : e.WellFormed) : Inner e.bodyLayout := by
  cases e with
  | table columns =>
    exact inner_commaLayout (by simp [TableColumn.layout, inner_newNameLayout])
  | stats calls groupBy => exact inner_aggregationsLayout calls groupBy
  | regex field pattern =>
    simp [Stage.bodyLayout, inner_optionLayout, inner_patternItem]
  | sort keys => exact inner_commaLayout (by simp [SortKey.layout])
  | filter condition => exact condition.inner h
  | timeChart span timeColumn maxGroups calls groupBy =>
    simp [Stage.bodyLayout, inner_optionLayout, inner_aggregationsLayout]
  | eval target value => simp [Stage.bodyLayout, value.inner h.2]

/-- The body of a stage is legible in the segment of its command. -/
theorem Stage.legibleIn [Regex.Library] {e : Stage} (h : e.WellFormed)
    (hr : Closed (.command e.command) rest) :
    LegibleIn (.command e.command) e.bodyLayout rest := by
  cases e with
  | table columns =>
    refine legibleIn_commaLayout (by simp) ?_ hr
    simpa using fun c hc {rest} (hr : Closed _ rest) => c.legibleIn (h.2 c hc) hr
  | stats calls groupBy => exact legibleIn_aggregationsLayout (by simp) h hr
  | regex field pattern =>
    rw [Stage.bodyLayout, legibleIn_append]
    exact ⟨legibleIn_optionLayout rfl (by decide) (by simp) fun v hv => (h.1 v hv).word,
      legible_patternItem pattern, trivial⟩
  | sort keys =>
    refine legibleIn_commaLayout (by simp) ?_ hr
    simp only [List.mem_map, forall_exists_index, and_imp, forall_apply_eq_imp_iff₂]
    intro k hk rest hr
    have hword : IsWord (.command .sort) k.direction.text.toList := by
      cases k.direction <;> exact isWord_plain (by simp [Direction.text]) (by decide)
    exact ⟨(h.2 k hk).word.legible closed_blank, trivial, hword.legible hr, trivial⟩
  | filter condition => exact condition.legibleIn rfl h hr
  | timeChart span timeColumn maxGroups calls groupBy =>
    obtain ⟨-, htime, -, hcalls⟩ := h
    have hspan : ∀ v ∈ span.map TimeSpan.text, IsWord (.command .timeChart) v.toList := by
      simpa using fun d _ => d.isWord
    have hgroups : ∀ v ∈ maxGroups.map toString, IsWord (.command .timeChart) v.toList := by
      simpa using fun n _ => isWord_toString n
    simp only [Stage.bodyLayout, legibleIn_append]
    exact ⟨⟨⟨legibleIn_optionLayout rfl (by decide) (by simp) hspan,
      legibleIn_optionLayout rfl (by decide) (by simp) fun v hv => (htime v hv).word⟩,
      legibleIn_optionLayout rfl (by decide) (by simp) hgroups⟩,
      legibleIn_aggregationsLayout (by simp) hcalls hr⟩
  | eval target value =>
    exact ⟨h.1.word.legible closed_blank, trivial, legible_equal (by simp), trivial,
      value.legibleIn rfl h.2 hr⟩

/-- The name of a command is a word. -/
theorem isWord_command (c : Command) : IsWord s c.name.toList := by
  cases c <;> exact isWord_plain (by simp [Command.name]) (by decide)

/-- Behind the name of a command starts its segment. -/
theorem after_command (c : Command) : Item.after .opening (.word c.name) = .command c := by
  cases c <;> decide

/-- A stage is named by its command. -/
theorem Stage.name_eq (e : Stage) : e.name = e.command.name := by cases e <;> rfl

/-- A stage with its pipe is legible after any segment. -/
theorem Stage.legible [Regex.Library] {e : Stage} (h : e.WellFormed) (hr : ∀ s, Closed s rest) :
    Legible s e.layout rest := by
  have hname := after_command e.command
  rw [← e.name_eq] at hname
  refine ⟨legible_pipe (by simp), trivial, ?_, ?_⟩
  · rw [e.name_eq]
    exact (isWord_command e.command).legible closed_blank
  · rw [show Item.blank.after (Item.after s (.symbol .pipe)) = .opening from rfl, hname]
    have hbody := (e.legibleIn h (hr _)).legible (by simp) (Stage.inner h)
    exact ⟨trivial, hbody⟩

/-! ## Queries -/

/-- Layouts with blanks between them can be told, if each can before what ends it. -/
theorem legible_blankLayout {layouts more : List (List Item)}
    (h : ∀ items ∈ layouts, Inner items ∧ ∀ rest, Closed s rest → LegibleIn s items rest)
    (hs : s ≠ .opening) (hr : Closed s rest) (hmore : Legible s (blankLayout more) rest) :
    Legible s (blankLayout (layouts ++ more)) rest := by
  induction layouts with
  | nil => exact hmore
  | cons items layouts ih =>
    rw [List.forall_mem_cons] at h
    obtain ⟨⟨hi, hl⟩, h⟩ := h
    cases hm : layouts ++ more with
    | nil => simpa [hm, blankLayout] using (hl rest hr).legible hs hi
    | cons next others =>
      rw [List.cons_append, hm, blankLayout, legible_append]
      · refine ⟨(hl _ closed_blank).legible hs hi, trivial, ?_⟩
        rw [hi.segmentAfter hs]
        rw [hm] at ih
        exact ih h
      · simp

/-- Well-formed stages can be told one behind the other. -/
theorem Stage.legible_pipeline [Regex.Library] {stages : List Stage}
    (h : ∀ e ∈ stages, e.WellFormed)
    (hr : ∀ s, Closed s rest) : Legible s (blankLayout (stages.map Stage.layout)) rest := by
  induction stages generalizing s with
  | nil => trivial
  | cons e stages ih =>
    rw [List.forall_mem_cons] at h
    cases stages with
    | nil => exact e.legible h.1 hr
    | cons next stages =>
      rw [List.map_cons, List.map_cons, blankLayout, legible_append]
      · exact ⟨e.legible h.1 fun _ => closed_blank, trivial, ih h.2⟩
      · simp

/-- The canonical text of a well-formed query is legible, unless an equals sign after a key that
ends in an exclamation mark makes an operator of both. -/
theorem Query.legible [Regex.Library] {q : Query} (h : q.WellFormed)
    (hbang : ∀ f ∈ q.preFilters, f.op = .equal → f.key.toList.getLast? ≠ some '!') :
    Legible .search q.layout [] := by
  have hhead : ∀ items ∈ q.preFilters.map PreFilter.layout ++ q.search.toList.map Search.layout,
      Inner items ∧ ∀ rest, Closed .search rest → LegibleIn .search items rest := by
    simp only [List.mem_append, List.mem_map, Option.mem_toList]
    rintro items (⟨f, hf, rfl⟩ | ⟨e, he, rfl⟩)
    · exact ⟨f.inner, fun rest _ => f.legibleIn (h.preFilters f hf) (hbang f hf)⟩
    · exact ⟨e.inner, fun rest hr => e.legibleIn (h.search e he) hr⟩
  exact legible_blankLayout hhead (by simp) closed_nil
    (Stage.legible_pipeline h.pipeline fun _ => closed_nil)

end LogSearch
