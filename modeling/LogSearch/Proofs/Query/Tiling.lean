import Mathlib.Data.String.Basic
import LogSearch.Proofs.Query.Layout
import LogSearch.Proofs.Query.Lexemes

/-!
# Lexemes tile the text

Positions are counted in bytes while the lexer goes from character to character. Its tokens, its
faults, and the white space and comments that it passes over share out the bytes of the text.

* `Span.Holds`: a span from one boundary of characters to another, and the text between them.
* `countP_lexemes`: every byte lies in the span of exactly one lexeme.
* `FaultAt`, `BlankAt`, `CommentAt`: what a span holds that is no token.
* `tokenize_tiles`: the tokens and faults of a text, together with blanks and comments, tile it.
-/

namespace LogSearch.Query

open Text (isBlank byteLength)

/-! ## Spans of a text -/

/-- Bytes are counted as in core. -/
theorem byteLength_eq_utf8Len (cs : List Char) : byteLength cs = String.utf8Len cs := by
  induction cs with
  | nil => rfl
  | cons c cs ih => rw [Text.byteLength_cons, String.utf8Len_cons, ih, Nat.add_comm]

/-- A text has as many bytes as its characters. -/
theorem byteLength_toList (text : String) : byteLength text.toList = text.utf8ByteSize := by
  rw [byteLength_eq_utf8Len, String.utf8Len_toList]

/-- A text that is not empty has bytes. -/
theorem byteLength_pos {cs : List Char} (h : cs ≠ []) : 0 < byteLength cs := by
  cases cs with
  | nil => exact absurd rfl h
  | cons c cs => exact Nat.lt_of_lt_of_le c.utf8Size_pos (Nat.le_add_right ..)

/-- A span goes from one boundary of characters of a text to another, with `part` between them. -/
structure Span.Holds (s : Span) (text part : String) : Prop where
  start_valid : (⟨s.start⟩ : String.Pos.Raw).IsValid text
  stop_valid : (⟨s.stop⟩ : String.Pos.Raw).IsValid text
  slice : String.Pos.Raw.extract text ⟨s.start⟩ ⟨s.stop⟩ = part

/-- Whether a byte lies in a span. -/
def Span.covers (s : Span) (b : Nat) : Bool := s.start ≤ b && b < s.stop

/-- A span starts before another, and ends at the latest where that starts. -/
structure Span.Before (s u : Span) : Prop where
  start_lt : s.start < u.start
  stop_le : s.stop ≤ u.start

/-- A byte is in a span from its start on and before its end. -/
theorem Span.covers_iff {s : Span} {b : Nat} : s.covers b = true ↔ s.start ≤ b ∧ b < s.stop := by
  simp [Span.covers]

/-- Between two parts of a text there is a boundary of characters. -/
theorem isValid_of_append {text : String} {before behind : List Char}
    (h : text.toList = before ++ behind) :
    (⟨byteLength before⟩ : String.Pos.Raw).IsValid text := by
  refine String.Pos.Raw.isValid_iff_exists_append.2
    ⟨String.ofList before, String.ofList behind, ?_, ?_⟩
  · rw [← String.ofList_append, ← h, String.ofList_toList]
  · rw [String.rawEndPos_ofList, byteLength_eq_utf8Len]

/-- Characters between others hold the span between their byte positions. -/
theorem Span.holds {text : String} {before part behind : List Char}
    (h : text.toList = before ++ part ++ behind) :
    (⟨byteLength before, byteLength before + byteLength part⟩ : Span).Holds text
      (String.ofList part) where
  start_valid := isValid_of_append (by rw [h, List.append_assoc])
  stop_valid := by
    rw [← Text.byteLength_append]
    exact isValid_of_append h
  slice := by
    have hslice := String.extract_of_valid before part behind
    rw [← h, String.ofList_toList] at hslice
    simpa only [byteLength_eq_utf8Len] using hslice

/-! ## Lexemes side by side -/

namespace Lexes

variable {p : Place} {start : Nat} {text : List Char} {l : Lexeme} {ls before behind : List Lexeme}

/-- A lexeme ends behind what is before it and itself. -/
theorem stop_eq (h : Lexes p start text (before ++ l :: behind)) :
    l.span = ⟨start + byteLength (texts before), start + byteLength (texts before ++ l.text)⟩ := by
  obtain ⟨rest, -, h⟩ := h.of_append
  obtain ⟨c, rest, n, -, hl, -⟩ := h.head
  rw [hl, Text.byteLength_append, ← Nat.add_assoc]
  rfl

/-- No lexeme starts before the text. -/
theorem start_le (h : Lexes p start text ls) : ∀ l ∈ ls, start ≤ l.span.start := by
  intro l hl
  obtain ⟨before, behind, rfl⟩ := List.append_of_mem hl
  rw [h.stop_eq]
  exact Nat.le_add_right ..

/-- No lexeme ends behind the text. -/
theorem stop_le (h : Lexes p start text ls) : ∀ l ∈ ls, l.span.stop ≤ start + byteLength text := by
  intro l hl
  obtain ⟨before, behind, rfl⟩ := List.append_of_mem hl
  rw [h.stop_eq, ← h.texts_eq]
  simp

/-- Every lexeme has a byte. -/
theorem start_lt (h : Lexes p start text ls) : ∀ l ∈ ls, l.span.start < l.span.stop := by
  intro l hl
  exact Nat.lt_add_of_pos_right (byteLength_pos (h.ne_nil l hl))

/-- Lexemes stand one after the other. -/
theorem pairwise (h : Lexes p start text ls) :
    ls.Pairwise fun l m => l.span.Before m.span := by
  induction h with
  | nil => exact .nil
  | @cons p start n c rest piece ls _ h ih =>
    refine .cons (fun m hm => ?_) ih
    have hpos : 0 < byteLength (c :: rest.take n) := byteLength_pos (by simp)
    have hle := h.start_le m hm
    constructor
    · show start < m.span.start
      omega
    · exact hle

/-- Lexemes share out the bytes of their text. -/
theorem countP_covers (h : Lexes p start text ls) (b : Nat) :
    (ls.map Lexeme.span).countP (fun s => s.covers b) =
      if start ≤ b ∧ b < start + byteLength text then 1 else 0 := by
  induction h with
  | nil =>
    rw [List.map_nil, List.countP_nil, Text.byteLength_nil, if_neg (by omega)]
  | @cons p start n c rest piece ls _ _ ih =>
    have hlen : byteLength (c :: rest) =
        byteLength (c :: rest.take n) + byteLength (rest.drop n) := by
      rw [← Text.byteLength_append, List.cons_append, List.take_append_drop]
    rw [List.map_cons, List.countP_cons, ih, hlen]
    simp only [Span.covers_iff, Lexeme.span]
    grind

end Lexes

/-- Every byte is in one lexeme. -/
theorem countP_lexemes (text : List Char) {b : Nat} (h : b < byteLength text) :
    ((lexemes text).map Lexeme.span).countP (fun s => s.covers b) = 1 := by
  rw [(lexes_lexemes text).countP_covers b, if_pos (by omega)]

/-- A lexeme of a text holds its span of the text. -/
theorem holds_of_lexemes {text : String} {before behind : List Lexeme} {l : Lexeme}
    (h : lexemes text.toList = before ++ l :: behind) :
    l.span.Holds text (String.ofList l.text) := by
  have hlex := h ▸ lexes_lexemes text.toList
  have htext : text.toList = texts before ++ l.text ++ texts behind := by
    rw [← hlex.texts_eq]
    simp
  have hspan := hlex.stop_eq
  rw [Nat.zero_add, Nat.zero_add, Text.byteLength_append] at hspan
  rw [hspan]
  exact Span.holds htext

/-! ## What a lexeme holds that is no token -/

/-- A span holds one blank. -/
def BlankAt (text : String) (s : Span) : Prop :=
  ∃ c, isBlank c = true ∧ s.Holds text (String.singleton c)

/-- A position at which nothing or a blank stands before. -/
def FreshAt (text : String) (position : Nat) : Prop :=
  position = 0 ∨ ∃ s, s.stop = position ∧ BlankAt text s

/-- A span holds a comment: two slashes after a blank or at the start of the text, and all up to the
end of the line, with the line break if there is one. -/
inductive CommentAt (text : String) (s : Span) : Prop
  | line {words : List Char} : FreshAt text s.start → '\n' ∉ words →
      s.Holds text (String.ofList ('/' :: '/' :: words ++ ['\n'])) → CommentAt text s
  | last {words : List Char} : FreshAt text s.start → '\n' ∉ words →
      s.Holds text (String.ofList ('/' :: '/' :: words)) → s.stop = text.utf8ByteSize →
      CommentAt text s

/-- A text in which every double quote stands behind a backslash of its own. -/
inductive Unclosed : List Char → Prop
  | nil : Unclosed []
  | backslash : Unclosed ['\\']
  | escape {c : Char} {rest : List Char} : Unclosed rest → Unclosed ('\\' :: c :: rest)
  | plain {c : Char} {rest : List Char} :
      c ≠ '"' → c ≠ '\\' → Unclosed rest → Unclosed (c :: rest)

/-- What a span holds that is at fault, after the tokens before it. -/
inductive FaultAt (text : String) (tokens : List Token) (s : Span) : LexFault → Prop
  /-- An ampersand that is not the first of two, where there are operators. -/
  | ampersand {c : Command} {before behind : List Char} : c.hasExpressions = true →
      Stands (tokens.filter fun t => t.span.stop ≤ s.start) (.command c) →
      text.toList = before ++ '&' :: behind → behind.head? ≠ some '&' →
      s = ⟨byteLength before, byteLength before + 1⟩ → FaultAt text tokens s .loneAmpersand
  /-- A quote that nothing closes. -/
  | quoted {rest : List Char} : s.Holds text (String.ofList ('"' :: rest)) →
      s.stop = text.utf8ByteSize → Unclosed rest → FaultAt text tokens s .unterminatedString
  /-- A backtick that nothing closes. -/
  | backtick {rest : List Char} : s.Holds text (String.ofList ('\x60' :: rest)) →
      s.stop = text.utf8ByteSize → '\x60' ∉ rest → FaultAt text tokens s .unterminatedBacktick

/-- A text in quotes that does not end has no quote of its own. -/
theorem unclosed_of_quotedText? {rest : List Char} (h : quotedText? rest = none) :
    Unclosed rest := by
  induction rest using quotedText?.induct with
  | case1 => exact .nil
  | case2 => simp [quotedText?] at h
  | case3 => exact .backslash
  | case4 c rest ih =>
    rw [quotedText?, Option.map_eq_none_iff] at h
    exact .escape (ih h)
  | case5 c rest hquote hend hslash ih =>
    have hc : c ≠ '\\' := by
      rintro rfl
      cases rest with
      | nil => exact hend rfl rfl
      | cons d rest => exact hslash d rest rfl rfl
    rw [quotedText?_plain hquote hc, Option.map_eq_none_iff] at h
    exact .plain hquote hc (ih h)

section

variable {text : String} {before behind : List Lexeme} {l : Lexeme}

/-- A lexeme that is all that is left ends with the text. -/
theorem stop_of_text_eq {part : List Char} (h : text.toList = texts before ++ part)
    (hl : l.start = byteLength (texts before)) (hpart : l.text = part) :
    l.span.stop = text.utf8ByteSize := by
  rw [← byteLength_toList, h, Text.byteLength_append, ← hl, ← hpart]
  rfl

/-- After lexemes the place is fresh only where a blank or nothing stands before. -/
theorem freshAt_of_fresh (h : lexemes text.toList = before ++ behind)
    (hf : (Place.initial.afterAll before).fresh = true) :
    FreshAt text (byteLength (texts before)) := by
  obtain ⟨rest, htext, -⟩ := (h ▸ lexes_lexemes text.toList).of_append
  have hne : ∀ l ∈ before, l.text ≠ [] := fun l hl =>
    (h ▸ lexes_lexemes text.toList).ne_nil l (List.mem_append_left _ hl)
  rw [fresh_afterAll hne] at hf
  rcases List.eq_nil_or_concat (texts before) with hnil | ⟨front, d, hd⟩
  · rw [hnil]
    exact .inl rfl
  · rw [List.concat_eq_append] at hd
    rw [hd] at htext hf ⊢
    have hblank : isBlank d = true := by simpa using hf
    refine .inr ⟨⟨byteLength front, byteLength front + byteLength [d]⟩, ?_, d, hblank, ?_⟩
    · exact (Text.byteLength_append front [d]).symm
    · rw [String.singleton_eq_ofList]
      exact Span.holds htext

/-- A blank is one blank. -/
theorem blankAt_of_lexemes (h : lexemes text.toList = before ++ l :: behind)
    (hp : l.piece = .blank) : BlankAt text l.span := by
  obtain ⟨c, rest, n, -, hl, hscan⟩ := scans_of_lexemes h
  have hholds := holds_of_lexemes h
  rw [hp] at hscan
  cases hscan with
  | blank hc =>
    refine ⟨c, hc, ?_⟩
    rw [String.singleton_eq_ofList]
    rwa [hl] at hholds ⊢

/-- A comment is the rest of a line that starts with two slashes. -/
theorem commentAt_of_lexemes (h : lexemes text.toList = before ++ l :: behind)
    (hp : l.piece = .comment) : CommentAt text l.span := by
  obtain ⟨c, rest, n, htext, hl, hscan⟩ := scans_of_lexemes h
  have hholds := holds_of_lexemes h
  have hstart : l.start = byteLength (texts before) := by rw [hl]
  have hpart : l.text = c :: rest.take n := by rw [hl]
  rw [hp] at hscan
  cases hscan with
  | comment hf ho =>
    have hfresh : FreshAt text l.span.start := by
      show FreshAt text l.start
      rw [hstart]
      exact freshAt_of_fresh h hf
    obtain ⟨rfl, hslash⟩ := opensComment_iff.1 ho
    obtain ⟨more, rfl⟩ : ∃ more, rest = '/' :: more := List.head?_eq_some_iff.1 hslash
    rw [hpart] at hholds
    rcases commentLength_spec ('/' :: more) with ⟨line, after, hline, hnot, hn⟩ | ⟨hnot, hn⟩
    · cases line with
      | nil => simp at hline
      | cons d words =>
        rw [List.cons_append] at hline
        obtain ⟨rfl, rfl⟩ := List.cons.inj hline
        have htake : (words ++ '\n' :: after).take (words.length + 1) = words ++ ['\n'] := by
          rw [List.append_cons, List.take_left' (by simp)]
        rw [hn, List.length_cons, List.take_succ_cons, htake] at hholds
        exact .line hfresh (fun hm => hnot (List.mem_cons_of_mem _ hm)) hholds
    · rw [hn, List.take_length] at hholds
      refine .last hfresh (fun hm => hnot (List.mem_cons_of_mem _ hm)) hholds ?_
      exact stop_of_text_eq htext hstart (by rw [hpart, hn, List.take_length])

end

/-! ## The tiles of a text -/

/-- The tokens of a text are those of its lexemes, and the end of input. -/
theorem tokens_tokenize (text : String) :
    (tokenize text).tokens = tokensOf (lexemes text.toList) ++
      [⟨.endOfInput, ⟨text.utf8ByteSize, text.utf8ByteSize⟩, ""⟩] := by
  rw [← byteLength_toList]
  rfl

/-- A token of a text is a lexeme among others. -/
theorem lexeme_of_mem_tokensOf {ls : List Lexeme} {t : Token} (h : t ∈ tokensOf ls) :
    ∃ before l behind, ls = before ++ l :: behind ∧ l.token? = some t := by
  obtain ⟨l, hl, ht⟩ := List.mem_filterMap.1 h
  obtain ⟨before, behind, rfl⟩ := List.append_of_mem hl
  exact ⟨before, l, behind, rfl, ht⟩

/-- The token of a lexeme has its kind, span and text. -/
theorem token?_eq_some {l : Lexeme} {t : Token} (h : l.token? = some t) :
    l.piece = .token t.kind ∧ t.span = l.span ∧ t.text = String.ofList l.text := by
  unfold Lexeme.token? at h
  split at h
  next hp =>
    obtain rfl := Option.some.inj h
    exact ⟨hp, rfl, rfl⟩
  next => simp at h

/-- The fault of a lexeme has its kind and span. -/
theorem fault?_eq_some {l : Lexeme} {f : LexFault × Span} (h : l.fault? = some f) :
    l.piece = .fault f.1 ∧ f.2 = l.span := by
  unfold Lexeme.fault? at h
  split at h
  next hp =>
    obtain rfl := Option.some.inj h
    exact ⟨hp, rfl⟩
  next => simp at h

/-- Tokens come one before the other, as their lexemes do. -/
theorem pairwise_tokensOf {ls : List Lexeme} (h : ls.Pairwise fun l m => l.span.Before m.span) :
    (tokensOf ls).Pairwise fun t u => t.span.Before u.span := by
  refine List.Pairwise.filterMap _ (fun l m hlm t ht u hu => ?_) h
  rw [(token?_eq_some ht).2.1, (token?_eq_some hu).2.1]
  exact hlm

/-- No token of a lexeme is an end of input. -/
theorem ne_endOfInput_of_mem_tokensOf {text : List Char} {t : Token}
    (h : t ∈ tokensOf (lexemes text)) : t.kind ≠ .endOfInput := by
  obtain ⟨l, hl, ht⟩ := List.mem_filterMap.1 h
  obtain ⟨hp, -⟩ := token?_eq_some ht
  intro hend
  exact mem_lexemesFrom_ne_endOfInput hl (by rw [hp, hend])

/-- Every token of a text has a byte. -/
theorem start_lt_of_mem_tokensOf {text : List Char} {t : Token} (h : t ∈ tokensOf (lexemes text)) :
    t.span.start < t.span.stop := by
  obtain ⟨l, hl, ht⟩ := List.mem_filterMap.1 h
  rw [(token?_eq_some ht).2.1]
  exact (lexes_lexemes text).start_lt l hl

/-- Tokens stand one after the other. -/
theorem pairwise_tokens_tokenize (text : String) :
    (tokenize text).tokens.Pairwise fun t u => t.span.Before u.span := by
  rw [tokens_tokenize]
  refine List.pairwise_append.2
    ⟨pairwise_tokensOf (lexes_lexemes text.toList).pairwise, List.pairwise_singleton _ _, ?_⟩
  intro t ht u hu
  have hlt := start_lt_of_mem_tokensOf ht
  obtain ⟨l, hl, ht⟩ := List.mem_filterMap.1 ht
  have hle := (lexes_lexemes text.toList).stop_le l hl
  rw [Nat.zero_add, byteLength_toList, ← (token?_eq_some ht).2.1] at hle
  rw [List.mem_singleton.1 hu]
  exact ⟨Nat.lt_of_lt_of_le hlt hle, hle⟩

/-- The tokens that end at a byte of a lexeme or before are those of the lexemes before it. -/
theorem filter_tokens_tokenize {text : String} {before behind : List Lexeme} {l : Lexeme} {p : Nat}
    (h : lexemes text.toList = before ++ l :: behind) (hstart : l.span.start ≤ p)
    (hstop : p < l.span.stop) :
    ((tokenize text).tokens.filter fun t => t.span.stop ≤ p) = tokensOf before := by
  have hlex := h ▸ lexes_lexemes text.toList
  have hpair := List.pairwise_append.1 hlex.pairwise
  have hle := hlex.stop_le
  rw [Nat.zero_add, byteLength_toList] at hle
  have hbefore : (tokensOf before).filter (fun t => t.span.stop ≤ p) = tokensOf before := by
    refine List.filter_eq_self.2 fun t ht => ?_
    obtain ⟨m, hm, ht⟩ := List.mem_filterMap.1 ht
    rw [(token?_eq_some ht).2.1]
    exact decide_eq_true (Nat.le_trans (hpair.2.2 m hm l List.mem_cons_self).stop_le hstart)
  have hbehind : ∀ m ∈ l :: behind, p < m.span.stop := by
    intro m hm
    rcases List.mem_cons.1 hm with rfl | hm'
    · exact hstop
    · have hm₁ := (List.rel_of_pairwise_cons hpair.2.1 hm').stop_le
      have hm₂ := hlex.start_lt m (by simp [hm'])
      omega
  have hrest : (tokensOf (l :: behind) ++
      [(⟨.endOfInput, ⟨text.utf8ByteSize, text.utf8ByteSize⟩, ""⟩ : Token)]).filter
        (fun t => t.span.stop ≤ p) = [] := by
    refine List.filter_eq_nil_iff.2 fun t ht => ?_
    rw [decide_eq_true_eq, Nat.not_le]
    rcases List.mem_append.1 ht with ht | ht
    · obtain ⟨m, hm, ht⟩ := List.mem_filterMap.1 ht
      rw [(token?_eq_some ht).2.1]
      exact hbehind m hm
    · rw [List.mem_singleton.1 ht]
      exact Nat.lt_of_lt_of_le hstop (hle l (by simp))
  rw [tokens_tokenize, h, tokensOf_append, List.append_assoc, List.filter_append, hbefore, hrest,
    List.append_nil]

/-- Operators exist in the segments of some commands. -/
theorem exists_command_of_hasOperators {s : Segment} (h : s.hasOperators = true) :
    ∃ c, s = .command c ∧ c.hasExpressions = true := by
  cases s with
  | command c => exact ⟨c, rfl, h⟩
  | _ => simp [Segment.hasOperators] at h

/-- A fault is a lone ampersand among operators, or a quote or a backtick that nothing closes. -/
theorem faultAt_of_lexemes {text : String} {before behind : List Lexeme} {l : Lexeme} {f : LexFault}
    (h : lexemes text.toList = before ++ l :: behind) (hp : l.piece = .fault f) :
    FaultAt text (tokenize text).tokens l.span f := by
  obtain ⟨c, rest, n, htext, hl, hscan⟩ := scans_of_lexemes h
  have hholds := holds_of_lexemes h
  have hstart : l.start = byteLength (texts before) := by rw [hl]
  have hpart : l.text = c :: rest.take n := by rw [hl]
  rw [hp] at hscan
  cases hscan with
  | fault hf =>
    cases hf with
    | ampersand hc hnext hops =>
      subst hc
      obtain ⟨k, hk, hexpr⟩ := exists_command_of_hasOperators hops
      refine .ampersand hexpr ?_ htext hnext ?_
      · have hlt := (h ▸ lexes_lexemes text.toList).start_lt l (by simp)
        rw [filter_tokens_tokenize h (Nat.le_refl _) hlt, ← hk]
        exact stands_afterAll before
      · rw [Lexeme.span, hstart, hpart]
        rfl
    | quoted hc hnone =>
      subst hc
      rw [List.take_length] at hpart
      rw [hpart] at hholds
      exact .quoted hholds (stop_of_text_eq htext hstart hpart) (unclosed_of_quotedText? hnone)
    | backtick hc hnot =>
      subst hc
      rw [List.take_length] at hpart
      rw [hpart] at hholds
      exact .backtick hholds (stop_of_text_eq htext hstart hpart) hnot

/-- The faults among lexemes. -/
def faultsOf (ls : List Lexeme) : List (LexFault × Span) := ls.filterMap Lexeme.fault?

/-- The spans of the lexemes that are one kind of piece. -/
def spansOf (piece : Piece) (ls : List Lexeme) : List Span :=
  (ls.filter fun l => l.piece = piece).map Lexeme.span

/-- A span of a kind of piece is that of a lexeme. -/
theorem mem_spansOf {piece : Piece} {ls : List Lexeme} {s : Span} (h : s ∈ spansOf piece ls) :
    ∃ before l behind, ls = before ++ l :: behind ∧ l.piece = piece ∧ s = l.span := by
  obtain ⟨l, hl, rfl⟩ := List.mem_map.1 h
  obtain ⟨hl, hp⟩ := List.mem_filter.1 hl
  obtain ⟨before, behind, rfl⟩ := List.append_of_mem hl
  exact ⟨before, l, behind, rfl, of_decide_eq_true hp, rfl⟩

/-- Every lexeme is a token, a fault, a blank or a comment. -/
theorem perm_spans (ls : List Lexeme) :
    ((tokensOf ls).map Token.span ++ (faultsOf ls).map Prod.snd ++ spansOf .blank ls ++
      spansOf .comment ls).Perm (ls.map Lexeme.span) := by
  induction ls with
  | nil => exact .nil
  | cons l ls ih =>
    rw [List.map_cons]
    obtain ⟨piece, start, text⟩ := l
    cases piece with
    | token => exact ih.cons _
    | fault => exact ((List.perm_middle.append_right _).append_right _).trans (ih.cons _)
    | blank => exact (List.perm_middle.append_right _).trans (ih.cons _)
    | comment => exact List.perm_middle.trans (ih.cons _)

/-- The tokens and the faults of a text tile it. -/
structure Tiled (text : String) (out : Tokens) : Prop where
  /-- The last token is the end of input at the end of the text; the others take bytes. -/
  ending : ∃ body, out.tokens =
      body ++ [⟨.endOfInput, ⟨text.utf8ByteSize, text.utf8ByteSize⟩, ""⟩] ∧
    ∀ t ∈ body, t.kind ≠ .endOfInput ∧ t.span.start < t.span.stop
  /-- Tokens stand one after the other. -/
  order : out.tokens.Pairwise fun t u => t.span.Before u.span
  /-- A token stands between boundaries of characters, and its text stands there. -/
  slices : ∀ t ∈ out.tokens, t.span.Holds text t.text
  /-- What is at fault is one of three things. -/
  faults : ∀ f ∈ out.faults, FaultAt text out.tokens f.2 f.1
  /-- Each byte is one of a token, of a fault, of a blank or of a comment. -/
  covered : ∃ blanks comments : List Span,
    (∀ s ∈ blanks, BlankAt text s) ∧ (∀ s ∈ comments, CommentAt text s) ∧
    ∀ b < text.utf8ByteSize, (out.tokens.map Token.span ++ out.faults.map Prod.snd ++ blanks ++
      comments).countP (fun s => s.covers b) = 1

/-- Tokens, faults, blanks and comments share out every text. -/
theorem tokenize_tiles (text : String) : Tiled text (tokenize text) where
  ending := by
    refine ⟨_, tokens_tokenize text, fun t ht => ?_⟩
    exact ⟨ne_endOfInput_of_mem_tokensOf ht, start_lt_of_mem_tokensOf ht⟩
  order := pairwise_tokens_tokenize text
  slices := by
    intro t ht
    rw [tokens_tokenize] at ht
    rcases List.mem_append.1 ht with ht | ht
    · obtain ⟨before, l, behind, hls, ht⟩ := lexeme_of_mem_tokensOf ht
      obtain ⟨-, hspan, htext⟩ := token?_eq_some ht
      rw [hspan, htext]
      exact holds_of_lexemes hls
    · have hend : text.toList = text.toList ++ [] ++ [] := by simp
      rw [List.mem_singleton.1 ht, ← byteLength_toList]
      exact Span.holds hend
  faults := by
    intro f hf
    obtain ⟨l, hl, hf⟩ := List.mem_filterMap.1 hf
    obtain ⟨before, behind, hls⟩ := List.append_of_mem hl
    obtain ⟨hp, hspan⟩ := fault?_eq_some hf
    rw [hspan]
    exact faultAt_of_lexemes hls hp
  covered := by
    refine ⟨spansOf .blank (lexemes text.toList), spansOf .comment (lexemes text.toList),
      fun s hs => ?_, fun s hs => ?_, fun b hb => ?_⟩
    · obtain ⟨before, l, behind, hls, hp, rfl⟩ := mem_spansOf hs
      exact blankAt_of_lexemes hls hp
    · obtain ⟨before, l, behind, hls, hp, rfl⟩ := mem_spansOf hs
      exact commentAt_of_lexemes hls hp
    · have hone := countP_lexemes text.toList (b := b) (by rwa [byteLength_toList])
      have hend : (⟨text.utf8ByteSize, text.utf8ByteSize⟩ : Span).covers b = false := by
        simp only [Span.covers, decide_eq_false (Nat.not_le.2 hb), Bool.false_and]
      rw [← (perm_spans _).countP_eq] at hone
      rw [tokens_tokenize, List.map_append]
      simp only [List.countP_append, List.map_cons, List.map_nil, List.countP_cons, hend,
        List.countP_nil] at hone ⊢
      exact hone

end LogSearch.Query
