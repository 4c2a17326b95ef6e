import Mathlib.Data.List.TakeWhile
import LogSearch.Proofs.Query.Quoting
import LogSearch.Proofs.Query.Tiling

/-!
# What a word is

Whether a word is a command, a keyword, a number or a name is told by the tokens before it, and
which characters are operators is told by the segment.

* `IsWhole`: a whole word, which no character carries on at either end.
* `Means`: what a whole word is after some tokens.
* `starts_of_lexemes`: what stands before a word does not run into it.
* `isWord_of_whole`: a whole word that starts in a lexeme is that lexeme, quoted texts apart.
* `tokenize_classifies`: words are told apart by their spelling and their segment, and every whole
  word is a token.
-/

namespace LogSearch.Query

open Text (isBlank byteLength)

/-! ## Whole words -/

/-- A whole word of a segment between what stands before it and behind it: its characters continue
a word, and the characters next to it do not carry it on. -/
structure IsWhole (s : Segment) (front word back : List Char) : Prop where
  ne_nil : word ≠ []
  run : wordLength s (word ++ back) = word.length
  starts : ∀ d ∈ front.getLast?, continuesWord s d word.head? = false

/-- Digits, or digits, a point and digits. -/
inductive Numeral : List Char → Prop
  | whole {whole : List Char} : whole ≠ [] → (∀ c ∈ whole, Number.isDigit c = true) → Numeral whole
  | decimal {whole fraction : List Char} : whole ≠ [] → fraction ≠ [] →
      (∀ c ∈ whole, Number.isDigit c = true) → (∀ c ∈ fraction, Number.isDigit c = true) →
      Numeral (whole ++ '.' :: fraction)

/-- The segment after some tokens declares a word as a keyword. -/
def Declared (before : List Token) (word : String) : Prop :=
  ∃ s, Stands before s ∧ ∃ k ∈ s.keywords, k.text = word

/-- What a whole word is after some tokens. -/
inductive Means (before : List Token) (word : String) : TokenKind → Prop
  /-- The name of a command, right after a pipe. -/
  | command {c : Command} : Stands before .opening → c.name = word → Means before word (.command c)
  | keyword {s : Segment} {k : Keyword} : Stands before s → k ∈ s.keywords → k.text = word →
      Means before word (.keyword k)
  | number : ¬ Stands before .opening → ¬ Declared before word → Numeral word.toList →
      Means before word (.number (numeralValue word.toList))
  | name : (Stands before .opening → ∀ c : Command, c.name ≠ word) → ¬ Declared before word →
      (Numeral word.toList → Stands before .opening) → Means before word (.word word)

/-- The test of a numeral is that of digits, with a point and digits behind them if there is a
point. -/
theorem isNumeral_iff {w : List Char} : isNumeral w = true ↔ Numeral w := by
  constructor
  · intro h
    have hsplit := List.takeWhile_append_dropWhile (p := Number.isDigit) (l := w)
    have hwhole : ∀ c ∈ w.takeWhile Number.isDigit, Number.isDigit c = true :=
      List.all_eq_true.1 List.all_takeWhile
    unfold isNumeral at h
    simp only at h
    split at h
    next hrest =>
      rw [← hsplit, hrest, List.append_nil]
      exact .whole (by simpa using h) hwhole
    next fraction hrest =>
      simp only [Bool.and_eq_true, Bool.not_eq_true', List.isEmpty_eq_false_iff,
        List.all_eq_true] at h
      rw [← hsplit, hrest]
      exact .decimal h.1.1 h.1.2 hwhole h.2
    next => simp at h
  · rintro (⟨hne, hwhole⟩ | ⟨hne, hfraction, hwhole, hdigits⟩)
    · simp [isNumeral, List.takeWhile_eq_self_iff.2 hwhole, List.dropWhile_eq_nil_iff.2 hwhole, hne]
    · have hpoint : Number.isDigit '.' = false := by decide
      simp [isNumeral, List.takeWhile_append_of_pos hwhole, List.dropWhile_append_of_pos hwhole,
        hpoint, hne, hfraction, List.all_eq_true.2 hdigits]

/-- A command is known from its name. -/
theorem Command.name_inj {c d : Command} (h : c.name = d.name) : c = d := by
  cases c <;> cases d <;> first | rfl | simp [Command.name] at h

/-- A keyword is known from its text. -/
theorem Keyword.text_inj {k l : Keyword} (h : k.text = l.text) : k = l := by
  cases k <;> cases l <;> first | rfl | simp [Keyword.text] at h

/-- A command is found by its name. -/
theorem Command.ofName?_eq_some {word : String} {c : Command} :
    Command.ofName? word = some c ↔ c.name = word := by
  constructor
  · intro h
    simpa using List.find?_some h
  · rintro rfl
    cases c <;> decide

/-- A keyword is found by its text, in a segment that declares it. -/
theorem Segment.keyword?_eq_some {s : Segment} {word : String} {k : Keyword} :
    s.keyword? word = some k ↔ k ∈ s.keywords ∧ k.text = word := by
  constructor
  · intro h
    exact ⟨List.mem_of_find?_eq_some h, by simpa using List.find?_some h⟩
  · rintro ⟨hk, rfl⟩
    cases hf : s.keyword? k.text with
    | none => simpa using List.find?_eq_none.1 hf k hk
    | some l => rw [Keyword.text_inj (by simpa using List.find?_some hf : l.text = k.text)]

/-- A whole word means what the lexer makes of it. -/
theorem means_wordKind {before : List Token} {s : Segment} (h : Stands before s) (w : List Char) :
    Means before (String.ofList w) (wordKind s w) := by
  have hdeclared : s.keyword? (String.ofList w) = none → ¬ Declared before (String.ofList w) := by
    rintro hnone ⟨s', hs', k, hk, hw⟩
    obtain rfl := h.unique hs'
    rw [Segment.keyword?_eq_some.2 ⟨hk, hw⟩] at hnone
    simp at hnone
  by_cases hs : s = .opening
  · subst hs
    unfold wordKind
    dsimp only
    split
    next c hc => exact .command h (Command.ofName?_eq_some.1 hc)
    next hc =>
      refine .name (fun _ c hw => ?_) (hdeclared rfl) fun _ => h
      rw [Command.ofName?_eq_some.2 hw] at hc
      simp at hc
  · have hopening : ¬ Stands before .opening := fun ho => hs (h.unique ho)
    unfold wordKind
    dsimp only
    split
    next => exact absurd rfl hs
    split
    next k hk =>
      obtain ⟨hk, hw⟩ := Segment.keyword?_eq_some.1 hk
      exact .keyword h hk hw
    next hk =>
    split
    next hn =>
      have hnumeral : Numeral (String.ofList w).toList := by simpa using isNumeral_iff.1 hn
      simpa using Means.number hopening (hdeclared hk) hnumeral
    next hn =>
      refine .name (fun ho => absurd ho hopening) (hdeclared hk) fun hnumeral => absurd ?_ hn
      exact isNumeral_iff.2 (by simpa using hnumeral)

/-- A whole word means one thing. -/
theorem Means.unique {before : List Token} {word : String} {k l : TokenKind}
    (hk : Means before word k) (hl : Means before word l) : k = l := by
  have opening_keywords {s : Segment} {k : Keyword} (ho : Stands before .opening)
      (hs : Stands before s) (hk : k ∈ s.keywords) : False := by
    rw [hs.unique ho] at hk
    simp [Segment.keywords] at hk
  cases hk with
  | command ho hc => cases hl with
    | command _ hd => rw [Command.name_inj (hc.trans hd.symm)]
    | keyword hs hk _ => exact (opening_keywords ho hs hk).elim
    | number hno => exact absurd ho hno
    | name hno => exact absurd hc (hno ho _)
  | keyword hs hk hw => cases hl with
    | command ho => exact (opening_keywords ho hs hk).elim
    | keyword _ _ hw' => rw [Keyword.text_inj (hw.trans hw'.symm)]
    | number _ hno | name _ hno => exact absurd ⟨_, hs, _, hk, hw⟩ hno
  | number hno hnk hn => cases hl with
    | command ho => exact absurd ho hno
    | keyword hs hk hw => exact absurd ⟨_, hs, _, hk, hw⟩ hnk
    | number => rfl
    | name _ _ ho => exact absurd (ho hn) hno
  | name hno hnk hn => cases hl with
    | command ho hc => exact absurd hc (hno ho _)
    | keyword hs hk hw => exact absurd ⟨_, hs, _, hk, hw⟩ hnk
    | number hno' _ hn' => exact absurd (hn hn') hno'
    | name => rfl

/-! ## Words and their neighbours -/

/-- A mark that is in no word. -/
theorem continuesWord_mark {s : Segment} {d : Char} {next : Option Char}
    (hd : d ∈ "|()\"\x60=".toList) : continuesWord s d next = false := by
  simp only [continuesWord, List.contains_iff_mem.2 hd]
  simp

/-- Operators do not continue a word where there are expressions. -/
theorem continuesWord_operator {s : Segment} {d : Char} {next : Option Char}
    (hs : s.hasOperators = true) (hd : d ∈ "+-*/><&![]".toList) : continuesWord s d next = false := by
  simp only [continuesWord, List.contains_iff_mem.2 hd, hs]
  simp

/-- A comma continues a word before the first pipe only. -/
theorem continuesWord_comma {s : Segment} {next : Option Char} (hs : s ≠ .search) :
    continuesWord s ',' next = false := by
  simp [continuesWord, hs]

/-- A symbol that is no pipe leaves a segment with operators. -/
theorem Segment.after_symbol {s : Segment} (hs : s.hasOperators = true) {m : Symbol} (hm : m ≠ .pipe) :
    s.after (.symbol m) = s := by
  refine Segment.after_of_ne ?_ (by simpa using hm)
  rintro rfl
  simp [Segment.hasOperators] at hs

/-- Behind the first pipe every segment is one of a stage. -/
theorem Segment.after_ne_search {s : Segment} (hs : s ≠ .search) (k : TokenKind) :
    s.after k ≠ .search := by
  unfold Segment.after
  split
  · simp
  · split
    · simp
    · exact hs
  · split
    · simp
    · exact hs

/-- Whether a symbol is an operator of expressions. -/
def Symbol.isOperator : Symbol → Bool
  | plus | minus | star | slash | greater | greaterEqual | less | lessEqual | doubleEqual | andAnd
  | orOr | bang | leftBracket | rightBracket => true
  | pipe | leftParen | rightParen | comma | equal | notEqual => false

/-- Operators exist only where expressions do. -/
theorem hasOperators_of_symbol? {s : Segment} {c : Char} {next : Option Char} {m : Symbol}
    (h : symbol? s c next = some m) (hm : m.isOperator = true) : s.hasOperators = true := by
  cases ho : s.hasOperators with
  | true => rfl
  | false =>
    simp only [symbol?, ho, Bool.false_and, Bool.false_eq_true, if_false] at h
    split at h
    all_goals grind [Symbol.isOperator]

/-- Commas exist only after a pipe. -/
theorem ne_search_of_symbol? {s : Segment} {c : Char} {next : Option Char}
    (h : symbol? s c next = some .comma) : s ≠ .search := by
  rintro rfl
  simp only [symbol?, Segment.hasOperators, Bool.false_and] at h
  split at h
  all_goals grind

/-- The last character of a symbol is in no word of its segment or of the segment after it. -/
theorem not_continues_symbol {s s' : Segment} {c : Char} {next : Option Char} {m : Symbol}
    (h : symbol? s c next = some m) (hs : s' = s ∨ s' = s.after (.symbol m)) {d : Char}
    (hd : m.text.toList.getLast? = some d) (next' : Option Char) :
    continuesWord s' d next' = false := by
  have hops := hasOperators_of_symbol? h
  cases m with
  | comma =>
    have hne := ne_search_of_symbol? h
    obtain rfl : ',' = d := Option.some.inj hd
    apply continuesWord_comma
    rcases hs with rfl | rfl
    · exact hne
    · exact Segment.after_ne_search hne _
  | pipe | leftParen | rightParen | equal | notEqual | doubleEqual | greaterEqual | lessEqual | orOr =>
    obtain rfl := Option.some.inj hd
    exact continuesWord_mark (by decide)
  | plus | minus | star | slash | greater | less | andAnd | bang | leftBracket | rightBracket =>
    obtain rfl := Option.some.inj hd
    rw [Segment.after_symbol (hops rfl) (by simp), or_self] at hs
    rw [hs]
    exact continuesWord_operator (hops rfl) (by decide)

/-- A symbol is written as it is spelled. -/
theorem symbol?_text {s : Segment} {c : Char} {rest : List Char} {m : Symbol}
    (h : symbol? s c rest.head? = some m) :
    c :: rest.take (m.text.length - 1) = m.text.toList := by
  have two {d : Char} (hd : rest.head? = some d) : c :: rest.take 1 = [c, d] := by
    obtain ⟨more, rfl⟩ := List.head?_eq_some_iff.1 hd
    rfl
  simp only [symbol?, Bool.and_eq_true, decide_eq_true_eq] at h
  split at h
  all_goals repeat' split at h
  all_goals cases h
  all_goals first
    | rfl
    | exact two ‹_›
    | exact two (And.right ‹_›)

/-- Inside of a word its characters continue it. -/
theorem continuesWord_of_lt {s : Segment} {u more : List Char} {d : Char}
    (h : u.length < wordLength s (u ++ d :: more)) : continuesWord s d more.head? = true := by
  induction u with
  | nil =>
    rw [List.nil_append, wordLength] at h
    split at h
    next hc => exact hc
    next => simp at h
  | cons e u ih =>
    rw [List.cons_append, wordLength] at h
    split at h
    next => exact ih (by simpa using h)
    next => simp at h

/-- Behind a word no character continues it. -/
theorem not_continuesWord_of_eq {s : Segment} {u more : List Char} {d : Char}
    (h : wordLength s (u ++ d :: more) = u.length) : continuesWord s d more.head? = false := by
  induction u with
  | nil =>
    rw [List.nil_append, wordLength] at h
    split at h
    next => simp at h
    next hc => simpa using hc
  | cons e u ih =>
    rw [List.cons_append, wordLength] at h
    split at h
    next => exact ih (by simpa using h)
    next => simp at h

/-- What continues a word behind a token that is no pipe does so before it. -/
theorem continuesWord_of_after {s : Segment} {k : TokenKind} {c : Char} {next : Option Char}
    (hk : k ≠ .symbol .pipe) (h : continuesWord (s.after k) c next = true) :
    continuesWord s c next = true := by
  by_cases hs : s = .opening
  · subst hs
    have hne := Segment.after_ne_search (s := .opening) (by simp) k
    simp only [continuesWord, Bool.and_eq_true] at h ⊢
    refine ⟨⟨h.1.1, ?_⟩, rfl⟩
    simpa [hne] using h.1.2
  · rwa [Segment.after_of_ne hs hk] at h

/-- The last of some characters is the last one of their end. -/
theorem getLast?_of_take {c : Char} {rest front : List Char} {n : Nat} {e d : Char}
    (h : rest.take n = front ++ [e]) (hd : (c :: rest.take n).getLast? = some d) : d = e := by
  rw [h, ← List.cons_append, List.getLast?_concat] at hd
  exact (Option.some.inj hd).symm

/-- No scan ends in a character that runs into a word behind it. -/
theorem Scans.not_continues {p : Place} {c e d : Char} {rest more : List Char} {piece : Piece}
    {n : Nat} (hscan : Scans p e rest ⟨piece, n⟩) (hbehind : rest.drop n = c :: more)
    (hd : (e :: rest.take n).getLast? = some d)
    (hc : continuesWord (p.after piece (e :: rest.take n)).segment c more.head? = true) :
    continuesWord (p.after piece (e :: rest.take n)).segment d (some c) = false := by
  have hends : n ≠ rest.length := by
    rintro rfl
    simp at hbehind
  have blank_last {s : Segment} (hd : isBlank d = true) : continuesWord s d (some c) = false := by
    simp [continuesWord, hd]
  cases hscan with
  | blank hb =>
    obtain rfl : e = d := by simpa using hd
    exact blank_last hb
  | comment =>
    rcases commentLength_spec rest with ⟨line, behind, hrest, -, hn⟩ | ⟨-, hn⟩
    · have htake : rest.take (line.length + 1) = line ++ ['\n'] := by
        rw [hrest, List.append_cons, List.take_left' (by simp)]
      rw [hn] at hd
      obtain rfl := getLast?_of_take htake hd
      exact blank_last (by decide)
    · exact absurd hn hends
  | fault hf =>
    cases hf with
    | ampersand ha _ ho =>
      obtain rfl : e = d := by simpa using hd
      rw [ha]
      exact continuesWord_operator ho (by decide)
    | quoted | backtick => exact absurd rfl hends
  | word hw =>
    have hsplit := List.take_append_drop (wordLength p.segment rest) rest
    rw [hbehind] at hsplit
    have hlen : (rest.take (wordLength p.segment rest)).length = wordLength p.segment rest := by
      refine List.length_take_of_le (Nat.le_of_not_lt fun hlt => ?_)
      rw [List.drop_eq_nil_of_le (Nat.le_of_lt hlt)] at hbehind
      simp at hbehind
    have hrun : continuesWord p.segment c more.head? = false :=
      not_continuesWord_of_eq (by rw [hsplit, hlen])
    have hgoes := continuesWord_of_after wordKind_ne_symbol hc
    rw [hgoes] at hrun
    simp at hrun
  | symbol hs =>
    rw [symbol?_text hs] at hd
    exact not_continues_symbol hs (.inr rfl) hd _
  | quoted _ hq =>
    obtain ⟨-, -, -, before, hbefore⟩ := quotedText?_spec hq
    rw [getLast?_of_take hbefore hd]
    exact continuesWord_mark (by decide)
  | @backtick t behind _ _ hrest =>
    have htake : rest.take (t.length + 1) = t ++ ['\x60'] := by
      rw [hrest, List.append_cons, List.take_left' (by simp)]
    rw [getLast?_of_take htake hd]
    exact continuesWord_mark (by decide)

/-- What stands before a word does not run into it. -/
theorem starts_of_lexemes {text rest : List Char} {before behind : List Lexeme} {c : Char}
    (h : lexemes text = before ++ behind) (htext : text = texts before ++ c :: rest)
    (hc : continuesWord (Place.initial.afterAll before).segment c rest.head? = true) :
    ∀ d ∈ (texts before).getLast?,
      continuesWord (Place.initial.afterAll before).segment d (some c) = false := by
  intro d hd
  rcases List.eq_nil_or_concat before with rfl | ⟨front, m, rfl⟩
  · simp at hd
  rw [List.concat_eq_append] at h htext hc hd ⊢
  rw [List.append_assoc] at h
  obtain ⟨e, rest', n, htext', hm, hscan⟩ := scans_of_lexemes h
  have hpart : m.text = e :: rest'.take n := by rw [hm]
  have hbehind : rest'.drop n = c :: rest := by
    rw [htext', texts_append, List.append_assoc, List.append_cancel_left_eq, texts_cons, texts_nil,
      List.append_nil, hpart, List.cons_append, List.cons.injEq] at htext
    rw [← List.append_cancel_left_eq (rest'.take n), List.take_append_drop]
    exact htext.2
  have hd : (e :: rest'.take n).getLast? = some d := by
    rw [texts_append, texts_cons, texts_nil, List.append_nil, hpart,
      List.getLast?_append_of_ne_nil _ (by simp)] at hd
    exact hd
  rw [Place.afterAll_append, Place.afterAll_cons, Place.afterAll_nil, hpart] at hc ⊢
  exact hscan.not_continues hbehind hd hc

/-! ## Tokens -/

namespace TokenKind

/-- Whether a token is a word. -/
def isWord : TokenKind → Bool
  | word _ | number _ | command _ | keyword _ => true
  | _ => false

/-- Whether a token is a text between quotes or backticks. -/
def isQuoted : TokenKind → Bool
  | quoted _ | backtick _ => true
  | _ => false

end TokenKind

/-- The kind of a word is one of words. -/
theorem isWord_wordKind (s : Segment) (w : List Char) : (wordKind s w).isWord = true := by
  unfold wordKind
  dsimp only
  split
  · split <;> rfl
  · split
    · rfl
    · split <;> rfl

/-- What a token is, by the tokens before it. -/
structure Classified (text : String) (before : List Token) (t : Token) : Prop where
  /-- A word is a whole word of its segment. -/
  whole : t.kind.isWord = true → ∃ s front back, Stands before s ∧
    text.toList = front ++ t.text.toList ++ back ∧ t.span.start = byteLength front ∧
    IsWhole s front t.text.toList back
  /-- A word is what it means after the tokens before it, and nothing else. -/
  word : t.kind.isWord = true → ∀ kind, t.kind = kind ↔ Means before t.text kind
  /-- Operators stand only where there are expressions. -/
  operator : ∀ m, t.kind = .symbol m → m.isOperator = true →
    ∃ c : Command, c.hasExpressions = true ∧ Stands before (.command c)
  /-- Commas stand only after a pipe. -/
  comma : t.kind = .symbol .comma → ∃ u ∈ before, u.kind = .symbol .pipe

/-- A byte of a text between quotes, of a comment or of a fault. -/
def Inside (text : String) (out : Tokens) (position : Nat) : Prop :=
  (∃ t ∈ out.tokens, t.kind.isQuoted = true ∧ t.span.covers position = true) ∨
    (∃ s ∈ spansOf .comment (lexemes text.toList), s.covers position = true) ∨
    ∃ f ∈ out.faults, f.2.covers position = true

/-- Tokens tell the words of a text apart. -/
structure Classifies (text : String) (out : Tokens) : Prop where
  /-- Each token is what the tokens before it make of it. -/
  tokens : ∀ before t behind, out.tokens = before ++ t :: behind → Classified text before t
  /-- Each whole word is a token, unless it starts between quotes, in a comment or in a fault. -/
  words : ∀ s front word back, text.toList = front ++ word ++ back →
    Stands (out.tokens.filter fun t => t.span.stop ≤ byteLength front) s →
    IsWhole s front word back →
    (∃ t ∈ out.tokens, t.kind.isWord = true ∧ t.span.start = byteLength front ∧
      t.text = String.ofList word) ∨ Inside text out (byteLength front)

/-- A token is that of a piece, with the tokens of the pieces before it. -/
theorem exists_lexemes_of_tokens {ls : List Lexeme} {before behind : List Token} {t : Token}
    (h : tokensOf ls = before ++ t :: behind) :
    ∃ front l back, ls = front ++ l :: back ∧ tokensOf front = before ∧ l.token? = some t := by
  obtain ⟨front, rest, rfl, hfront, hrest⟩ := List.filterMap_eq_append_iff.1 h
  obtain ⟨more, l, back, rfl, hmore, hl, -⟩ := List.filterMap_eq_cons_iff.1 hrest
  refine ⟨front ++ more, l, back, by simp, ?_, hl⟩
  have hnone : tokensOf more = [] := List.filterMap_eq_nil_iff.2 hmore
  rw [tokensOf_append, hnone, List.append_nil]
  exact hfront

/-- Segments after a pipe have one. -/
theorem Stands.exists_pipe {before : List Token} {s : Segment} (h : Stands before s)
    (hs : s ≠ .search) : ∃ u ∈ before, u.kind = .symbol .pipe := by
  cases h with
  | search => exact absurd rfl hs
  | opening hp | command hp | unknown hp => exact ⟨_, by simp, hp⟩

/-- A lexeme that is a word is a whole word. -/
theorem isWhole_of_word {text rest : List Char} {before behind : List Lexeme} {c : Char} {s : Segment}
    (h : lexemes text = before ++ behind) (htext : text = texts before ++ c :: rest)
    (hs : (Place.initial.afterAll before).segment = s) (hc : continuesWord s c rest.head? = true) :
    IsWhole s (texts before) (c :: rest.take (wordLength s rest)) (rest.drop (wordLength s rest)) where
  ne_nil := by simp
  run := by
    rw [List.cons_append, List.take_append_drop, wordLength, if_pos hc, List.length_cons,
      List.length_take_of_le (wordLength_le _ _)]
  starts := by
    subst hs
    exact starts_of_lexemes h htext hc

/-- The token of a piece is classified by the tokens before it. -/
theorem classified_of_lexemes {text : String} {front back : List Lexeme} {l : Lexeme} {t : Token}
    (h : lexemes text.toList = front ++ l :: back) (ht : l.token? = some t) :
    Classified text (tokensOf front) t := by
  obtain ⟨c, rest, n, htext, hl, hscan⟩ := scans_of_lexemes h
  obtain ⟨hp, hspan, hword⟩ := token?_eq_some ht
  have hstands := stands_afterAll front
  have hpart : t.text.toList = c :: rest.take n := by rw [hword, hl, String.toList_ofList]
  have hstart : t.span.start = byteLength (texts front) := by
    rw [hspan, hl]
    rfl
  rw [hp] at hscan
  generalize hk : t.kind = kind at hscan
  cases hscan with
  | word hc =>
    refine ⟨fun _ => ?_, fun _ k => ?_, fun m hm => ?_, fun hm => ?_⟩
    · have hwhole := isWhole_of_word h htext rfl hc
      rw [← hpart] at hwhole
      refine ⟨_, _, _, hstands, ?_, hstart, hwhole⟩
      rw [hpart, htext, List.append_assoc, List.cons_append, List.take_append_drop]
    · have hmeans := means_wordKind hstands t.text.toList
      rw [String.ofList_toList, hpart] at hmeans
      rw [hk]
      constructor
      · rintro rfl
        exact hmeans
      · exact hmeans.unique
    · rw [hk] at hm
      exact absurd hm wordKind_ne_symbol
    · rw [hk] at hm
      exact absurd hm wordKind_ne_symbol
  | symbol hs =>
    refine ⟨fun hw => ?_, fun hw => ?_, fun m hm ho => ?_, fun hm => ?_⟩
    · simp [hk, TokenKind.isWord] at hw
    · simp [hk, TokenKind.isWord] at hw
    · obtain rfl : _ = m := TokenKind.symbol.inj (hk.symm.trans hm)
      obtain ⟨k, hseg, hexpr⟩ := exists_command_of_hasOperators (hasOperators_of_symbol? hs ho)
      exact ⟨k, hexpr, hseg ▸ hstands⟩
    · obtain rfl : _ = Symbol.comma := TokenKind.symbol.inj (hk.symm.trans hm)
      exact hstands.exists_pipe (ne_search_of_symbol? hs)
  | quoted | backtick =>
    refine ⟨fun hw => ?_, fun hw => ?_, fun m hm => ?_, fun hm => ?_⟩
    · simp [hk, TokenKind.isWord] at hw
    · simp [hk, TokenKind.isWord] at hw
    · exact absurd (hk.symm.trans hm) (by simp)
    · exact absurd (hk.symm.trans hm) (by simp)

/-- A character of a text stands in one of its pieces. -/
theorem exists_lexeme_at {ls : List Lexeme} {front back : List Char} {c : Char}
    (h : texts ls = front ++ c :: back) :
    ∃ before l behind u v, ls = before ++ l :: behind ∧ front = texts before ++ u ∧
      l.text = u ++ c :: v := by
  induction ls generalizing front with
  | nil => simp at h
  | cons l ls ih =>
    rw [texts_cons] at h
    rcases List.append_eq_append_iff.1 h with ⟨more, hfront, hls⟩ | ⟨more, hl, hmore⟩
    · obtain ⟨before, m, behind, u, v, rfl, rfl, hm⟩ := ih hls
      exact ⟨l :: before, m, behind, u, v, rfl, by rw [hfront]; simp, hm⟩
    · cases more with
      | nil =>
        obtain ⟨before, m, behind, u, v, rfl, hnil, hm⟩ := ih (show _ = [] ++ c :: back from hmore.symm)
        refine ⟨l :: before, m, behind, u, v, rfl, ?_, hm⟩
        rw [texts_cons, List.append_assoc, ← hnil, hl]
        simp
      | cons d more =>
        obtain ⟨rfl, -⟩ := List.cons.inj hmore
        exact ⟨[], l, ls, front, more, rfl, rfl, hl⟩

/-- The first character of a whole word continues a word. -/
theorem IsWhole.continues {s : Segment} {front ws back : List Char} {c : Char}
    (h : IsWhole s front (c :: ws) back) : continuesWord s c (ws ++ back).head? = true := by
  refine continuesWord_of_lt (u := []) ?_
  rw [List.nil_append, ← List.cons_append, h.run]
  simp

/-- A whole word that starts in a lexeme other than a text between quotes is that lexeme. -/
theorem isWord_of_whole {text front word back : List Char} {before behind : List Lexeme}
    {l : Lexeme} {u v : List Char} {c : Char} {kind : TokenKind} {s : Segment}
    (h : lexemes text = before ++ l :: behind) (htext : text = front ++ word ++ back)
    (hfront : front = texts before ++ u) (hl : l.text = u ++ c :: v) (hword : word.head? = some c)
    (hs : (Place.initial.afterAll before).segment = s) (hw : IsWhole s front word back)
    (hp : l.piece = .token kind) (hq : kind.isQuoted = false) :
    kind.isWord = true ∧ u = [] ∧ l.text = word := by
  obtain ⟨c₀, rest, n, htext', hl', hscan⟩ := scans_of_lexemes h
  have hpart : u ++ c :: v = c₀ :: rest.take n := by rw [← hl, hl']
  have hrest : c₀ :: rest = u ++ (word ++ back) := by
    rw [htext, hfront, List.append_assoc, List.append_assoc, List.append_cancel_left_eq] at htext'
    exact htext'.symm
  obtain ⟨ws, rfl⟩ : ∃ ws, word = c :: ws := List.head?_eq_some_iff.1 hword
  have hc := hw.continues
  rw [hp] at hscan
  cases hscan with
  | word hc₀ =>
    rw [hs] at hc₀ hpart ⊢
    have hrun : wordLength s (c₀ :: rest) = wordLength s rest + 1 := by rw [wordLength, if_pos hc₀]
    have hlen : (u ++ c :: v).length = wordLength s rest + 1 := by
      rw [hpart, List.length_cons, List.length_take_of_le (wordLength_le _ _)]
    refine ⟨isWord_wordKind _ _, ?_⟩
    rcases List.eq_nil_or_concat u with rfl | ⟨u, d, rfl⟩
    · refine ⟨rfl, ?_⟩
      rw [List.nil_append] at hrest hpart hlen
      have hn : (c :: ws).length = wordLength s rest + 1 := by rw [← hw.run, ← hrest, hrun]
      rw [hl, List.nil_append, hpart, ← List.take_succ_cons, hrest, ← hn, List.take_left]
    · rw [List.concat_eq_append] at hfront hrest hlen
      have hstarts := hw.starts d (by rw [hfront, ← List.append_assoc, List.getLast?_concat]; rfl)
      have hlt : continuesWord s d (c :: ws ++ back).head? = true := by
        refine continuesWord_of_lt (u := u) ?_
        rw [← List.singleton_append, ← List.append_assoc, ← hrest, hrun, ← hlen]
        simp
      rw [List.head?_cons] at hstarts
      rw [List.cons_append, List.head?_cons, hstarts] at hlt
      simp at hlt
  | @symbol m hm =>
    rw [hs] at hm
    cases u with
    | nil =>
      rw [List.nil_append, List.cons_append] at hrest
      obtain ⟨rfl, rfl⟩ := List.cons.inj hrest
      have hnone := symbol?_eq_none hc
      rw [hm] at hnone
      simp at hnone
    | cons d u =>
      rw [symbol?_text hm] at hpart
      have hlen : m.text.toList.length ≤ 2 := by cases m <;> decide
      rw [← hpart, List.length_append, List.length_cons, List.length_cons] at hlen
      obtain rfl : v = [] := List.length_eq_zero_iff.1 (by omega)
      have hlast : m.text.toList.getLast? = some c := by rw [← hpart, List.getLast?_concat]
      rw [not_continues_symbol hm (.inl rfl) hlast] at hc
      simp at hc
  | quoted | backtick => simp [TokenKind.isQuoted] at hq

/-- Words are told apart by their spelling and their segment, and every whole word is a token. -/
theorem tokenize_classifies (text : String) : Classifies text (tokenize text) where
  tokens := by
    intro before t behind h
    rw [tokens_tokenize] at h
    rcases List.eq_nil_or_concat behind with rfl | ⟨rest, last, rfl⟩
    · obtain ⟨-, hend⟩ := List.append_inj' h rfl
      obtain ⟨rfl, -⟩ := List.cons.inj hend
      refine ⟨fun hw => ?_, fun hw => ?_, fun m hm => ?_, fun hm => ?_⟩
      · simp [TokenKind.isWord] at hw
      · simp [TokenKind.isWord] at hw
      · exact absurd hm (by simp)
      · exact absurd hm (by simp)
    · rw [List.concat_eq_append, ← List.cons_append, ← List.append_assoc] at h
      obtain ⟨htokens, -⟩ := List.append_inj' h rfl
      obtain ⟨front, l, back, hls, rfl, ht⟩ := exists_lexemes_of_tokens htokens
      exact classified_of_lexemes hls ht
  words := by
    intro s front word back htext hs hw
    obtain ⟨c, ws, hcons⟩ := List.exists_cons_of_ne_nil hw.ne_nil
    have htexts : texts (lexemes text.toList) = front ++ c :: (ws ++ back) := by
      rw [(lexes_lexemes _).texts_eq, htext, hcons]
      simp
    obtain ⟨before, l, behind, u, v, hls, hfront, hl⟩ := exists_lexeme_at htexts
    have hspan := (hls ▸ lexes_lexemes text.toList).stop_eq
    rw [Nat.zero_add, Nat.zero_add, hl, ← List.append_assoc, ← hfront] at hspan
    have hstart : l.span.start ≤ byteLength front := by simp [hspan, hfront]
    have hstop : byteLength front < l.span.stop := by
      rw [hspan, Text.byteLength_append]
      exact Nat.lt_add_of_pos_right (byteLength_pos (by simp))
    have hcovers : l.span.covers (byteLength front) = true := Span.covers_iff.2 ⟨hstart, hstop⟩
    rw [filter_tokens_tokenize hls hstart hstop] at hs
    obtain ⟨c₀, rest, n, -, hl', hscan⟩ := scans_of_lexemes hls
    have hmem : l ∈ lexemes text.toList := by
      rw [hls]
      simp
    generalize hp : l.piece = piece at hscan
    cases piece with
    | blank =>
      cases hscan with
      | blank hb =>
        have hcont := (hcons ▸ hw).continues
        have hone : u ++ c :: v = [c₀] := by rw [← hl, hl', List.take_zero]
        obtain ⟨rfl, heq⟩ | ⟨_, _, heq⟩ := List.append_eq_cons_iff.1 hone
        · obtain ⟨rfl, -⟩ := List.cons.inj heq
          simp [continuesWord, hb] at hcont
        · simp at heq
    | comment =>
      exact .inr (.inr (.inl ⟨l.span, List.mem_map.2 ⟨l, by simp [hmem, hp], rfl⟩, hcovers⟩))
    | fault f =>
      have hf : l.fault? = some (f, l.span) := by simp only [Lexeme.fault?, hp]
      exact .inr (.inr (.inr ⟨(f, l.span), List.mem_filterMap.2 ⟨l, hmem, hf⟩, hcovers⟩))
    | token kind =>
      have ht : l.token? = some ⟨kind, l.span, String.ofList l.text⟩ := by
        simp only [Lexeme.token?, hp]
      have htoken : (⟨kind, l.span, String.ofList l.text⟩ : Token) ∈ (tokenize text).tokens := by
        rw [tokens_tokenize]
        exact List.mem_append_left _ (List.mem_filterMap.2 ⟨l, hmem, ht⟩)
      cases hq : kind.isQuoted with
      | true => exact .inr (.inl ⟨_, htoken, hq, hcovers⟩)
      | false =>
        obtain ⟨hword, rfl, hltext⟩ := isWord_of_whole hls htext hfront hl (by rw [hcons]; rfl)
          ((stands_afterAll before).unique hs) hw hp hq
        refine .inl ⟨_, htoken, hword, ?_, congrArg String.ofList hltext⟩
        rw [List.append_nil] at hfront
        rw [hspan, hfront]

end LogSearch.Query
