import LogSearch.Proofs.Query.Classification

/-!
# How far the lexer looks

A lexeme is found by its characters and by one more. Where a blank stands behind it, any other blank
could stand there, and anything behind that.

* `scan_eq_of_scans`: `Scans` says all that the lexer finds at a character.
* `Scans.replaced`: what follows the blank behind a lexeme is no matter to it.
* `Lexes.spelled?_replaced`: nor is it to a row of lexemes.
-/

namespace LogSearch.Query

open Text (isBlank byteLength)

section

variable {p : Place} {c : Char} {rest : List Char}

/-! ## What the lexer finds -/

/-- A blank is no symbol. -/
theorem symbol?_of_isBlank {s : Segment} {next : Option Char} (h : isBlank c = true) :
    symbol? s c next = none := by
  unfold symbol?
  dsimp only
  split
  all_goals first
    | rfl
    | exact absurd h (by decide)

/-- A symbol that starts no comment is a token. -/
theorem scan_symbol {m : Symbol} (hs : symbol? p.segment c rest.head? = some m)
    (hcomment : p.fresh = true → opensComment (c :: rest) = false) :
    scan p c rest = ⟨.token (.symbol m), m.text.length - 1⟩ := by
  have hblank : ¬ isBlank c = true := fun h => by simp [symbol?_of_isBlank h] at hs
  have hquote : c ≠ '"' := by
    rintro rfl
    simp [symbol?] at hs
  have htick : c ≠ '\x60' := by
    rintro rfl
    simp [symbol?] at hs
  unfold scan
  rw [if_neg hblank, if_neg (not_comment hcomment), if_neg hquote, if_neg htick, hs]

/-- A text in quotes that does not end is a fault up to the end. -/
theorem scanQuoted_none (h : quotedText? rest = none) :
    scanQuoted rest = ⟨.fault .unterminatedString, rest.length⟩ := by
  simp only [scanQuoted, h]

/-- A text in backticks that does not end is a fault up to the end. -/
theorem scanBacktick_none (h : '\x60' ∉ rest) :
    scanBacktick rest = ⟨.fault .unterminatedBacktick, rest.length⟩ := by
  have htake : rest.takeWhile (· ≠ '\x60') = rest := by
    refine List.takeWhile_eq_self_iff.2 fun d hd => ?_
    have hne : d ≠ '\x60' := fun hb => h (hb ▸ hd)
    simpa using hne
  simp only [scanBacktick, htake, Nat.lt_irrefl, if_false]

/-- A text in backticks ends at the next one. -/
theorem scanBacktick_some {t more : List Char} (h : '\x60' ∉ t) :
    scanBacktick (t ++ '\x60' :: more) =
      ⟨.token (.backtick (String.ofList t)), t.length + 1⟩ := by
  have htake : (t ++ '\x60' :: more).takeWhile (· ≠ '\x60') = t := by
    have hall : ∀ d ∈ t, decide (d ≠ '\x60') = true := fun d hd =>
      decide_eq_true fun hb => h (hb ▸ hd)
    rw [List.takeWhile_append_of_pos hall, List.takeWhile_cons_of_neg (by simp), List.append_nil]
  simp only [scanBacktick, htake]
  simp

/-- What a place scans is what the lexer does there. -/
theorem scan_eq_of_scans {s : Scan} (h : Scans p c rest s) : scan p c rest = s := by
  have hquote : isBlank '"' = false := by decide
  have htick : isBlank '\x60' = false := by decide
  have hslash : isBlank '/' = false := by decide
  have hand : isBlank '&' = false := by decide
  cases h with
  | blank hc => exact if_pos hc
  | comment hf ho =>
    obtain ⟨rfl, hr⟩ := opensComment_iff.1 ho
    rw [scan, if_neg (by simp [hslash]), if_pos ⟨rfl, hr, hf⟩]
  | fault hf =>
    cases hf with
    | ampersand hc hnext hops =>
      subst hc
      have hs : symbol? p.segment '&' rest.head? = none := by simp [symbol?, hnext]
      simp [scan, hand, hs, hops]
    | quoted hc hnone =>
      subst hc
      simp [scan, hquote, scanQuoted_none hnone]
    | backtick hc hnot =>
      subst hc
      simp [scan, htick, scanBacktick_none hnot]
  | word hc hno => exact scan_word hc hno
  | symbol hs hno => exact scan_symbol hs hno
  | quoted hc hq =>
    subst hc
    simp [scan, hquote, scanQuoted, hq]
  | backtick hc hnot hrest =>
    subst hc hrest
    simp [scan, htick, scanBacktick_some hnot]

/-- A lexeme lies within the text. -/
theorem Scans.le {piece : Piece} {n : Nat} (h : Scans p c rest ⟨piece, n⟩) : n ≤ rest.length := by
  cases h with
  | blank => exact Nat.zero_le _
  | comment =>
    rcases commentLength_spec rest with ⟨line, more, hrest, -, hn⟩ | ⟨-, hn⟩
    · rw [hn, hrest, List.length_append, List.length_cons]
      omega
    · exact Nat.le_of_eq hn
  | fault hf =>
    cases hf with
    | ampersand => exact Nat.zero_le _
    | quoted => exact Nat.le_refl _
    | backtick => exact Nat.le_refl _
  | word => exact wordLength_le _ _
  | @symbol m hs =>
    have hlen := congrArg List.length (symbol?_text hs)
    rw [List.length_cons, List.length_take, String.length_toList] at hlen
    omega
  | quoted _ hq => exact (quotedText?_spec hq).2.1
  | backtick _ _ hrest =>
    rw [hrest, List.length_append, List.length_cons]
    omega

/-- No token ends in a blank. -/
theorem Scans.not_fresh_after {k : TokenKind} {n : Nat} (h : Scans p c rest ⟨.token k, n⟩) :
    (p.after (.token k) (c :: rest.take n)).fresh = false := by
  have hlast {d : Char} (hd : (c :: rest.take n).getLast? = some d) (hb : isBlank d = false) :
      (p.after (.token k) (c :: rest.take n)).fresh = false := by
    simp only [Place.after, hd, Option.all_some, hb]
  cases h with
  | word hc =>
    have hword : wordLength p.segment (c :: rest.take (wordLength p.segment rest)) =
        (c :: rest.take (wordLength p.segment rest)).length := by
      have hle : (c :: rest.take (wordLength p.segment rest)).length ≤
          wordLength p.segment (c :: rest.take (wordLength p.segment rest) ++
            rest.drop (wordLength p.segment rest)) := by
        rw [List.cons_append, List.take_append_drop, wordLength, if_pos hc]
        exact Nat.succ_le_succ (List.length_take_le _ _)
      exact (isWord_of_append (by simp) hle).length
    exact hlast (List.getLast?_eq_some_getLast (by simp))
      (mem_word_spec hword _ (List.getLast_mem _)).1
  | @symbol m hs =>
    have hend : ∀ m : Symbol, ∃ d, m.text.toList.getLast? = some d ∧ isBlank d = false := by
      intro m
      cases m <;> exact ⟨_, rfl, by decide⟩
    obtain ⟨d, hd, hb⟩ := hend m
    exact hlast (by rw [symbol?_text hs, hd]) hb
  | quoted _ hq =>
    obtain ⟨-, -, -, front, hfront⟩ := quotedText?_spec hq
    exact hlast (by rw [hfront, ← List.cons_append, List.getLast?_concat]) (by decide)
  | @backtick t more _ _ hrest =>
    have htake : rest.take (t.length + 1) = t ++ ['\x60'] := by
      rw [hrest, List.append_cons, List.take_left' (by simp)]
    exact hlast (by rw [htake, ← List.cons_append, List.getLast?_concat]) (by decide)

end

/-! ## What follows a lexeme -/

/-- A text that starts with a blank. -/
def StartsBlank (text : List Char) : Prop := ∃ c more, text = c :: more ∧ isBlank c = true

section

variable {front rest rest' : List Char}

/-- Behind the same characters a text that starts with a blank shows no other character than another
such text does, blanks apart. -/
theorem head?_replaced (h : StartsBlank rest) (h' : StartsBlank rest') {d : Char}
    (hd : isBlank d = false) :
    (front ++ rest).head? = some d ↔ (front ++ rest').head? = some d := by
  obtain ⟨b, more, rfl, hb⟩ := h
  obtain ⟨b', more', rfl, hb'⟩ := h'
  cases front with
  | cons => rfl
  | nil =>
    constructor
    · intro he
      obtain rfl : b = d := by simpa using he
      simp [hd] at hb
    · intro he
      obtain rfl : b' = d := by simpa using he
      simp [hd] at hb'

/-- Whether a word goes on before a blank is the same whatever follows the blank. -/
theorem continuesWord_replaced (h : StartsBlank rest) (h' : StartsBlank rest') (s : Segment)
    (c : Char) :
    continuesWord s c (front ++ rest).head? = continuesWord s c (front ++ rest').head? := by
  simp only [continuesWord, head?_replaced h h' (d := '=') (by decide)]

/-- Which symbol stands before a blank is the same whatever follows the blank. -/
theorem symbol?_replaced (h : StartsBlank rest) (h' : StartsBlank rest') (s : Segment) (c : Char) :
    symbol? s c (front ++ rest).head? = symbol? s c (front ++ rest').head? := by
  simp only [symbol?, head?_replaced h h' (d := '=') (by decide),
    head?_replaced h h' (d := '|') (by decide), head?_replaced h h' (d := '&') (by decide)]

/-- Whether a comment starts before a blank is the same whatever follows the blank. -/
theorem opensComment_replaced (h : StartsBlank rest) (h' : StartsBlank rest') (c : Char) :
    opensComment (c :: (front ++ rest)) = opensComment (c :: (front ++ rest')) := by
  rw [Bool.eq_iff_iff, opensComment_iff, opensComment_iff,
    head?_replaced h h' (d := '/') (by decide)]

/-- A blank is no word. -/
theorem wordLength_of_startsBlank (h : StartsBlank rest) (s : Segment) : wordLength s rest = 0 := by
  obtain ⟨b, more, rfl, hb⟩ := h
  rw [wordLength, if_neg (by simp [continuesWord, hb])]

/-- How long a word before a blank is does not depend on what follows the blank. -/
theorem wordLength_replaced (h : StartsBlank rest) (h' : StartsBlank rest') (s : Segment) :
    wordLength s (front ++ rest) = wordLength s (front ++ rest') := by
  induction front with
  | nil => rw [List.nil_append, List.nil_append, wordLength_of_startsBlank h,
      wordLength_of_startsBlank h']
  | cons c front ih =>
    rw [List.cons_append, List.cons_append, wordLength, wordLength, ih,
      continuesWord_replaced h h']

/-- A comment takes its line and the line break. -/
theorem commentLength_line {line : List Char} (h : '\n' ∉ line) (more : List Char) :
    commentLength (line ++ '\n' :: more) = line.length + 1 := by
  have hall : ∀ d ∈ line, decide (d ≠ '\n') = true := fun d hd =>
    decide_eq_true fun hb => h (hb ▸ hd)
  have htake : (line ++ '\n' :: more).takeWhile (· ≠ '\n') = line := by
    rw [List.takeWhile_append_of_pos hall, List.takeWhile_cons_of_neg (by simp), List.append_nil]
  simp only [commentLength, htake]
  simp

/-- What a text starts with, when it is not longer than the front of the text. -/
theorem exists_front_eq {w more : List Char} (h : front ++ rest = w ++ more)
    (hlen : w.length ≤ front.length) : ∃ behind, front = w ++ behind := by
  have hfront : front <+: w ++ more := ⟨rest, h⟩
  obtain ⟨behind, hbehind⟩ :=
    List.prefix_of_prefix_length_le (List.prefix_append w more) hfront hlen
  exact ⟨behind, hbehind.symm⟩

/-- A lexeme that ends before a blank is found whatever blank that is and whatever follows. -/
theorem Scans.replaced {p : Place} {c : Char} {piece : Piece} {n : Nat} (hb : StartsBlank rest)
    (hb' : StartsBlank rest') (hn : n ≤ front.length)
    (h : Scans p c (front ++ rest) ⟨piece, n⟩) : Scans p c (front ++ rest') ⟨piece, n⟩ := by
  have htake : (front ++ rest').take n = (front ++ rest).take n := by
    rw [List.take_append_of_le_length hn, List.take_append_of_le_length hn]
  have hlen : front.length < (front ++ rest).length := by
    obtain ⟨b, more, rfl, -⟩ := hb
    simp
  cases h with
  | blank hc => exact .blank hc
  | comment hf ho =>
    rw [opensComment_replaced hb hb'] at ho
    -- A comment that does not end with its line would reach beyond the blank.
    rcases commentLength_spec (front ++ rest) with ⟨line, more, hline, hnot, hlength⟩ | ⟨-, hlength⟩
    · rw [List.append_cons] at hline
      obtain ⟨behind, rfl⟩ := exists_front_eq hline (by simpa [hlength] using hn)
      have hsame : commentLength (line ++ ['\n'] ++ behind ++ rest') = line.length + 1 := by
        rw [List.append_assoc, List.append_assoc]
        exact commentLength_line hnot _
      rw [hlength, ← hsame]
      exact .comment hf ho
    · omega
  | fault hf =>
    cases hf with
    | ampersand hc hnext hops =>
      exact .fault (.ampersand hc (mt (head?_replaced hb hb' (by decide)).2 hnext) hops)
    -- What is not terminated goes on to the end of the text, and the blank is in it.
    | quoted => omega
    | backtick => omega
  | word hc hno =>
    rw [continuesWord_replaced hb hb'] at hc
    rw [opensComment_replaced hb hb'] at hno
    rw [← htake, wordLength_replaced hb hb']
    exact .word hc hno
  | symbol hs hno =>
    rw [symbol?_replaced hb hb'] at hs
    rw [opensComment_replaced hb hb'] at hno
    exact .symbol hs hno
  | quoted hc hq =>
    obtain ⟨hmore, -⟩ := quotedText?_spec hq
    refine .quoted hc ?_
    have := hmore ((front ++ rest').drop n)
    rwa [← htake, List.take_append_drop] at this
  | @backtick t more hc hnot hrest =>
    rw [List.append_cons] at hrest
    obtain ⟨behind, rfl⟩ := exists_front_eq hrest (by simpa using hn)
    have hrest' : t ++ ['\x60'] ++ behind ++ rest' = t ++ '\x60' :: (behind ++ rest') := by simp
    exact .backtick hc hnot hrest'

/-! ## Rows of lexemes -/

variable {p : Place} {start : Nat} {text : List Char} {ls more : List Lexeme}

/-- Lexemes have no faults if neither part has. -/
theorem faultsOf_append_eq_nil {front back : List Lexeme} :
    faultsOf (front ++ back) = [] ↔ faultsOf front = [] ∧ faultsOf back = [] := by
  rw [faultsOf, List.filterMap_append, List.append_eq_nil_iff]
  rfl

/-- The pieces of a text are those of its lexemes. -/
theorem pieces_of_lexes (h : Lexes p start text ls) :
    pieces p 0 text = ls.map fun l => (l.piece, l.text) := by
  induction h with
  | nil => rfl
  | cons hscan _ ih =>
    rw [pieces, scan_eq_of_scans hscan, pieces_eq_drop, ih]
    rfl

/-- The spelled tokens of a text are those of its lexemes. -/
theorem Lexes.spelled?_eq (h : Lexes p start text ls) (hf : faultsOf ls = []) :
    spelled? p text = some ((tokensOf ls).map Token.spelling) := by
  rw [faultsOf] at hf
  rw [spelled?, pieces_of_lexes h, spell_map_lexemes, hf]
  rfl

/-- The first lexeme is found before what follows it, and the lexer goes on from there. -/
theorem Lexes.of_cons {l : Lexeme} (h : Lexes p start text (l :: ls)) :
    ∃ c w, l.text = c :: w ∧ Scans p c (w ++ texts ls) ⟨l.piece, w.length⟩ ∧
      Lexes (p.after l.piece l.text) (start + byteLength l.text) (texts ls) ls := by
  cases h with
  | @cons _ _ n c rest piece _ hscan hlex =>
    have hlen : (rest.take n).length = n := List.length_take_of_le hscan.le
    refine ⟨c, rest.take n, rfl, ?_, ?_⟩
    · rw [hlex.texts_eq, List.take_append_drop, hlen]
      exact hscan
    · rw [hlex.texts_eq]
      exact hlex

/-- A lexeme that is not at fault is a token, or it is passed over. -/
theorem spelled?_lexeme {l : Lexeme} {c : Char} {w : List Char} (hl : l.text = c :: w)
    (h : scan p c (w ++ rest) = ⟨l.piece, w.length⟩) (hf : l.fault? = none) :
    spelled? p (l.text ++ rest) = (spelled? (p.after l.piece l.text) rest).map
      ((tokensOf [l]).map Token.spelling ++ ·) := by
  obtain ⟨piece, start, text⟩ := l
  dsimp only at hl h ⊢
  subst hl
  cases piece with
  | token kind =>
    rw [List.cons_append, spelled?_token h, List.take_left, List.drop_left]
    rfl
  | fault f => simp [Lexeme.fault?] at hf
  | blank =>
    rw [List.cons_append, spelled?_skipped h (.inl rfl), List.take_left, List.drop_left]
    exact Option.map_id'.symm
  | comment =>
    rw [List.cons_append, spelled?_skipped h (.inr rfl), List.take_left, List.drop_left]
    exact Option.map_id'.symm

/-- Lexemes before a blank are found whatever blank that is and whatever follows. -/
theorem Lexes.spelled?_replaced (hb : StartsBlank rest) (hb' : StartsBlank rest')
    (h : Lexes p start (texts ls ++ rest) (ls ++ more)) (hf : faultsOf ls = []) :
    spelled? p (texts ls ++ rest') =
      (spelled? (p.afterAll ls) rest').map ((tokensOf ls).map Token.spelling ++ ·) := by
  induction ls generalizing p start with
  | nil => exact Option.map_id'.symm
  | cons l ls ih =>
    rw [List.cons_append] at h
    obtain ⟨c, w, hl, hscan, hlex⟩ := h.of_cons
    have hrest : texts (ls ++ more) = texts ls ++ rest := by
      have hall := h.texts_eq
      rwa [texts_cons, texts_cons, List.append_assoc, List.append_cancel_left_eq] at hall
    rw [hrest] at hscan hlex
    rw [← List.append_assoc] at hscan
    have hscan' := scan_eq_of_scans (hscan.replaced hb hb' (by simp))
    rw [List.append_assoc] at hscan'
    rw [← List.singleton_append, faultsOf_append_eq_nil] at hf
    have hfault : l.fault? = none := List.filterMap_eq_nil_iff.1 hf.1 l (List.mem_singleton_self l)
    have htokens := tokensOf_append [l] ls
    rw [List.singleton_append] at htokens
    rw [texts_cons, List.append_assoc, spelled?_lexeme hl hscan' hfault, ih hlex hf.2,
      Option.map_map, htokens]
    refine congrArg (Option.map · _) (funext fun ks => ?_)
    rw [List.map_append, List.append_assoc]
    rfl

end

end LogSearch.Query
