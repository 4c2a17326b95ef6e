import LogSearch.Proofs.Partition
import LogSearch.Proofs.Query.Classification
import LogSearch.Query.Completion
import LogSearch.Query.Parser
import LogSearch.Regex.Program

/-!
# Completing the word that is typed

What is completed is cut out of the text by a list of separators of its own, one byte behind the last of
them, whatever the lexer makes of the text. The two agree on words that hold no separator, and where no
blank of several bytes is in the way.

* `BehindWideBlank`: a blank of several bytes is the last separator before a cursor; `complete?_eq_none_iff`:
  there, and only there, completion fails.
* `Token.typed`: the part of a token before a cursor; `OffersColumns`: the columns that start with it.
* `before_cursor_in_word`: right before a word there is a separator or nothing.
* `InWords`: the separators that words may hold, by segment.
* `completes_words_iff`: completion never repeats itself, and it follows the words of the lexer exactly
  where a word holds no separator before the cursor.
-/

namespace LogSearch.Query

open Text (byteLength splitAtByte lowerCase lowerAfter startsWith)

/-! ## Texts up to a cursor -/

/-- A cut behind the front leaves it whole. -/
theorem splitAtByte_append_of_le {n : ℕ} {front rest : List Char} (h : byteLength front ≤ n) :
    (splitAtByte n (front ++ rest)).1 = front ++ (splitAtByte (n - byteLength front) rest).1 := by
  induction front generalizing n with
  | nil => rfl
  | cons c front ih =>
    rw [Text.byteLength_cons] at h
    have hc : c.utf8Size ≤ n := by omega
    rw [List.cons_append, splitAtByte, if_pos hc, Text.byteLength_cons, ← Nat.sub_sub,
      List.cons_append, ← ih (by omega)]

/-- A cut inside the front does not see the rest. -/
theorem splitAtByte_append_of_ge {n : ℕ} {front rest : List Char} (h : n ≤ byteLength front) :
    (splitAtByte n (front ++ rest)).1 = (splitAtByte n front).1 := by
  induction front generalizing n with
  | nil =>
    obtain rfl : n = 0 := Nat.le_zero.1 h
    cases rest with
    | nil => rfl
    | cons c rest =>
      have := c.utf8Size_pos
      simp [splitAtByte, Nat.not_le.2 this]
  | cons c front ih =>
    rw [Text.byteLength_cons] at h
    rw [List.cons_append, splitAtByte, splitAtByte]
    by_cases hc : c.utf8Size ≤ n
    · rw [if_pos hc, if_pos hc]
      exact congrArg (c :: ·) (ih (by omega))
    · rw [if_neg hc, if_neg hc]

/-! ## The last separator -/

/-- Without a separator the word starts with the text. -/
theorem afterSeparator_of_none {before : List Char} (h : ∀ d ∈ before, isSeparator d = false)
    (word : List Char) : afterSeparator word before = (none, before.reverse ++ word) := by
  induction before generalizing word with
  | nil => rfl
  | cons d before ih =>
    rw [List.forall_mem_cons] at h
    rw [afterSeparator, h.1, if_neg Bool.false_ne_true, ih h.2]
    simp

/-- The word starts behind the last separator. -/
theorem afterSeparator_of_separator {before front : List Char} {c : Char}
    (h : ∀ d ∈ before, isSeparator d = false) (hc : isSeparator c = true) (word : List Char) :
    afterSeparator word (before ++ c :: front) = (some c, before.reverse ++ word) := by
  induction before generalizing word with
  | nil => simp [afterSeparator, hc]
  | cons d before ih =>
    rw [List.forall_mem_cons] at h
    rw [List.cons_append, afterSeparator, h.1, if_neg Bool.false_ne_true, ih h.2]
    simp

/-- A text without separators, or its last one between what is before it and behind it. -/
theorem exists_last_separator (cs : List Char) :
    (∀ d ∈ cs, isSeparator d = false) ∨
      ∃ front c word, cs = front ++ c :: word ∧ isSeparator c = true ∧
        ∀ d ∈ word, isSeparator d = false := by
  induction cs with
  | nil => exact .inl (by simp)
  | cons d cs ih =>
    rcases ih with hnone | ⟨front, c, word, rfl, hc, hword⟩
    · cases hd : isSeparator d with
      | false => exact .inl (List.forall_mem_cons.2 ⟨hd, hnone⟩)
      | true => exact .inr ⟨[], d, cs, rfl, hd, hnone⟩
    · exact .inr ⟨d :: front, c, word, rfl, hc, hword⟩

section

variable {text : String} {cursor : ℕ}

/-- Without a separator before the cursor, the word is all that stands there. -/
theorem wordBefore?_of_none (h : ∀ d ∈ (splitAtByte cursor text.toList).1, isSeparator d = false) :
    wordBefore? text cursor = some (String.ofList (splitAtByte cursor text.toList).1) := by
  unfold wordBefore?
  dsimp only
  rw [afterSeparator_of_none (by simpa using h), List.reverse_reverse, List.append_nil]

/-- Behind a separator of one byte stands the word; behind a wider one the cut fails. -/
theorem wordBefore?_of_separator {front word : List Char} {c : Char}
    (h : (splitAtByte cursor text.toList).1 = front ++ c :: word) (hc : isSeparator c = true)
    (hword : ∀ d ∈ word, isSeparator d = false) :
    wordBefore? text cursor = if c.utf8Size = 1 then some (String.ofList word) else none := by
  unfold wordBefore?
  dsimp only
  rw [h, List.reverse_append, List.reverse_cons, List.append_assoc, List.singleton_append,
    afterSeparator_of_separator (by simpa using hword) hc, List.reverse_reverse, List.append_nil]

/-- Separators other than blanks take one byte. -/
theorem isBlank_of_separator {c : Char} (hc : isSeparator c = true) (hsize : c.utf8Size ≠ 1) :
    Text.isBlank c = true := by
  rcases Bool.or_eq_true_iff.1 hc with hblank | hmark
  · exact hblank
  · have hall : ("|(),=\x60\"[]!<>+-*/&".toList.all fun d => d.utf8Size = 1) = true := by decide
    have hone := List.all_eq_true.1 hall c (List.contains_iff_mem.1 hmark)
    exact absurd (of_decide_eq_true hone) hsize

/-- The last separator before a cursor is a blank of several bytes. -/
def BehindWideBlank (text : String) (cursor : ℕ) : Prop :=
  ∃ front c word, (splitAtByte cursor text.toList).1 = front ++ c :: word ∧
    Text.isBlank c = true ∧ 1 < c.utf8Size ∧ ∀ d ∈ word, isSeparator d = false

/-- The word before a cursor cannot be cut out exactly behind a blank of several bytes. -/
theorem wordBefore?_eq_none_iff : wordBefore? text cursor = none ↔ BehindWideBlank text cursor := by
  constructor
  · intro h
    rcases exists_last_separator (splitAtByte cursor text.toList).1 with
      hnone | ⟨front, c, word, hbefore, hc, hword⟩
    · rw [wordBefore?_of_none hnone] at h
      cases h
    · rw [wordBefore?_of_separator hbefore hc hword] at h
      have hsize : c.utf8Size ≠ 1 := by
        intro hsize
        rw [if_pos hsize] at h
        cases h
      have := c.utf8Size_pos
      exact ⟨front, c, word, hbefore, isBlank_of_separator hc hsize, by omega, hword⟩
  · rintro ⟨front, c, word, hbefore, hblank, hsize, hword⟩
    have hc : isSeparator c = true := by rw [isSeparator, hblank, Bool.true_or]
    rw [wordBefore?_of_separator hbefore hc hword, if_neg (by omega)]

/-- Completion fails exactly behind a blank of several bytes. -/
theorem complete?_eq_none_iff {markers : List Marker} {catalog : Catalog} :
    complete? text markers cursor catalog = none ↔ BehindWideBlank text cursor := by
  rw [complete?, Option.map_eq_none_iff, wordBefore?_eq_none_iff]

end

/-! ## What is offered -/

/-- Columns are offered where a marker asks for columns. -/
theorem mem_offers_column {catalog : Catalog} {kind : MarkerKind} {name : String} :
    (⟨name, .column⟩ : Completion) ∈ offers catalog kind ↔
      kind = .columns ∧ name ∈ catalog.columns := by
  cases kind <;> simp [offers]

/-- A column is among the completions if a marker asks for columns and it starts with the word,
ignoring case. -/
theorem mem_complete?_column {text : String} {markers : List Marker} {cursor : ℕ} {catalog : Catalog}
    {word : String} {out : List Completion} (hword : wordBefore? text cursor = some word)
    (h : complete? text markers cursor catalog = some out) {name : String} :
    ⟨name, .column⟩ ∈ out ↔ (∃ m ∈ markersAt markers cursor, m.kind = .columns) ∧
      name ∈ catalog.columns ∧ startsWith (lowerCase name) (lowerCase word) = true := by
  rw [complete?, hword] at h
  obtain rfl := Option.some.inj h
  rw [List.mem_eraseDups, List.mem_filter, List.mem_flatMap]
  simp only [mem_offers_column]
  constructor
  · rintro ⟨⟨m, hm, hkind, hname⟩, hstarts⟩
    exact ⟨⟨m, hm, hkind⟩, hname, hstarts⟩
  · rintro ⟨⟨m, hm, hkind⟩, hname, hstarts⟩
    exact ⟨⟨m, hm, hkind, hname⟩, hstarts⟩

/-- Completions do not repeat. -/
theorem nodup_of_complete? {text : String} {markers : List Marker} {cursor : ℕ} {catalog : Catalog}
    {out : List Completion} (h : complete? text markers cursor catalog = some out) : out.Nodup := by
  obtain ⟨word, -, rfl⟩ := Option.map_eq_some_iff.1 h
  exact nodup_eraseDups _

/-! ## Lower case -/

/-- How many characters the lower case of a text has, wherever it stands. -/
def lowerLength : List Char → ℕ
  | [] => 0
  | c :: cs => (if c = Text.capitalSigma then 1 else (Text.lowerChar c).length) + lowerLength cs

/-- The lower case of two texts has the characters of both. -/
theorem lowerLength_append (cs ds : List Char) :
    lowerLength (cs ++ ds) = lowerLength cs + lowerLength ds := by
  induction cs with
  | nil => exact (Nat.zero_add _).symm
  | cons c cs ih => rw [List.cons_append, lowerLength, ih, lowerLength, Nat.add_assoc]

/-- The lower case of a text has as many characters wherever it stands. -/
theorem length_lowerAfter (before cs : List Char) :
    (lowerAfter before cs).length = lowerLength cs := by
  induction cs generalizing before with
  | nil => rfl
  | cons c cs ih =>
    rw [lowerAfter, List.length_append, ih, lowerLength]
    split <;> rfl

/-- Every text starts with itself. -/
theorem startsWith_self (s : String) : startsWith s s = true := by
  unfold startsWith
  exact List.isPrefixOf_iff_prefix.2 List.prefix_rfl

/-- A part behind a mark is too short to start with all of it. -/
theorem not_startsWith_of_mark {front word : List Char} {c : Char} (hc : 0 < lowerLength [c]) :
    startsWith (lowerCase (String.ofList word)) (lowerCase (String.ofList (front ++ c :: word))) =
      false := by
  rw [← Bool.not_eq_true, startsWith, List.isPrefixOf_iff_prefix]
  intro h
  have hle := h.length_le
  rw [List.append_cons] at hle
  simp only [lowerCase, String.toList_ofList, length_lowerAfter, lowerLength_append] at hle
  omega

/-! ## Words and separators -/

/-- What does not continue a word is a separator. -/
theorem separator_of_not_continues {s : Segment} {d : Char} {next : Option Char}
    (h : continuesWord s d next = false) : isSeparator d = true := by
  by_contra hd
  simp only [isSeparator, Bool.not_eq_true, Bool.or_eq_false_iff] at hd
  obtain ⟨hblank, hmark⟩ := hd
  have hne : ∀ marks : String, (marks.toList.all "|(),=\x60\"[]!<>+-*/&".toList.contains) = true →
      marks.toList.contains d = false := by
    intro marks hmarks
    rw [← Bool.not_eq_true, List.contains_iff_mem]
    intro hmem
    rw [List.all_eq_true.1 hmarks d hmem] at hmark
    cases hmark
  have hbang : d ≠ '!' := by
    rintro rfl
    simp at hmark
  have hcomma : d ≠ ',' := by
    rintro rfl
    simp at hmark
  rw [continuesWord, hblank, hne _ (by decide), hne _ (by decide)] at h
  simp [hbang, hcomma] at h

/-- The separators that may stand in a word: operators where there are no expressions, and commas
before the first pipe. -/
def InWords (s : Segment) (c : Char) : Prop :=
  (c = ',' ∧ s = .search) ∨ (c ∈ "+-*/><&![]".toList ∧ s.hasOperators = false)

/-- A separator that continues a word is one of those that words may hold. -/
theorem inWords_of_continues {s : Segment} {c : Char} {next : Option Char}
    (h : continuesWord s c next = true) (hc : isSeparator c = true) : InWords s c := by
  simp only [continuesWord, Bool.and_eq_true, Bool.not_eq_true'] at h
  obtain ⟨⟨⟨⟨hblank, hmark⟩, -⟩, hcomma⟩, hop⟩ := h
  rw [isSeparator, hblank, Bool.false_or, List.contains_iff_mem] at hc
  have hall : ("|(),=\x60\"[]!<>+-*/&".toList.all fun c =>
      "|()\"\x60=".toList.contains c || c = ',' || "+-*/><&![]".toList.contains c) = true := by decide
  have hsplit := List.all_eq_true.1 hall c hc
  rw [Bool.or_eq_true, Bool.or_eq_true, decide_eq_true_eq, or_assoc] at hsplit
  rcases hsplit with hin | rfl | hin
  · rw [hin] at hmark
    cases hmark
  · exact .inl ⟨rfl, by simpa using hcomma⟩
  · rw [hin, Bool.and_true] at hop
    exact .inr ⟨List.contains_iff_mem.1 hin, hop⟩

/-- Every character of a word continues it, even at the end. -/
theorem continues_of_mem {s : Segment} {w : List Char} (h : wordLength s w = w.length) :
    ∀ c ∈ w, continuesWord s c none = true := by
  induction w with
  | nil => simp
  | cons c w ih =>
    rw [wordLength] at h
    split at h
    next hc =>
      exact List.forall_mem_cons.2 ⟨continuesWord_none hc, ih (by simpa using h)⟩
    next => cases h

/-- A separator in a word is one character of one byte, and stays one in lower case. -/
theorem lowerLength_pos_of_inWords {s : Segment} {c : Char} (h : InWords s c) :
    c.utf8Size = 1 ∧ 0 < lowerLength [c] := by
  have hall : (",+-*/><&![]".toList.all fun c => c.utf8Size = 1 ∧ 0 < lowerLength [c]) = true := by
    decide
  apply of_decide_eq_true
  apply List.all_eq_true.1 hall c
  rcases h with ⟨rfl, -⟩ | ⟨hc, -⟩
  · exact List.mem_cons_self
  · exact List.mem_cons_of_mem _ hc

/-! ## Words at a cursor -/

/-- The part of a token before a cursor. -/
def Token.typed (t : Token) (cursor : ℕ) : List Char :=
  (splitAtByte (cursor - t.span.start) t.text.toList).1

/-- The part of a token before a cursor is made of its characters. -/
theorem Token.mem_of_typed {t : Token} {cursor : ℕ} {c : Char} (h : c ∈ t.typed cursor) :
    c ∈ t.text.toList := by
  rw [← Text.splitAtByte_append (cursor - t.span.start) t.text.toList]
  exact List.mem_append_left _ h

/-- A word of a text stands between what is before it and behind it, and is whole. -/
theorem exists_whole {text : String} {before behind : List Token} {t : Token}
    (h : (tokenize text).tokens = before ++ t :: behind) (hword : t.kind.isWord = true) :
    ∃ s front back, Stands before s ∧ text.toList = front ++ t.text.toList ++ back ∧
      t.span = ⟨byteLength front, byteLength front + byteLength t.text.toList⟩ ∧
      IsWhole s front t.text.toList back := by
  rw [tokens_tokenize] at h
  rcases List.eq_nil_or_concat behind with rfl | ⟨rest, last, rfl⟩
  · obtain ⟨-, hend⟩ := List.append_inj' h rfl
    obtain ⟨rfl, -⟩ := List.cons.inj hend
    cases hword
  · rw [List.concat_eq_append, ← List.cons_append, ← List.append_assoc] at h
    obtain ⟨htokens, -⟩ := List.append_inj' h rfl
    obtain ⟨front, l, back, hls, rfl, ht⟩ := exists_lexemes_of_tokens htokens
    obtain ⟨s, front, back, hs, htext, hstart, hwhole⟩ := (classified_of_lexemes hls ht).whole hword
    obtain ⟨-, hspan, hpart⟩ := token?_eq_some ht
    refine ⟨s, front, back, hs, htext, ?_, hwhole⟩
    rw [hspan, Lexeme.span] at hstart ⊢
    rw [hpart, String.toList_ofList, ← hstart]

section

variable {text : String} {before behind : List Token} {t : Token} {cursor : ℕ}
  (h : (tokenize text).tokens = before ++ t :: behind) (hword : t.kind.isWord = true)

include h hword

/-- The separators of a word are among those of its segment. -/
theorem inWords_of_word {s : Segment} (hs : Stands before s) :
    ∀ c ∈ t.text.toList, isSeparator c = true → InWords s c := by
  obtain ⟨s', _, _, hs', -, -, hwhole⟩ := exists_whole h hword
  obtain rfl := hs.unique hs'
  intro c hc hsep
  have hlength := (isWord_of_append hwhole.ne_nil hwhole.run.ge).length
  exact inWords_of_continues (continues_of_mem hlength c hc) hsep

variable (hstart : t.span.start ≤ cursor) (hstop : cursor ≤ t.span.stop)

include hstart hstop

/-- Before a cursor in a word there is the part of the word, and right before the word a separator or
nothing. -/
theorem before_cursor_in_word : ∃ front,
    (splitAtByte cursor text.toList).1 = front ++ t.typed cursor ∧
      ∀ d ∈ front.getLast?, isSeparator d = true := by
  obtain ⟨s, front, back, -, htext, hspan, hwhole⟩ := exists_whole h hword
  rw [hspan] at hstart hstop
  refine ⟨front, ?_, fun d hd => separator_of_not_continues (hwhole.starts d hd)⟩
  rw [htext, List.append_assoc, splitAtByte_append_of_le hstart, Token.typed, hspan,
    splitAtByte_append_of_ge (Nat.sub_le_iff_le_add'.2 hstop)]

/-- Without separators in the part, completion looks at that part or fails. -/
theorem wordBefore?_in_word (hfree : ∀ c ∈ t.typed cursor, isSeparator c = false)
    (hwide : ¬ BehindWideBlank text cursor) :
    wordBefore? text cursor = some (String.ofList (t.typed cursor)) := by
  obtain ⟨front, hbefore, hlast⟩ := before_cursor_in_word h hword hstart hstop
  rcases List.eq_nil_or_concat front with rfl | ⟨front, d, rfl⟩
  · rw [List.nil_append] at hbefore
    rw [← hbefore] at hfree ⊢
    exact wordBefore?_of_none hfree
  · rw [List.concat_eq_append, List.append_assoc, List.singleton_append] at hbefore
    have hd : isSeparator d = true := hlast d (by simp)
    have hread := wordBefore?_of_separator hbefore hd hfree
    by_cases hsize : d.utf8Size = 1
    · rw [hread, if_pos hsize]
    · rw [if_neg hsize, wordBefore?_eq_none_iff] at hread
      exact absurd hread hwide

/-- With a separator in the part, completion looks at what is behind the last one. -/
theorem wordBefore?_behind_separator (hsep : ∃ c ∈ t.typed cursor, isSeparator c = true) :
    ∃ front c word, t.typed cursor = front ++ c :: word ∧ 0 < lowerLength [c] ∧
      wordBefore? text cursor = some (String.ofList word) := by
  obtain ⟨front, hbefore, -⟩ := before_cursor_in_word h hword hstart hstop
  rcases exists_last_separator (t.typed cursor) with hnone | ⟨first, c, word, htyped, hc, hfree⟩
  · obtain ⟨c, hmem, hc⟩ := hsep
    rw [hnone c hmem] at hc
    cases hc
  · obtain ⟨s, -, -, hs, -⟩ := exists_whole h hword
    have htyped' : c ∈ t.typed cursor := by simp [htyped]
    have hmem := Token.mem_of_typed htyped'
    obtain ⟨hsize, hlower⟩ := lowerLength_pos_of_inWords (inWords_of_word h hword hs c hmem hc)
    rw [htyped, ← List.append_assoc] at hbefore
    refine ⟨first, c, word, htyped, hlower, ?_⟩
    rw [wordBefore?_of_separator hbefore hc hfree, if_pos hsize]

end

/-- Completion at a cursor gives the columns that start, ignoring case, with a part of a word, and no
others. -/
def OffersColumns [Regex.Library] (text : String) (cursor : ℕ) (part : List Char)
    (catalog : Catalog) : Prop :=
  ∃ out, complete? text (parse text).markers cursor catalog = some out ∧ ∀ name,
    ⟨name, .column⟩ ∈ out ↔ name ∈ catalog.columns ∧
      startsWith (lowerCase name) (lowerCase (String.ofList part)) = true

/-- A word's own part is offered only if a marker offers columns at all. -/
theorem OffersColumns.exists_marker [Regex.Library] {text : String} {cursor : ℕ} {part : List Char}
    (h : ∀ catalog, OffersColumns text cursor part catalog) :
    ∃ m ∈ markersAt (parse text).markers cursor, m.kind = .columns := by
  obtain ⟨out, hout, hmem⟩ := h ⟨[String.ofList part], []⟩
  obtain ⟨word, hread, -⟩ := Option.map_eq_some_iff.1 hout
  exact ((mem_complete?_column hread hout).1 ((hmem _).2 ⟨by simp, startsWith_self _⟩)).1

/-- Completion fails exactly where a blank of several bytes is the last separator before the cursor, and
never repeats itself. At a cursor in a word it gives the columns that start with the part before the
cursor, whatever the catalog, if and only if a marker offers columns there, that part holds no separator,
and completion does not fail. A word holds operators only where there are no expressions, and commas only
before the first pipe. -/
theorem completes_words_iff [Regex.Library] (text : String) (cursor : ℕ) :
    (∀ markers catalog,
      complete? text markers cursor catalog = none ↔ BehindWideBlank text cursor) ∧
    (∀ markers catalog out, complete? text markers cursor catalog = some out → out.Nodup) ∧
    ∀ before t behind, (tokenize text).tokens = before ++ t :: behind → t.kind.isWord = true →
      t.span.start ≤ cursor → cursor ≤ t.span.stop →
      ((∀ catalog, OffersColumns text cursor (t.typed cursor) catalog) ↔
        (∃ m ∈ markersAt (parse text).markers cursor, m.kind = .columns) ∧
          (∀ c ∈ t.typed cursor, isSeparator c = false) ∧ ¬ BehindWideBlank text cursor) ∧
      ∀ s, Stands before s → ∀ c ∈ t.text.toList, isSeparator c = true → InWords s c := by
  refine ⟨fun _ _ => complete?_eq_none_iff, fun _ _ _ => nodup_of_complete?,
    fun before t behind h hword hstart hstop =>
      ⟨⟨fun hoffers => ?_, ?_⟩, fun s => inWords_of_word h hword⟩⟩
  · have hmarker := OffersColumns.exists_marker hoffers
    refine ⟨hmarker, fun c hc => Bool.eq_false_iff.2 fun hsep => ?_, fun hwide => ?_⟩
    · -- what is behind the last separator does not start with the whole part, and yet is offered
      obtain ⟨front, d, word, htyped, hlower, hread⟩ :=
        wordBefore?_behind_separator h hword hstart hstop ⟨c, hc, hsep⟩
      obtain ⟨out, hout, hmem⟩ := hoffers ⟨[String.ofList word], []⟩
      have hin := (mem_complete?_column hread hout).2 ⟨hmarker, by simp, startsWith_self _⟩
      have hstarts := ((hmem _).1 hin).2
      rw [htyped, not_startsWith_of_mark hlower] at hstarts
      cases hstarts
    · obtain ⟨out, hout, -⟩ := hoffers ⟨[], []⟩
      rw [complete?_eq_none_iff.2 hwide] at hout
      cases hout
  · rintro ⟨hmarker, hfree, hwide⟩ catalog
    have hread := wordBefore?_in_word h hword hstart hstop hfree hwide
    obtain ⟨out, hout⟩ : ∃ out, complete? text (parse text).markers cursor catalog = some out := by
      rw [complete?, hread]
      exact ⟨_, rfl⟩
    refine ⟨out, hout, fun name => ?_⟩
    rw [mem_complete?_column hread hout]
    exact and_iff_right hmarker

attribute [local instance] Regex.standard

/-- `| sort l`, with the cursor at its end. -/
theorem typed_column_completed :
    let t : Token := ⟨.word "l", ⟨7, 8⟩, "l"⟩
    (∃ before behind, (tokenize "| sort l").tokens = before ++ t :: behind) ∧
      ∀ catalog, OffersColumns "| sort l" 8 ['l'] catalog := by
  intro t
  have htokens : (tokenize "| sort l").tokens =
      [⟨.symbol .pipe, ⟨0, 1⟩, "|"⟩, ⟨.command .sort, ⟨2, 6⟩, "sort"⟩] ++
        t :: [⟨.endOfInput, ⟨8, 8⟩, ""⟩] := by decide +kernel
  have hwide : ¬ BehindWideBlank "| sort l" 8 := by
    rw [← wordBefore?_eq_none_iff]
    decide +kernel
  have hmarker : ∃ m ∈ markersAt (parse "| sort l").markers 8, m.kind = .columns := by decide +kernel
  obtain ⟨-, -, hwords⟩ := completes_words_iff "| sort l" 8
  obtain ⟨hoffers, -⟩ := hwords _ t _ htokens rfl (by decide) (by decide)
  have htyped : t.typed 8 = ['l'] := by decide +kernel
  rw [htyped] at hoffers
  exact ⟨⟨_, _, htokens⟩, hoffers.2 ⟨hmarker, List.forall_mem_singleton.2 (by decide), hwide⟩⟩

/-- After a hyphen only what is behind it counts, so that a column is not offered for a word that it
starts with; and behind a no-break space completion fails. -/
theorem hyphen_and_wide_blank_break_completion :
    ((tokenize "| sort my-co").tokens[2]? = some ⟨.word "my-co", ⟨7, 12⟩, "my-co"⟩ ∧
      (∃ m ∈ markersAt (parse "| sort my-co").markers 12, m.kind = .columns) ∧
      startsWith (lowerCase "my-col") (lowerCase "my-co") = true ∧
      complete? "| sort my-co" (parse "| sort my-co").markers 12 ⟨["my-col"], []⟩ = some []) ∧
    (tokenize "| sort\u00a0l").tokens[2]? = some ⟨.word "l", ⟨8, 9⟩, "l"⟩ ∧
      (∃ m ∈ markersAt (parse "| sort\u00a0l").markers 9, m.kind = .columns) ∧
      complete? "| sort\u00a0l" (parse "| sort\u00a0l").markers 9 ⟨["level"], []⟩ = none := by
  refine ⟨⟨?_, ?_, ?_, ?_⟩, ?_, ?_, ?_⟩
  all_goals decide +kernel

end LogSearch.Query
