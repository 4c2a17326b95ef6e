import LogSearch.Query.Lexer
import LogSearch.Query.Text

/-!
# Spelled tokens

A token without its place is its kind and how it is written.

* `spelled?`: the spelled tokens of a text, if no lexeme of it is at fault.
* `continuesWord_iff`, `scan_word`: what starts a word continues one, and the lexer takes it whole.
* `allFit_spelled`: words and numbers of a text are words of the segments they stand in.
-/

namespace LogSearch.Query

open Text (isBlank)

/-- The kind of a token and how it is written. -/
abbrev Spelling := TokenKind × String

/-- A token without its place. -/
def Token.spelling (t : Token) : Spelling := (t.kind, t.text)

/-! ## Lexemes without their places -/

/-- What the lexemes of a text are and how they are written, after its first `skip` characters. -/
def pieces (p : Place) : Nat → List Char → List (Piece × List Char)
  | _, [] => []
  | skip + 1, _ :: rest => pieces p skip rest
  | 0, c :: rest =>
    let s := scan p c rest
    let text := c :: rest.take s.extra
    (s.piece, text) :: pieces (p.after s.piece text) s.extra rest

/-- The pieces of a text are what its lexemes are and how they are written. -/
theorem map_lexemesFrom (p : Place) (start skip : Nat) (text : List Char) :
    (lexemesFrom p start skip text).map (fun l => (l.piece, l.text)) = pieces p skip text := by
  induction text generalizing p start skip with
  | nil => simp [lexemesFrom, pieces]
  | cons c rest ih =>
    cases skip with
    | succ skip => simp [lexemesFrom, pieces, ih]
    | zero => simp [lexemesFrom, pieces, ih]

/-- The pieces after some characters are those of the text from there on. -/
theorem pieces_eq_drop (p : Place) (skip : Nat) (text : List Char) :
    pieces p skip text = pieces p 0 (text.drop skip) := by
  induction text generalizing skip with
  | nil => simp [pieces]
  | cons c rest ih =>
    cases skip with
    | zero => rfl
    | succ skip => simp [pieces, ih]

/-- The spelled tokens among lexemes, if none is at fault. -/
def spell : List (Piece × List Char) → Option (List Spelling)
  | [] => some []
  | (.token kind, text) :: rest => (spell rest).map ((kind, String.ofList text) :: ·)
  | (.fault _, _) :: _ => none
  | (.blank, _) :: rest | (.comment, _) :: rest => spell rest

/-- The spelled tokens of a text at a place. -/
def spelled? (p : Place) (text : List Char) : Option (List Spelling) := spell (pieces p 0 text)

/-- The empty text spells nothing. -/
@[simp] theorem spelled?_nil (p : Place) : spelled? p [] = some [] := rfl

section

variable {p : Place} {c : Char} {rest : List Char} {n : Nat}

/-- Where a token is found, it is spelled before the rest. -/
theorem spelled?_token {kind : TokenKind} (h : scan p c rest = ⟨.token kind, n⟩) :
    spelled? p (c :: rest) =
      (spelled? (p.after (.token kind) (c :: rest.take n)) (rest.drop n)).map
        ((kind, String.ofList (c :: rest.take n)) :: ·) := by
  simp only [spelled?, pieces, h, spell]
  rw [pieces_eq_drop]

/-- Blanks and comments are passed over. -/
theorem spelled?_skipped {piece : Piece} (h : scan p c rest = ⟨piece, n⟩)
    (hp : piece = .blank ∨ piece = .comment) :
    spelled? p (c :: rest) = spelled? (p.after piece (c :: rest.take n)) (rest.drop n) := by
  rcases hp with rfl | rfl <;>
  · simp only [spelled?, pieces, h, spell]
    rw [pieces_eq_drop]

/-- Where a fault is found, nothing is spelled. -/
theorem spelled?_fault {fault : LexFault} (h : scan p c rest = ⟨.fault fault, n⟩) :
    spelled? p (c :: rest) = none := by
  simp only [spelled?, pieces, h, spell]

end

/-! ## From lexemes -/

/-- Lexemes without faults spell their tokens. -/
theorem spell_map_lexemes (ls : List Lexeme) :
    spell (ls.map fun l => (l.piece, l.text)) =
      if (ls.filterMap Lexeme.fault?).isEmpty then
        some ((ls.filterMap Lexeme.token?).map Token.spelling) else none := by
  induction ls with
  | nil => rfl
  | cons l ls ih =>
    obtain ⟨piece, start, text⟩ := l
    cases piece with
    | fault f => simp [spell, Lexeme.fault?]
    | token kind =>
      simp only [List.map_cons, spell, ih, List.filterMap_cons, Lexeme.fault?, Lexeme.token?]
      split <;> rfl
    | blank | comment =>
      rw [List.filterMap_cons_none rfl, List.filterMap_cons_none rfl]
      exact ih

/-- A word is no end of input. -/
theorem wordKind_ne_endOfInput (s : Segment) (word : List Char) :
    wordKind s word ≠ .endOfInput := by
  unfold wordKind
  dsimp only
  split
  · split <;> simp
  · split
    · simp
    · split <;> simp

/-- A word is no symbol. -/
theorem wordKind_ne_symbol {s : Segment} {w : List Char} {m : Symbol} :
    wordKind s w ≠ .symbol m := by
  unfold wordKind
  dsimp only
  split
  · split <;> simp
  · split
    · simp
    · split <;> simp

/-- The lexer never finds an end of input inside a text. -/
theorem scan_ne_endOfInput (p : Place) (c : Char) (rest : List Char) :
    (scan p c rest).piece ≠ .token .endOfInput := by
  unfold scan
  split
  · simp
  split
  · simp
  split
  · unfold scanQuoted
    split <;> simp
  split
  · unfold scanBacktick
    dsimp only
    split <;> simp
  split
  · simp
  split
  · simp
  · unfold scanWord
    split
    · simp
    · simpa using wordKind_ne_endOfInput p.segment _

/-- No lexeme of a text is an end of input. -/
theorem mem_lexemesFrom_ne_endOfInput {p : Place} {start skip : Nat} {text : List Char} {l : Lexeme}
    (h : l ∈ lexemesFrom p start skip text) : l.piece ≠ .token .endOfInput := by
  induction text generalizing p start skip with
  | nil => simp [lexemesFrom] at h
  | cons c rest ih =>
    cases skip with
    | succ skip => exact ih (by simpa [lexemesFrom] using h)
    | zero =>
      rw [lexemesFrom, List.mem_cons] at h
      rcases h with rfl | h
      · exact scan_ne_endOfInput p c rest
      · exact ih h

/-! ## Words -/

/-- What continues a word does so at the end as well. -/
theorem continuesWord_none {s : Segment} {c : Char} {next : Option Char}
    (h : continuesWord s c next = true) : continuesWord s c none = true := by
  simp only [continuesWord, Bool.and_eq_true] at h ⊢
  exact ⟨⟨⟨h.1.1.1, by simp⟩, h.1.2⟩, h.2⟩

/-- What continues a word at the end does so before anything, but for a negation before an equals
sign. -/
theorem continuesWord_of_none {s : Segment} {c : Char} {next : Option Char}
    (h : continuesWord s c none = true) (hc : c = '!' → next ≠ some '=') :
    continuesWord s c next = true := by
  simp only [continuesWord, Bool.and_eq_true] at h ⊢
  refine ⟨⟨⟨h.1.1.1, ?_⟩, h.1.2⟩, h.2⟩
  by_cases hb : c = '!'
  · simp [hc hb]
  · simp [hb]

/-- A word is no longer than the text. -/
theorem wordLength_le (s : Segment) (w : List Char) : wordLength s w ≤ w.length := by
  induction w with
  | nil => simp [wordLength]
  | cons c w ih =>
    rw [wordLength, List.length_cons]
    split <;> omega

/-- A text that is one word of a segment, whatever else the segment makes of words. -/
structure IsWord (s : Segment) (w : List Char) : Prop where
  ne_nil : w ≠ []
  length : wordLength s w = w.length

/-- What is taken for a word is one. -/
theorem isWord_of_append {s : Segment} {w rest : List Char} (hw : w ≠ [])
    (h : w.length ≤ wordLength s (w ++ rest)) : IsWord s w := by
  refine ⟨hw, ?_⟩
  clear hw
  induction w with
  | nil => rfl
  | cons c w ih =>
    rw [List.cons_append, wordLength] at h
    split at h
    next hc =>
      have hc' : continuesWord s c w.head? = true := by
        cases w with
        | nil => exact continuesWord_none hc
        | cons d w => simpa using hc
      rw [wordLength, if_pos hc', ih (by simpa using h), List.length_cons]
    next => simp at h

/-- A word ends where nothing continues it. -/
theorem IsWord.append {s : Segment} {w rest : List Char} (h : IsWord s w)
    (hrest : wordLength s rest = 0) (hbang : w.getLast? = some '!' → rest.head? ≠ some '=') :
    wordLength s (w ++ rest) = w.length := by
  obtain ⟨-, h⟩ := h
  induction w with
  | nil => simpa using hrest
  | cons c w ih =>
    rw [wordLength] at h
    split at h
    next hc =>
      have hc' : continuesWord s c (w ++ rest).head? = true := by
        cases w with
        | nil => exact continuesWord_of_none hc fun hb => hbang (by simp [hb])
        | cons d w => simpa using hc
      have hlast : w.getLast? = some '!' → rest.head? ≠ some '=' := fun hw => by
        apply hbang
        cases w with
        | nil => simp at hw
        | cons d w => simpa [List.getLast?_cons_cons] using hw
      rw [List.cons_append, wordLength, if_pos hc', ih hlast (by simpa using h), List.length_cons]
    next => simp at h

/-- Whether a text starts as a comment does. -/
def opensComment (text : List Char) : Bool := text.take 2 = ['/', '/']

/-- A comment starts with two slashes. -/
theorem opensComment_iff {c : Char} {rest : List Char} :
    opensComment (c :: rest) = true ↔ c = '/' ∧ rest.head? = some '/' := by
  cases rest <;> simp [opensComment]

/-- Where no comment starts, the lexer finds none. -/
theorem not_comment {p : Place} {c : Char} {rest : List Char}
    (h : p.fresh = true → opensComment (c :: rest) = false) :
    ¬ (c = '/' ∧ rest.head? = some '/' ∧ p.fresh = true) := by
  rintro ⟨hc, hr, hf⟩
  have ho := opensComment_iff.2 ⟨hc, hr⟩
  rw [h hf] at ho
  simp at ho

/-- What continues a word is no symbol. -/
theorem symbol?_eq_none {s : Segment} {c : Char} {next : Option Char}
    (h : continuesWord s c next = true) : symbol? s c next = none := by
  simp only [continuesWord, Bool.and_eq_true] at h
  obtain ⟨⟨⟨⟨-, hmark⟩, hbang⟩, hcomma⟩, hop⟩ := h
  unfold symbol?
  split <;> simp_all

/-- A word goes on unless there is a blank, a quote, a symbol or an ampersand among operators. -/
theorem continuesWord_iff {s : Segment} {c : Char} {next : Option Char} :
    continuesWord s c next = true ↔ isBlank c = false ∧ c ≠ '"' ∧ c ≠ '\x60' ∧
      symbol? s c next = none ∧ ¬ (c = '&' ∧ s.hasOperators = true) := by
  constructor
  · intro h
    have hs := symbol?_eq_none h
    simp only [continuesWord, Bool.and_eq_true] at h
    obtain ⟨⟨⟨⟨hblank, hmark⟩, -⟩, -⟩, hop⟩ := h
    refine ⟨by simpa using hblank, ?_, ?_, hs, ?_⟩
    · rintro rfl
      simp at hmark
    · rintro rfl
      simp at hmark
    · rintro ⟨rfl, ho⟩
      simp [ho] at hop
  · rintro ⟨hblank, hquote, htick, hs, hand⟩
    cases hc : continuesWord s c next with
    | true => rfl
    | false =>
      simp only [continuesWord, hblank, Bool.not_false, Bool.true_and] at hc
      unfold symbol? at hs
      split at hs
      all_goals simp_all
      split at hs <;> simp at hs

/-- A word has no blanks, quotes and backticks. -/
theorem mem_word_spec {s : Segment} {w : List Char} (h : wordLength s w = w.length) :
    ∀ c ∈ w, isBlank c = false ∧ c ≠ '"' ∧ c ≠ '\x60' := by
  induction w with
  | nil => simp
  | cons c w ih =>
    rw [wordLength] at h
    split at h
    next hc =>
      obtain ⟨hblank, hquote, htick, -⟩ := continuesWord_iff.1 hc
      exact List.forall_mem_cons.2 ⟨⟨hblank, hquote, htick⟩, ih (by simpa using h)⟩
    next => simp at h

/-- At the first character of a word the lexer takes the whole word, unless a comment starts. -/
theorem scan_word {p : Place} {c : Char} {rest : List Char}
    (h : continuesWord p.segment c rest.head? = true)
    (hcomment : p.fresh = true → opensComment (c :: rest) = false) :
    scan p c rest =
      ⟨.token (wordKind p.segment (c :: rest.take (wordLength p.segment rest))),
        wordLength p.segment rest⟩ := by
  obtain ⟨hblank, hquote, htick, hs, hand⟩ := continuesWord_iff.1 h
  unfold scan
  rw [if_neg (by simp [hblank]), if_neg (not_comment hcomment), if_neg hquote, if_neg htick, hs]
  simp only [if_neg hand, scanWord, wordLength, if_pos h]

/-- What the lexer finds fault with at `c` before `rest`, and how many characters that takes after
`c`. -/
inductive Faulty (p : Place) (c : Char) (rest : List Char) : LexFault → Nat → Prop
  | ampersand : c = '&' → rest.head? ≠ some '&' → p.segment.hasOperators = true →
      Faulty p c rest .loneAmpersand 0
  | quoted : c = '"' → quotedText? rest = none → Faulty p c rest .unterminatedString rest.length
  | backtick : c = '\x60' → '\x60' ∉ rest → Faulty p c rest .unterminatedBacktick rest.length

/-- What a lexeme at `c` before `rest` can be, and how many characters it takes after its first. -/
inductive Scans (p : Place) (c : Char) (rest : List Char) : Scan → Prop
  | blank : isBlank c = true → Scans p c rest ⟨.blank, 0⟩
  | comment : p.fresh = true → opensComment (c :: rest) = true →
      Scans p c rest ⟨.comment, commentLength rest⟩
  | fault {f : LexFault} {n : Nat} : Faulty p c rest f n → Scans p c rest ⟨.fault f, n⟩
  | word : continuesWord p.segment c rest.head? = true →
      (p.fresh = true → opensComment (c :: rest) = false) →
      Scans p c rest ⟨.token (wordKind p.segment (c :: rest.take (wordLength p.segment rest))),
        wordLength p.segment rest⟩
  | symbol {m : Symbol} : symbol? p.segment c rest.head? = some m →
      (p.fresh = true → opensComment (c :: rest) = false) →
      Scans p c rest ⟨.token (.symbol m), m.text.length - 1⟩
  | quoted {t : List Char} {n : Nat} : c = '"' → quotedText? rest = some (t, n) →
      Scans p c rest ⟨.token (.quoted (String.ofList t)), n⟩
  | backtick {t more : List Char} : c = '\x60' → '\x60' ∉ t → rest = t ++ '\x60' :: more →
      Scans p c rest ⟨.token (.backtick (String.ofList t)), t.length + 1⟩

/-- At a quote the lexer finds a text in quotes. -/
theorem scans_quoted {p : Place} {rest : List Char} : Scans p '"' rest (scanQuoted rest) := by
  unfold scanQuoted
  split
  next h => exact .quoted rfl h
  next h => exact .fault (.quoted rfl h)

/-- At a backtick the lexer finds a text in backticks. -/
theorem scans_backtick {p : Place} {rest : List Char} : Scans p '\x60' rest (scanBacktick rest) := by
  have htick : '\x60' ∉ rest.takeWhile (· ≠ '\x60') := fun hm => by
    have hne := List.all_eq_true.1 List.all_takeWhile _ hm
    simp at hne
  have happ := List.takeWhile_append_dropWhile (p := (· ≠ '\x60')) (l := rest)
  unfold scanBacktick
  dsimp only
  cases hd : rest.dropWhile (· ≠ '\x60') with
  | nil =>
    rw [hd, List.append_nil] at happ
    rw [happ] at htick
    rw [happ, if_neg (Nat.lt_irrefl _)]
    exact .fault (.backtick rfl htick)
  | cons d more =>
    have hd' := List.head?_dropWhile_not (· ≠ '\x60') rest
    rw [hd] at hd'
    obtain rfl : d = '\x60' := by simpa using hd'
    rw [hd] at happ
    have hlt : (rest.takeWhile (· ≠ '\x60')).length < rest.length := by
      have hlen := congrArg List.length happ
      simp only [List.length_append, List.length_cons] at hlen
      omega
    rw [if_pos hlt]
    exact .backtick rfl htick happ.symm

/-- What the lexer finds at a character. -/
theorem scan_spec (p : Place) (c : Char) (rest : List Char) : Scans p c rest (scan p c rest) := by
  unfold scan
  split
  next h => exact .blank h
  next hblank =>
  split
  next h => exact .comment h.2.2 (opensComment_iff.2 ⟨h.1, h.2.1⟩)
  next hline =>
  have hcomment : p.fresh = true → opensComment (c :: rest) = false := fun hf => by
    cases ho : opensComment (c :: rest) with
    | false => rfl
    | true =>
      obtain ⟨hc, hr⟩ := opensComment_iff.1 ho
      exact absurd ⟨hc, hr, hf⟩ hline
  split
  next h =>
    subst h
    exact scans_quoted
  next hquote =>
  split
  next h =>
    subst h
    exact scans_backtick
  next htick =>
  split
  next hs => exact .symbol hs hcomment
  next hs =>
  split
  next h =>
    refine .fault (.ampersand h.1 (fun hr => ?_) h.2)
    simp [symbol?, h.1, h.2, hr] at hs
  next hand =>
    have hc := continuesWord_iff.2 ⟨by simpa using hblank, hquote, htick, hs, hand⟩
    simp only [scanWord, wordLength, if_pos hc]
    exact .word hc hcomment

/-- What the lexer finds is one of those that there can be. -/
theorem scans_of_eq {p : Place} {c : Char} {rest : List Char} {s : Scan} (h : scan p c rest = s) :
    Scans p c rest s := h ▸ scan_spec p c rest

/-- A comment takes its line with the line break. -/
theorem commentLength_spec (rest : List Char) :
    (∃ line more, rest = line ++ '\n' :: more ∧ '\n' ∉ line ∧ commentLength rest = line.length + 1) ∨
      ('\n' ∉ rest ∧ commentLength rest = rest.length) := by
  have hline : '\n' ∉ rest.takeWhile (· ≠ '\n') := fun hm => by
    have hne := List.all_eq_true.1 List.all_takeWhile _ hm
    simp at hne
  have happ := List.takeWhile_append_dropWhile (p := (· ≠ '\n')) (l := rest)
  cases hd : rest.dropWhile (· ≠ '\n') with
  | nil =>
    rw [hd, List.append_nil] at happ
    rw [happ] at hline
    refine .inr ⟨hline, ?_⟩
    simp only [commentLength]
    rw [happ, if_neg (Nat.lt_irrefl _)]
  | cons d more =>
    have hd' := List.head?_dropWhile_not (· ≠ '\n') rest
    rw [hd] at hd'
    obtain rfl : d = '\n' := by simpa using hd'
    rw [hd] at happ
    have hlt : (rest.takeWhile (· ≠ '\n')).length < rest.length := by
      have hlen := congrArg List.length happ
      simp only [List.length_append, List.length_cons] at hlen
      omega
    exact .inl ⟨_, more, happ.symm, hline, by simp only [commentLength, if_pos hlt]⟩

/-- After a blank or a comment the place is fresh, or the text has ended. -/
theorem fresh_of_scan {p : Place} {c : Char} {rest : List Char} {piece : Piece} {n : Nat}
    (h : scan p c rest = ⟨piece, n⟩) (hp : piece = .blank ∨ piece = .comment) :
    (p.after piece (c :: rest.take n)).fresh = true ∨ rest.drop n = [] := by
  cases scans_of_eq h with
  | blank hc => exact .inl (by simp [Place.after, hc])
  | comment hf ho =>
    rcases commentLength_spec rest with ⟨line, more, hrest, -, hn⟩ | ⟨-, hn⟩
    · have htake : rest.take (line.length + 1) = line ++ ['\n'] := by
        rw [hrest, List.append_cons, List.take_left' (by simp)]
      rw [hn, htake]
      left
      simp only [Place.after, ← List.cons_append, List.getLast?_concat]
      decide
    · rw [hn]
      exact .inr (by simp)
  | _ => simp at hp

/-! ## Plain words -/

/-- A letter, a digit or a point. -/
def isPlain (c : Char) : Bool := c.isAlphanum || c = '.'

/-- A plain character takes one byte. -/
theorem isPlain_lt {c : Char} (h : isPlain c = true) : c.toNat < 128 := by
  have below {n : UInt32} (h : c.val ≤ n) (hn : n.toNat < 128) : c.toNat < 128 :=
    Nat.lt_of_le_of_lt (UInt32.le_iff_toNat_le.1 h) hn
  simp only [isPlain, Char.isAlphanum, Bool.or_eq_true, decide_eq_true_eq] at h
  obtain (h | h) | rfl := h
  · obtain h | h : c.isUpper = true ∨ c.isLower = true := Bool.or_eq_true_iff.1 h
    · exact below (of_decide_eq_true h).2 (by decide)
    · exact below (of_decide_eq_true (Bool.and_eq_true_iff.1 h).2) (by decide)
  · exact below (of_decide_eq_true (Bool.and_eq_true_iff.1 h).2) (by decide)
  · decide

/-- A plain character is no blank, no mark and no operator. -/
theorem isPlain_spec {c : Char} (h : isPlain c = true) :
    isBlank c = false ∧ "|()\"\x60=".toList.contains c = false ∧ c ≠ '!' ∧ c ≠ ',' ∧
      "+-*/><&![]".toList.contains c = false := by
  have hn : ∀ n < 128, isPlain (Char.ofNat n) = true →
      isBlank (Char.ofNat n) = false ∧ "|()\"\x60=".toList.contains (Char.ofNat n) = false ∧
        Char.ofNat n ≠ '!' ∧ Char.ofNat n ≠ ',' ∧
        "+-*/><&![]".toList.contains (Char.ofNat n) = false := by decide +kernel
  have hc := hn c.toNat (isPlain_lt h)
  rw [Char.ofNat_toNat] at hc
  exact hc h

/-- A plain character continues a word. -/
theorem continuesWord_plain {s : Segment} {c : Char} {next : Option Char} (h : isPlain c = true) :
    continuesWord s c next = true := by
  obtain ⟨hblank, hmark, hbang, hcomma, hop⟩ := isPlain_spec h
  simp only [continuesWord, hblank, hmark, hop]
  simp [hbang, hcomma]

/-- A digit is plain. -/
theorem isPlain_of_isDigit {c : Char} (h : c.isDigit = true) : isPlain c = true := by
  simp [isPlain, Char.isAlphanum, h]

/-- Letters, digits and points make a word of any segment. -/
theorem isWord_plain {s : Segment} {w : List Char} (hw : w ≠ []) (h : w.all isPlain = true) : IsWord s w := by
  refine ⟨hw, ?_⟩
  clear hw
  induction w with
  | nil => rfl
  | cons c w ih =>
    rw [List.all_cons, Bool.and_eq_true] at h
    rw [wordLength, if_pos (continuesWord_plain h.1), ih h.2, List.length_cons]

/-! ## Tokens and their segments -/

/-- A word or a number is a word of its segment, and is what the segment makes of that word. -/
def Fits (s : Segment) (k : Spelling) : Prop :=
  match k.1 with
  | .word _ | .number _ => IsWord s k.2.toList ∧ wordKind s k.2.toList = k.1
  | _ => True

/-- Spelled tokens that fit, each in the segment in which it stands. -/
def AllFit : Segment → List Spelling → Prop
  | _, [] => True
  | s, k :: ks => Fits s k ∧ AllFit (s.after k.1) ks

/-- A word fits as what its segment makes of it. -/
theorem fits_of_isWord {s : Segment} {w : List Char} (h : IsWord s w) :
    Fits s (wordKind s w, String.ofList w) := by
  unfold Fits
  split
  · exact ⟨by simpa using h, by simp⟩
  · exact ⟨by simpa using h, by simp⟩
  · trivial

/-- A token that is found fits its segment. -/
theorem scan_fits {p : Place} {c : Char} {rest : List Char} {kind : TokenKind} {n : Nat}
    (h : scan p c rest = ⟨.token kind, n⟩) :
    Fits p.segment (kind, String.ofList (c :: rest.take n)) := by
  cases scans_of_eq h with
  | word hc _ =>
    apply fits_of_isWord
    refine @isWord_of_append _ _ (rest.drop (wordLength p.segment rest)) (by simp) ?_
    rw [List.cons_append, List.take_append_drop, wordLength, if_pos hc]
    exact Nat.succ_le_succ (List.length_take_le _ _)
  | symbol => trivial
  | quoted => trivial
  | backtick => trivial

/-- The tokens of a text fit, each in its segment. -/
theorem allFit_spell {p : Place} {skip : Nat} {text : List Char} {ks : List Spelling}
    (h : spell (pieces p skip text) = some ks) : AllFit p.segment ks := by
  induction text generalizing p skip ks with
  | nil =>
    obtain rfl : ks = [] := by simpa [pieces, spell] using h.symm
    trivial
  | cons c rest ih =>
    cases skip with
    | succ skip => exact ih h
    | zero =>
      simp only [pieces] at h
      cases hs : scan p c rest with
      | mk piece n =>
        simp only [hs] at h
        cases piece with
        | blank => exact ih (p := p.after .blank _) h
        | comment => exact ih (p := p.after .comment _) h
        | fault f => simp [spell] at h
        | token kind =>
          simp only [spell, Option.map_eq_some_iff] at h
          obtain ⟨ks', h, rfl⟩ := h
          exact ⟨scan_fits hs, ih h⟩

/-- Whatever text the tokens come from, they fit. -/
theorem allFit_spelled {p : Place} {text : List Char} {ks : List Spelling}
    (h : spelled? p text = some ks) : AllFit p.segment ks := allFit_spell h

end LogSearch.Query
