import LogSearch.Proofs.Query.Spelling

/-!
# Laid out text

A layout is a text in pieces: blanks, words, symbols, and texts between quotes.

* `chars`, `spellings`: the text of a layout and the spelled tokens it is meant to have.
* `Legible`: each piece is told from what follows it.
* `Uncommented`: no piece starts a comment.
* `spelled?_layout`: a legible layout without comments has its own tokens.
-/

namespace LogSearch.Query

open Text (isBlank)

/-- A piece of a layout. -/
inductive Item
  | blank
  | word (text : String)
  | symbol (symbol : Symbol)
  | quoted (text : String)
  | backtick (text : String)
deriving DecidableEq

namespace Item

/-- How a piece is written. -/
def text : Item → List Char
  | blank => [' ']
  | word w => w.toList
  | symbol m => m.text.toList
  | quoted t => '"' :: t.toList.flatMap quoteChar ++ ['"']
  | backtick t => '\x60' :: t.toList ++ ['\x60']

/-- The token that a piece is in a segment. -/
def kind? (s : Segment) : Item → Option TokenKind
  | blank => none
  | word w => some (wordKind s w.toList)
  | symbol m => some (.symbol m)
  | quoted t => some (.quoted t)
  | backtick t => some (.backtick t)

/-- The spelled token that a piece is in a segment. -/
def spelling? (s : Segment) (i : Item) : Option Spelling :=
  (i.kind? s).map fun k => (k, String.ofList i.text)

/-- The segment after a piece. -/
def after (s : Segment) (i : Item) : Segment := (i.kind? s).elim s s.after

/-- Whether a piece is a blank. -/
def isBlank : Item → Bool
  | blank => true
  | _ => false

/-- Whether a piece starts a comment after a blank. -/
def opensComment : Item → Bool
  | word w => Query.opensComment w.toList
  | _ => false

/-- What must hold for a piece to be told from the text after it. -/
def Legible (s : Segment) (rest : List Char) : Item → Prop
  | word w => w.toList ≠ [] ∧ wordLength s (w.toList ++ rest) = w.toList.length
  | symbol m => ∀ c cs, m.text.toList = c :: cs →
      symbol? s c (cs ++ rest).head? = some m ∧ (c = '/' → rest.head? ≠ some '/')
  | backtick t => '\x60' ∉ t.toList
  | _ => True

end Item

/-- The text of a layout. -/
def chars (items : List Item) : List Char := items.flatMap Item.text

/-- The spelled tokens of a layout. -/
def spellings : Segment → List Item → List Spelling
  | _, [] => []
  | s, i :: items => (i.spelling? s).toList ++ spellings (i.after s) items

/-- The segment after a layout. -/
def segmentAfter (s : Segment) (items : List Item) : Segment := items.foldl Item.after s

/-- Whether a blank, or nothing at a fresh place, stands before the end of a layout. -/
def freshAfter : Bool → List Item → Bool
  | fresh, [] => fresh
  | _, i :: items => freshAfter i.isBlank items

/-- Each piece of a layout is told from what follows it. -/
def Legible : Segment → List Item → List Char → Prop
  | _, [], _ => True
  | s, i :: items, rest => i.Legible s (chars items ++ rest) ∧ Legible (i.after s) items rest

/-- No piece of a layout starts a comment. -/
def Uncommented : Bool → List Item → Prop
  | _, [] => True
  | fresh, i :: items => (fresh = true → i.opensComment = false) ∧ Uncommented i.isBlank items

/-! ## Layouts side by side -/

/-- A blank is written as one. -/
@[simp] theorem Item.text_blank : Item.blank.text = [' '] := rfl

/-- A word is written as it is. -/
@[simp] theorem Item.text_word (w : String) : (Item.word w).text = w.toList := rfl

/-- A symbol is written with its characters. -/
@[simp] theorem Item.text_symbol (m : Symbol) : (Item.symbol m).text = m.text.toList := rfl

/-- A text in quotes is written with its quotes. -/
@[simp] theorem Item.text_quoted (t : String) : (Item.quoted t).text = (quote t).toList := by
  simp [Item.text, quote]

/-- Nothing has no text. -/
@[simp] theorem chars_nil : chars [] = [] := rfl

/-- The text of a layout is that of its first piece and that of the others. -/
@[simp] theorem chars_cons (i : Item) (items : List Item) : chars (i :: items) = i.text ++ chars items :=
  rfl

/-- The text of two layouts is that of the one and that of the other. -/
@[simp] theorem chars_append (items more : List Item) :
    chars (items ++ more) = chars items ++ chars more := by simp [chars]

/-- Two layouts are spelled one behind the other, the second in the segment after the first. -/
theorem spellings_append (s : Segment) (items more : List Item) :
    spellings s (items ++ more) = spellings s items ++ spellings (segmentAfter s items) more := by
  induction items generalizing s with
  | nil => rfl
  | cons i items ih => simp [spellings, ih, segmentAfter]

/-- Two layouts can be told apart if the first can before the second, and the second in its segment. -/
theorem legible_append {s : Segment} {items more : List Item} {rest : List Char} :
    Legible s (items ++ more) rest ↔
      Legible s items (chars more ++ rest) ∧ Legible (segmentAfter s items) more rest := by
  induction items generalizing s with
  | nil => simp [Legible, segmentAfter]
  | cons i items ih => simp [Legible, ih, segmentAfter, and_assoc]

/-- Two layouts have no comment if neither has, the second at the place after the first. -/
theorem uncommented_append {fresh : Bool} {items more : List Item} :
    Uncommented fresh (items ++ more) ↔
      Uncommented fresh items ∧ Uncommented (freshAfter fresh items) more := by
  induction items generalizing fresh with
  | nil => simp [Uncommented, freshAfter]
  | cons i items ih => simp [Uncommented, ih, freshAfter, and_assoc]

/-! ## Reading a layout -/

variable {s : Segment} {fresh : Bool} {rest : List Char}

/-- A blank is no token, and leaves a place behind one. -/
theorem spelled?_blank :
    spelled? ⟨s, fresh⟩ (' ' :: rest) = spelled? ⟨s, true⟩ rest :=
  spelled?_skipped (n := 0) rfl (.inl rfl)

/-- A slash continues a word where there are no operators. -/
theorem continuesWord_slash (s : Segment) (next : Option Char) :
    continuesWord s '/' next = !s.hasOperators := by
  have hblank : isBlank '/' = false := by decide
  simp [continuesWord, hblank]

/-- A word that ends starts a comment exactly if it does by itself. -/
theorem opensComment_append {w : List Char} (hw : w ≠ [])
    (h : wordLength s (w ++ rest) = w.length) : Query.opensComment (w ++ rest) = opensComment w := by
  cases w with
  | nil => exact absurd rfl hw
  | cons c w =>
    cases w with
    | cons d w => rfl
    | nil =>
      cases rest with
      | nil => rfl
      | cons d rest =>
        have h' : ¬ (c = '/' ∧ d = '/') := by
          rintro ⟨rfl, rfl⟩
          cases ho : s.hasOperators <;> simp [wordLength, continuesWord_slash, ho] at h
        simpa [Query.opensComment] using h'

/-- A word that ends and starts no comment is spelled as a token. -/
theorem spelled?_word {w : List Char} (hw : w ≠ [])
    (h : wordLength s (w ++ rest) = w.length) (hf : fresh = true → opensComment w = false) :
    spelled? ⟨s, fresh⟩ (w ++ rest) =
      (spelled? ⟨s.after (wordKind s w), false⟩ rest).map ((wordKind s w, String.ofList w) :: ·) := by
  rw [← opensComment_append hw h] at hf
  have hspec := mem_word_spec (isWord_of_append hw (Nat.le_of_eq h.symm)).length
  cases w with
  | nil => exact absurd rfl hw
  | cons c w =>
    rw [List.cons_append] at hf ⊢
    rw [List.cons_append, wordLength] at h
    split at h
    next hc =>
      have hn : wordLength s (w ++ rest) = w.length := by simpa using h
      have hscan := scan_word (p := ⟨s, fresh⟩) hc hf
      rw [hn, List.take_left] at hscan
      rw [spelled?_token hscan, List.drop_left, List.take_left]
      have hlast : ((c :: w).getLast?.all isBlank) = false := by
        rw [List.getLast?_eq_some_getLast (by simp), Option.all_some]
        exact (hspec _ (List.getLast_mem _)).1
      simp only [Place.after, hlast]
    next => simp at h

/-- A symbol that can be told is spelled as a token. -/
theorem spelled?_symbol {m : Symbol} (h : (Item.symbol m).Legible s rest) :
    spelled? ⟨s, fresh⟩ (m.text.toList ++ rest) =
      (spelled? ⟨s.after (.symbol m), false⟩ rest).map ((.symbol m, m.text) :: ·) := by
  have hm : ∃ c cs, m.text.toList = c :: cs ∧ m.text.length - 1 = cs.length ∧ isBlank c = false ∧
      c ≠ '"' ∧ c ≠ '\x60' ∧ (c = '/' → cs = []) := by
    cases m <;> exact ⟨_, _, rfl, by decide⟩
  obtain ⟨c, cs, hm, hlen, hblank, hquote, htick, hone⟩ := hm
  obtain ⟨hs, hslash⟩ := h c cs hm
  have hline : ¬ (c = '/' ∧ (cs ++ rest).head? = some '/' ∧ fresh = true) := by
    rintro ⟨hc, hr, -⟩
    rw [hone hc] at hr
    exact hslash hc hr
  have hscan : scan ⟨s, fresh⟩ c (cs ++ rest) = ⟨.token (.symbol m), cs.length⟩ := by
    unfold scan
    rw [if_neg (by simp [hblank]), if_neg hline, if_neg hquote, if_neg htick, hs]
    simp only [hlen]
  have hlast : (c :: cs).getLast?.all isBlank = false := by
    rw [← hm]
    cases m <;> decide
  rw [hm, List.cons_append, spelled?_token hscan, List.drop_left, List.take_left]
  simp only [Place.after, hlast]
  rw [← hm, String.ofList_toList]

/-- A plain character between quotes stands for itself. -/
theorem quotedText?_plain {c : Char} {more : List Char} (hquote : c ≠ '"') (hslash : c ≠ '\\') :
    quotedText? (c :: more) = (quotedText? more).map fun (text, n) => (c :: text, n + 1) := by
  rw [quotedText?.eq_def]
  split <;> simp_all

/-- A character between quotes is read as itself. -/
theorem quotedText?_quoteChar (c : Char) (more : List Char) :
    quotedText? (quoteChar c ++ more) =
      (quotedText? more).map fun (text, n) => (c :: text, n + (quoteChar c).length) := by
  unfold quoteChar
  split
  next h => simp [quotedText?, escaped?, h]
  next hquote =>
  split
  next h => simp [quotedText?, escaped?, h]
  next hslash =>
  split
  next h => simp [quotedText?, escaped?, h]
  split
  next h => simp [quotedText?, escaped?, h]
  next => exact quotedText?_plain hquote hslash

/-- A text between quotes is read as itself. -/
theorem quotedText?_quoted (t : List Char) :
    quotedText? (t.flatMap quoteChar ++ '"' :: rest) =
      some (t, (t.flatMap quoteChar).length + 1) := by
  induction t with
  | nil => rfl
  | cons c t ih =>
    rw [List.flatMap_cons, List.append_assoc, quotedText?_quoteChar, ih]
    simp
    omega

/-- A text in quotes is spelled as a token. -/
theorem spelled?_quoted {t : String} :
    spelled? ⟨s, fresh⟩ ((Item.quoted t).text ++ rest) =
      (spelled? ⟨s.after (.quoted t), false⟩ rest).map
        ((.quoted t, String.ofList (Item.quoted t).text) :: ·) := by
  let body := t.toList.flatMap quoteChar ++ ['"']
  have hscan : scan ⟨s, fresh⟩ '"' (body ++ rest) = ⟨.token (.quoted t), body.length⟩ := by
    have hbody : quotedText? (body ++ rest) = some (t.toList, body.length) := by
      simp only [body, List.append_assoc, List.singleton_append, quotedText?_quoted,
        List.length_append, List.length_singleton]
    have hblank : isBlank '"' = false := by decide
    simp [scan, scanQuoted, hblank, hbody]
  have htext : (Item.quoted t).text = '"' :: body := rfl
  have hlast : ('"' :: body).getLast?.all isBlank = false := by
    simp only [body, ← List.cons_append, List.getLast?_concat]
    decide
  rw [htext, List.cons_append, spelled?_token hscan, List.drop_left, List.take_left]
  simp only [Place.after, hlast]

/-- A text without backticks is spelled as a token in backticks. -/
theorem spelled?_backtick {t : String} (h : '\x60' ∉ t.toList) :
    spelled? ⟨s, fresh⟩ ((Item.backtick t).text ++ rest) =
      (spelled? ⟨s.after (.backtick t), false⟩ rest).map
        ((.backtick t, String.ofList (Item.backtick t).text) :: ·) := by
  let body := t.toList ++ ['\x60']
  have hscan : scan ⟨s, fresh⟩ '\x60' (body ++ rest) = ⟨.token (.backtick t), body.length⟩ := by
    have htake : (body ++ rest).takeWhile (· ≠ '\x60') = t.toList := by
      simp only [body, List.append_assoc, List.singleton_append]
      rw [List.takeWhile_append_of_pos]
      · simp
      · intro c hc
        have hne : c ≠ '\x60' := fun hb => h (hb ▸ hc)
        simpa using hne
    have hblank : isBlank '\x60' = false := by decide
    simp only [scan, scanBacktick, hblank, htake]
    simp [body]
  have htext : (Item.backtick t).text = '\x60' :: body := rfl
  have hlast : ('\x60' :: body).getLast?.all isBlank = false := by
    simp only [body, ← List.cons_append, List.getLast?_concat]
    decide
  rw [htext, List.cons_append, spelled?_token hscan, List.drop_left, List.take_left]
  simp only [Place.after, hlast]

/-- A piece is read as its own token, or as a blank. -/
theorem spelled?_item {i : Item} (h : i.Legible s rest)
    (hf : fresh = true → i.opensComment = false) :
    spelled? ⟨s, fresh⟩ (i.text ++ rest) =
      (spelled? ⟨i.after s, i.isBlank⟩ rest).map ((i.spelling? s).toList ++ ·) := by
  cases i with
  | blank =>
    rw [show (Item.blank.text ++ rest) = ' ' :: rest from rfl, spelled?_blank]
    simp [Item.spelling?, Item.kind?, Item.after, Item.isBlank]
  | word w =>
    rw [Item.text, spelled?_word h.1 h.2 hf]
    rfl
  | symbol m =>
    rw [Item.text, spelled?_symbol h]
    simp [Item.spelling?, Item.kind?, Item.after, Item.text, Item.isBlank]
  | quoted t => exact spelled?_quoted
  | backtick t => exact spelled?_backtick h

/-- A legible layout without comments is read as its own tokens, whatever follows. -/
theorem spelled?_layout {items : List Item} (h : Legible s items rest)
    (hf : Uncommented fresh items) :
    spelled? ⟨s, fresh⟩ (chars items ++ rest) =
      (spelled? ⟨segmentAfter s items, freshAfter fresh items⟩ rest).map (spellings s items ++ ·) := by
  induction items generalizing s fresh with
  | nil => simp [segmentAfter, freshAfter, spellings]
  | cons i items ih =>
    rw [chars_cons, List.append_assoc, spelled?_item h.1 hf.1, ih h.2 hf.2, Option.map_map]
    simp [segmentAfter, freshAfter, spellings, Function.comp_def]

end LogSearch.Query
