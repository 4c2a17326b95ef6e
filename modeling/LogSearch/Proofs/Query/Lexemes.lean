import Mathlib.Data.List.Induction
import LogSearch.Proofs.Query.Spelling

/-!
# Lexemes in a row

The lexer takes one lexeme after the other, and what it makes of a character depends on the lexemes
before. Here its run is a relation with one rule for each step, and the state it carries is said in
terms of what has been read.

* `Lexes`: the lexemes of a text from a place on; `lexes_lexemes`: those that the lexer finds.
* `Lexes.of_append`: after some lexemes the lexer goes on from the place after them.
* `Stands`: the segment after some tokens, told by their last pipe and by the token behind it.
* `stands_afterAll`, `fresh_afterAll`: the place after some lexemes is told by their tokens and by
  their last character.
-/

namespace LogSearch.Query

open Text (isBlank byteLength)

/-! ## Runs of the lexer -/

/-- The characters of lexemes. -/
def texts (ls : List Lexeme) : List Char := ls.flatMap Lexeme.text

/-- The tokens among lexemes. -/
def tokensOf (ls : List Lexeme) : List Token := ls.filterMap Lexeme.token?

/-- No lexemes have no text. -/
@[simp] theorem texts_nil : texts [] = [] := rfl

/-- The text of lexemes is that of the first and that of the others. -/
@[simp] theorem texts_cons (l : Lexeme) (ls : List Lexeme) : texts (l :: ls) = l.text ++ texts ls :=
  rfl

/-- The text of lexemes one behind the other is that of both. -/
@[simp] theorem texts_append (ls more : List Lexeme) : texts (ls ++ more) = texts ls ++ texts more :=
  List.flatMap_append

/-- No lexemes have no tokens. -/
@[simp] theorem tokensOf_nil : tokensOf [] = [] := rfl

/-- The tokens of lexemes one behind the other are those of both. -/
@[simp] theorem tokensOf_append (ls more : List Lexeme) :
    tokensOf (ls ++ more) = tokensOf ls ++ tokensOf more := List.filterMap_append

/-- The lexemes of a text that stands at byte `start`, read from a place on. -/
inductive Lexes : Place → Nat → List Char → List Lexeme → Prop
  | nil {p : Place} {start : Nat} : Lexes p start [] []
  | cons {p : Place} {start n : Nat} {c : Char} {rest : List Char} {piece : Piece}
      {ls : List Lexeme} :
      Scans p c rest ⟨piece, n⟩ →
      Lexes (p.after piece (c :: rest.take n)) (start + byteLength (c :: rest.take n)) (rest.drop n)
        ls →
      Lexes p start (c :: rest) (⟨piece, start, c :: rest.take n⟩ :: ls)

/-- The lexer gives the lexemes of what is left of a text. -/
theorem lexes_lexemesFrom (p : Place) (start skip : Nat) (text : List Char) :
    Lexes p start (text.drop skip) (lexemesFrom p start skip text) := by
  induction text generalizing p start skip with
  | nil => simpa [lexemesFrom] using Lexes.nil
  | cons c rest ih =>
    cases skip with
    | succ skip => exact ih p start skip
    | zero => exact .cons (scan_spec p c rest) (ih _ _ _)

/-- The lexer gives the lexemes of a text. -/
theorem lexes_lexemes (text : List Char) : Lexes .initial 0 text (lexemes text) :=
  lexes_lexemesFrom .initial 0 0 text

/-- The place after some lexemes. -/
def Place.afterAll (p : Place) (ls : List Lexeme) : Place :=
  ls.foldl (fun p l => p.after l.piece l.text) p

/-- Without lexemes the place stays. -/
@[simp] theorem Place.afterAll_nil (p : Place) : p.afterAll [] = p := rfl

/-- The place after lexemes is that of the others, behind the first. -/
@[simp] theorem Place.afterAll_cons (p : Place) (l : Lexeme) (ls : List Lexeme) :
    p.afterAll (l :: ls) = (p.after l.piece l.text).afterAll ls := rfl

/-- The place after lexemes one behind the other is that of the second ones. -/
@[simp] theorem Place.afterAll_append (p : Place) (ls more : List Lexeme) :
    p.afterAll (ls ++ more) = (p.afterAll ls).afterAll more := List.foldl_append

namespace Lexes

variable {p : Place} {start : Nat} {text : List Char} {l : Lexeme} {ls more : List Lexeme}

/-- The lexer goes on from the place after what it has read. -/
theorem of_append (h : Lexes p start text (ls ++ more)) :
    ∃ rest, text = texts ls ++ rest ∧
      Lexes (p.afterAll ls) (start + byteLength (texts ls)) rest more := by
  induction ls generalizing p start text with
  | nil => exact ⟨text, rfl, h⟩
  | cons l ls ih =>
    rw [List.cons_append] at h
    cases h with
    | @cons _ _ n c rest piece _ hscan h =>
      obtain ⟨behind, hrest, h⟩ := ih h
      refine ⟨behind, ?_, ?_⟩
      · rw [texts_cons, List.append_assoc, ← hrest, List.cons_append, List.take_append_drop]
      · rw [texts_cons, Text.byteLength_append, ← Nat.add_assoc]
        exact h

/-- Lexemes have the text that they are read from. -/
theorem texts_eq (h : Lexes p start text ls) : texts ls = text := by
  rw [← List.append_nil ls] at h
  obtain ⟨rest, hrest, h⟩ := h.of_append
  obtain rfl : rest = [] := by
    cases h
    rfl
  rw [hrest, List.append_nil]

/-- A lexeme has a first character, and is what the lexer finds there. -/
theorem head (h : Lexes p start text (l :: ls)) :
    ∃ c rest n, text = c :: rest ∧ l = ⟨l.piece, start, c :: rest.take n⟩ ∧
      Scans p c rest ⟨l.piece, n⟩ := by
  cases h with
  | cons hscan _ => exact ⟨_, _, _, rfl, rfl, hscan⟩

/-- No lexeme is empty. -/
theorem ne_nil (h : Lexes p start text ls) : ∀ l ∈ ls, l.text ≠ [] := by
  intro l hl
  obtain ⟨before, behind, rfl⟩ := List.append_of_mem hl
  obtain ⟨rest, -, h⟩ := h.of_append
  obtain ⟨c, rest, n, -, hl, -⟩ := h.head
  rw [hl]
  simp

end Lexes

/-- Each lexeme of a text is what the lexer finds at its place, after the lexemes before it. -/
theorem scans_of_lexemes {text : List Char} {before behind : List Lexeme} {l : Lexeme}
    (h : lexemes text = before ++ l :: behind) :
    ∃ c rest n, text = texts before ++ c :: rest ∧
      l = ⟨l.piece, byteLength (texts before), c :: rest.take n⟩ ∧
      Scans (Place.initial.afterAll before) c rest ⟨l.piece, n⟩ := by
  obtain ⟨rest, htext, hlex⟩ := (h ▸ lexes_lexemes text).of_append
  obtain ⟨c, rest, n, rfl, hl, hscan⟩ := hlex.head
  rw [Nat.zero_add] at hl
  exact ⟨c, rest, n, htext, hl, hscan⟩

/-! ## Segments -/

/-- The segment that a token stands in after other tokens: it is told by the last pipe before the
token and by what comes right after that pipe. -/
inductive Stands : List Token → Segment → Prop
  | search {before : List Token} : (∀ t ∈ before, t.kind ≠ .symbol .pipe) → Stands before .search
  | opening {before : List Token} {pipe : Token} :
      pipe.kind = .symbol .pipe → Stands (before ++ [pipe]) .opening
  | command {before inside : List Token} {pipe name : Token} {c : Command} :
      pipe.kind = .symbol .pipe → name.kind = .command c →
      (∀ t ∈ inside, t.kind ≠ .symbol .pipe) →
      Stands (before ++ pipe :: name :: inside) (.command c)
  | unknown {before inside : List Token} {pipe first : Token} :
      pipe.kind = .symbol .pipe → first.kind ≠ .symbol .pipe → (∀ c, first.kind ≠ .command c) →
      (∀ t ∈ inside, t.kind ≠ .symbol .pipe) →
      Stands (before ++ pipe :: first :: inside) .unknown

/-- A segment that starts with no command is unknown. -/
theorem Segment.after_opening {k : TokenKind} (hp : k ≠ .symbol .pipe) (hc : ∀ c, k ≠ .command c) :
    Segment.opening.after k = .unknown := by
  unfold Segment.after
  split
  · next => exact absurd rfl hp
  · next => exact absurd rfl (hc _)
  · next => rfl

/-- A token that is no pipe leaves a segment that has started. -/
theorem Segment.after_of_ne {s : Segment} {k : TokenKind} (hs : s ≠ .opening)
    (hp : k ≠ .symbol .pipe) : s.after k = s := by
  unfold Segment.after
  split
  · next => exact absurd rfl hp
  · next => exact if_neg hs
  · next => exact if_neg hs

/-- A pipe opens a segment, the token after a pipe decides it, and any other keeps it. -/
theorem Stands.after {before : List Token} {s : Segment} (h : Stands before s) (t : Token) :
    Stands (before ++ [t]) (s.after t.kind) := by
  by_cases hp : t.kind = .symbol .pipe
  · rw [hp]
    exact .opening hp
  have snoc {ts : List Token} (hts : ∀ u ∈ ts, u.kind ≠ .symbol .pipe) :
      ∀ u ∈ ts ++ [t], u.kind ≠ .symbol .pipe := by
    intro u hu
    rcases List.mem_append.1 hu with hu | hu
    · exact hts u hu
    · rw [List.mem_singleton.1 hu]
      exact hp
  cases h with
  | search hts =>
    rw [Segment.after_of_ne (by simp) hp]
    exact .search (snoc hts)
  | @opening before pipe hpipe =>
    rw [List.append_assoc]
    by_cases hc : ∃ c, t.kind = .command c
    · obtain ⟨c, hc⟩ := hc
      rw [hc]
      exact .command hpipe hc (by simp)
    · rw [not_exists] at hc
      rw [Segment.after_opening hp hc]
      exact .unknown hpipe hp hc (by simp)
  | command hpipe hc hts =>
    rw [Segment.after_of_ne (by simp) hp, List.append_assoc]
    exact .command hpipe hc (snoc hts)
  | unknown hpipe hfirst hc hts =>
    rw [Segment.after_of_ne (by simp) hp, List.append_assoc]
    exact .unknown hpipe hfirst hc (snoc hts)

/-- The segment after tokens, from one token to the next. -/
def Segment.afterAll (s : Segment) (ts : List Token) : Segment :=
  ts.foldl (fun s t => s.after t.kind) s

/-- The segment after tokens one behind the other is that of the second ones. -/
theorem Segment.afterAll_append (s : Segment) (ts us : List Token) :
    s.afterAll (ts ++ us) = (s.afterAll ts).afterAll us := List.foldl_append

/-- Without a pipe a segment that has started stays. -/
theorem Segment.afterAll_eq_self {s : Segment} {ts : List Token} (hs : s ≠ .opening)
    (h : ∀ t ∈ ts, t.kind ≠ .symbol .pipe) : s.afterAll ts = s := by
  induction ts with
  | nil => rfl
  | cons t ts ih =>
    rw [List.forall_mem_cons] at h
    show (s.after t.kind).afterAll ts = s
    rw [Segment.after_of_ne hs h.1]
    exact ih h.2

/-- The segment that a token stands in is the one after the tokens before it. -/
theorem Stands.eq_afterAll {before : List Token} {s : Segment} (h : Stands before s) :
    Segment.search.afterAll before = s := by
  have behind {pipe first : Token} {front inside : List Token} {s : Segment}
      (hpipe : pipe.kind = .symbol .pipe) (hs : Segment.opening.after first.kind = s)
      (hne : s ≠ .opening) (hts : ∀ t ∈ inside, t.kind ≠ .symbol .pipe) :
      Segment.search.afterAll (front ++ pipe :: first :: inside) = s := by
    rw [Segment.afterAll_append]
    show (((Segment.search.afterAll front).after pipe.kind).after first.kind).afterAll inside = s
    rw [hpipe]
    show (Segment.opening.after first.kind).afterAll inside = s
    rw [hs]
    exact Segment.afterAll_eq_self hne hts
  cases h with
  | search hts => exact Segment.afterAll_eq_self (by simp) hts
  | @opening front pipe hpipe =>
    rw [Segment.afterAll_append]
    show (Segment.search.afterAll front).after pipe.kind = .opening
    rw [hpipe]
    rfl
  | command hpipe hc hts => exact behind hpipe (by rw [hc]; rfl) (by simp) hts
  | unknown hpipe hp hc hts => exact behind hpipe (Segment.after_opening hp hc) (by simp) hts

/-- Tokens stand before one segment only. -/
theorem Stands.unique {before : List Token} {s s' : Segment} (h : Stands before s)
    (h' : Stands before s') : s = s' := h.eq_afterAll.symm.trans h'.eq_afterAll

/-- After lexemes the lexer knows the segment of the tokens among them. -/
theorem stands_afterAll (ls : List Lexeme) :
    Stands (tokensOf ls) (Place.initial.afterAll ls).segment := by
  induction ls using List.reverseRecOn with
  | nil => exact .search (by simp)
  | append_singleton ls l ih =>
    rw [tokensOf_append, Place.afterAll_append]
    obtain ⟨piece, start, text⟩ := l
    cases piece with
    | token kind => exact ih.after ⟨kind, _, _⟩
    | blank | comment | fault =>
      show Stands (tokensOf ls ++ []) (Place.initial.afterAll ls).segment
      rw [List.append_nil]
      exact ih

/-- After lexemes the lexer knows whether their text ends with a blank or is empty. -/
theorem fresh_afterAll {ls : List Lexeme} (h : ∀ l ∈ ls, l.text ≠ []) :
    (Place.initial.afterAll ls).fresh = (texts ls).getLast?.all isBlank := by
  rcases List.eq_nil_or_concat ls with rfl | ⟨ls, l, rfl⟩
  · rfl
  · have hl : l.text ≠ [] := h l (by simp)
    simp [Place.after, List.getLast?_eq_some_getLast hl]

end LogSearch.Query
