import LogSearch.Proofs.Query.Classification
import LogSearch.Proofs.Query.Lookahead

/-!
# Reading starts over at a pipe

Behind a pipe the lexer knows that a segment opens, and that no blank stands right before. It would
know the same at the start of a text that begins with the pipe. So what it finds behind a pipe is
what it finds in the text from there on, at other positions.

* `Span.moved`, `Token.moved`, `Lexeme.moved`: positions counted from further left.
* `Lexes.moved`, `Lexes.unique`: the lexemes of a text depend on its place, and on its position only
  by being moved along.
* `exists_lexemes_of_pipe`: what stands before a pipe and behind it.
* `tokenize_restarts`: the tokens and the faults behind a pipe.
-/

namespace LogSearch.Query

open Text (isBlank byteLength)

/-! ## Moving positions -/

/-- A span in a text that stands `n` bytes further right. -/
def Span.moved (n : Nat) (s : Span) : Span := ⟨n + s.start, n + s.stop⟩

/-- A token in a text that stands `n` bytes further right. -/
def Token.moved (n : Nat) (t : Token) : Token := { t with span := t.span.moved n }

/-- A lexeme in a text that stands `n` bytes further right. -/
def Lexeme.moved (n : Nat) (l : Lexeme) : Lexeme := { l with start := n + l.start }

/-- A fault in a text that stands `n` bytes further right. -/
def movedFault (n : Nat) (f : LexFault × Span) : LexFault × Span := (f.1, f.2.moved n)

/-- The span of a lexeme moves with it. -/
theorem Lexeme.span_moved (n : Nat) (l : Lexeme) : (l.moved n).span = l.span.moved n := by
  simp only [Lexeme.span, Lexeme.moved, Span.moved, Nat.add_assoc]

/-- The token of a lexeme moves with it. -/
theorem Lexeme.token?_moved (n : Nat) (l : Lexeme) :
    (l.moved n).token? = l.token?.map (Token.moved n) := by
  obtain ⟨piece, start, text⟩ := l
  cases piece with
  | token kind => exact congrArg some (congrArg (Token.mk kind · _) (Lexeme.span_moved n _))
  | blank | comment | fault => rfl

/-- The fault of a lexeme moves with it. -/
theorem Lexeme.fault?_moved (n : Nat) (l : Lexeme) :
    (l.moved n).fault? = l.fault?.map (movedFault n) := by
  obtain ⟨piece, start, text⟩ := l
  cases piece with
  | fault f => exact congrArg some (congrArg (f, ·) (Lexeme.span_moved n _))
  | blank | comment | token => rfl

/-- The tokens of lexemes move with them. -/
theorem tokensOf_moved (n : Nat) (ls : List Lexeme) :
    tokensOf (ls.map (Lexeme.moved n)) = (tokensOf ls).map (Token.moved n) := by
  unfold tokensOf
  rw [List.filterMap_map, List.map_filterMap]
  exact List.filterMap_congr fun l _ => l.token?_moved n

/-- The faults of lexemes move with them. -/
theorem faultsOf_moved (n : Nat) (ls : List Lexeme) :
    faultsOf (ls.map (Lexeme.moved n)) = (faultsOf ls).map (movedFault n) := by
  unfold faultsOf
  rw [List.filterMap_map, List.map_filterMap]
  exact List.filterMap_congr fun l _ => l.fault?_moved n

namespace Lexes

variable {p : Place} {start : Nat} {text : List Char} {ls more : List Lexeme}

/-- A text further right has the same lexemes there. -/
theorem moved (h : Lexes p start text ls) (n : Nat) :
    Lexes p (n + start) text (ls.map (Lexeme.moved n)) := by
  induction h with
  | nil => exact .nil
  | cons hscan _ ih =>
    rw [← Nat.add_assoc] at ih
    exact .cons hscan ih

/-- The lexer has no choice. -/
theorem unique (h : Lexes p start text ls) (h' : Lexes p start text more) : ls = more := by
  induction h generalizing more with
  | nil =>
    cases h'
    rfl
  | cons hscan _ ih =>
    cases h' with
    | cons hscan' hrest =>
      have hsame := (scan_eq_of_scans hscan).symm.trans (scan_eq_of_scans hscan')
      obtain ⟨rfl, rfl⟩ := Scan.mk.inj hsame
      exact congrArg _ (ih hrest)

end Lexes

/-! ## Behind a pipe -/

/-- The text from a byte on. -/
def textFrom (text : String) (position : Nat) : String :=
  String.Pos.Raw.extract text ⟨position⟩ ⟨text.utf8ByteSize⟩

/-- From the end of a front stands what is behind it. -/
theorem textFrom_eq {text : String} {before behind : List Char}
    (h : text.toList = before ++ behind) :
    textFrom text (byteLength before) = String.ofList behind := by
  have htext : text.toList = before ++ behind ++ [] := by rw [h, List.append_nil]
  have hholds := Span.holds htext
  rw [← Text.byteLength_append, ← h, byteLength_toList] at hholds
  exact hholds.slice

/-- The place behind a pipe. -/
def Place.behindPipe : Place := ⟨.opening, false⟩

/-- A pipe is a single character, and behind it the lexer goes on as if nothing else had been. -/
theorem exists_lexemes_of_pipe {text : List Char} {before after : List Token} {pipe : Token}
    (h : tokensOf (lexemes text) = before ++ pipe :: after) (hpipe : pipe.kind = .symbol .pipe) :
    ∃ front back, lexemes text =
        front ++ ⟨.token (.symbol .pipe), byteLength (texts front), ['|']⟩ :: back ∧
      after = tokensOf back ∧
      pipe.span = ⟨byteLength (texts front), byteLength (texts front) + 1⟩ ∧
      Lexes .behindPipe (byteLength (texts front) + 1) (texts back) back := by
  obtain ⟨front, l, back, hls, hbefore, hl⟩ := exists_lexemes_of_tokens h
  obtain ⟨hpiece, hspan, -⟩ := token?_eq_some hl
  obtain ⟨c, rest, n, -, hshape, hscan⟩ := scans_of_lexemes hls
  have htext : c :: rest.take n = ['|'] := by
    rw [hpiece, hpipe] at hscan
    generalize hkind : Piece.token (.symbol .pipe) = piece at hscan
    cases hscan with
    | symbol hm =>
      cases hkind
      exact symbol?_text hm
    | word => exact absurd (Piece.token.inj hkind).symm wordKind_ne_symbol
    | blank | comment | fault | quoted | backtick => cases hkind
  rw [hpiece, hpipe, htext] at hshape
  subst hshape
  refine ⟨front, back, hls, ?_, hspan, ?_⟩
  · rw [hls, tokensOf_append, hbefore] at h
    have htokens : tokensOf (⟨.token (.symbol .pipe), byteLength (texts front), ['|']⟩ :: back) =
        pipe :: after := List.append_cancel_left h
    rw [tokensOf, List.filterMap_cons_some hl] at htokens
    exact (List.cons.inj htokens).2.symm
  · -- the lexer goes on behind the lexemes up to the pipe
    have hall := lexes_lexemes text
    rw [hls, List.append_cons] at hall
    obtain ⟨behind, -, hback⟩ := hall.of_append
    rw [hback.texts_eq]
    rw [Place.afterAll_append, texts_append, Text.byteLength_append, Nat.zero_add] at hback
    exact hback

/-- A pipe is a token wherever a text starts with it. -/
theorem scan_pipe (rest : List Char) :
    scan .initial '|' rest = ⟨.token (.symbol .pipe), 0⟩ :=
  scan_eq_of_scans (.symbol rfl fun _ => rfl)

/-- The text from a pipe on has the same lexemes behind it, counted from the pipe. -/
theorem lexemes_restarted {start : Nat} {back : List Lexeme}
    (h : Lexes .behindPipe (start + 1) (texts back) back) :
    ∃ again, lexemes ('|' :: texts back) = ⟨.token (.symbol .pipe), 0, ['|']⟩ :: again ∧
      back = again.map (Lexeme.moved start) := by
  obtain ⟨again, hagain⟩ : ∃ again, lexemes ('|' :: texts back) =
      ⟨.token (.symbol .pipe), 0, ['|']⟩ :: again := by
    rw [lexemes, lexemesFrom, scan_pipe]
    exact ⟨_, rfl⟩
  have hall : Lexes .initial 0 ('|' :: texts back)
      ([⟨.token (.symbol .pipe), 0, ['|']⟩] ++ again) := by
    rw [List.singleton_append, ← hagain]
    exact lexes_lexemes _
  obtain ⟨rest, hrest, hlex⟩ := hall.of_append
  obtain rfl : texts back = rest := (List.cons.inj hrest).2
  exact ⟨again, hagain, h.unique (hlex.moved start)⟩

/-- The faults of a text that start behind the first of some lexemes are those of the others. -/
theorem filter_faults_tokenize {text : String} {front back : List Lexeme} {l : Lexeme}
    (h : lexemes text.toList = front ++ l :: back) (hl : l.fault? = none) :
    ((tokenize text).faults.filter fun f => l.span.stop ≤ f.2.start) = faultsOf back := by
  have hpair := List.pairwise_append.1 (h ▸ lexes_lexemes text.toList).pairwise
  have hlt := (h ▸ lexes_lexemes text.toList).start_lt
  have hfront : (faultsOf front).filter (fun f => l.span.stop ≤ f.2.start) = [] := by
    refine List.filter_eq_nil_iff.2 fun f hf => ?_
    obtain ⟨m, hm, hf⟩ := List.mem_filterMap.1 hf
    have hbefore := (hpair.2.2 m hm l List.mem_cons_self).start_lt
    have hself := hlt l (by simp)
    rw [(fault?_eq_some hf).2, decide_eq_true_eq]
    omega
  have hback : (faultsOf back).filter (fun f => l.span.stop ≤ f.2.start) = faultsOf back := by
    refine List.filter_eq_self.2 fun f hf => ?_
    obtain ⟨m, hm, hf⟩ := List.mem_filterMap.1 hf
    rw [(fault?_eq_some hf).2]
    exact decide_eq_true (List.rel_of_pairwise_cons hpair.2.1 hm).stop_le
  have hfaults : (tokenize text).faults = faultsOf front ++ faultsOf back := by
    show (lexemes text.toList).filterMap Lexeme.fault? = _
    rw [h, List.filterMap_append, List.filterMap_cons_none hl]
    rfl
  rw [hfaults, List.filter_append, hfront, hback, List.nil_append]

/-- Behind a pipe all tokens and faults are those of the text that starts with this pipe, at
positions counted from it. So they are the same in any text that goes on alike behind a pipe. -/
theorem tokenize_restarts {text : String} {before after : List Token} {pipe : Token}
    (h : (tokenize text).tokens = before ++ pipe :: after) (hpipe : pipe.kind = .symbol .pipe) :
    let again := tokenize ("|" ++ textFrom text pipe.span.stop)
    ∃ rest, again.tokens = ⟨.symbol .pipe, ⟨0, 1⟩, "|"⟩ :: rest ∧
      after = rest.map (Token.moved pipe.span.start) ∧
      ((tokenize text).faults.filter fun f => pipe.span.stop ≤ f.2.start) =
        again.faults.map (movedFault pipe.span.start) := by
  intro again
  -- the pipe is not the last token, which is the end of input
  rw [tokens_tokenize] at h
  rcases List.eq_nil_or_concat after with rfl | ⟨inside, last, rfl⟩
  · obtain ⟨-, hend⟩ := List.append_inj' h rfl
    rw [← (List.cons.inj hend).1] at hpipe
    cases hpipe
  rw [List.concat_eq_append, ← List.cons_append, ← List.append_assoc] at h
  obtain ⟨htokens, hlast⟩ := List.append_inj' h rfl
  obtain ⟨front, back, hls, rfl, hspan, hback⟩ := exists_lexemes_of_pipe htokens hpipe
  obtain ⟨others, hagain, hmoved⟩ := lexemes_restarted hback
  have htext : text.toList = texts front ++ '|' :: texts back := by
    rw [← (lexes_lexemes text.toList).texts_eq, hls]
    simp
  have hbehind : ("|" ++ textFrom text pipe.span.stop).toList = '|' :: texts back := by
    have hcut : text.toList = (texts front ++ ['|']) ++ texts back := by rw [htext]; simp
    have hfrom := textFrom_eq hcut
    rw [Text.byteLength_append] at hfrom
    rw [hspan]
    show ("|" ++ textFrom text (byteLength (texts front) + byteLength ['|'])).toList = _
    rw [hfrom, String.toList_append, String.toList_ofList]
    rw [String.toList_ofList]
    rfl
  have hsize : text.utf8ByteSize =
      byteLength (texts front) + ("|" ++ textFrom text pipe.span.stop).utf8ByteSize := by
    rw [← byteLength_toList, ← byteLength_toList, hbehind, htext, Text.byteLength_append]
  have htokensAgain : again.tokens =
      ⟨.symbol .pipe, ⟨0, 1⟩, "|"⟩ :: (tokensOf others ++ [⟨.endOfInput,
        ⟨("|" ++ textFrom text pipe.span.stop).utf8ByteSize,
          ("|" ++ textFrom text pipe.span.stop).utf8ByteSize⟩, ""⟩]) := by
    show (tokenize _).tokens = _
    rw [tokens_tokenize, hbehind, hagain]
    rfl
  have hfaultsAgain : again.faults = faultsOf others := by
    show (lexemes (String.toList _)).filterMap Lexeme.fault? = _
    rw [hbehind, hagain]
    rfl
  have hstart : pipe.span.start = byteLength (texts front) := congrArg Span.start hspan
  refine ⟨_, htokensAgain, ?_, ?_⟩
  · rw [List.concat_eq_append, ← (List.cons.inj hlast).1, List.map_append, ← tokensOf_moved, hstart,
      ← hmoved, hsize]
    rfl
  · have hstop : pipe.span.stop = byteLength (texts front) + 1 := congrArg Span.stop hspan
    rw [hfaultsAgain, hstart, ← faultsOf_moved, ← hmoved, hstop]
    exact filter_faults_tokenize hls rfl

/-- A fault stands before a pipe, and another one behind it. -/
theorem tokens_behind_pipe :
    let text := "|where & |sort `c"
    let pipe : Token := ⟨.symbol .pipe, ⟨9, 10⟩, "|"⟩
    let before : List Token :=
      [⟨.symbol .pipe, ⟨0, 1⟩, "|"⟩, ⟨.command .filter, ⟨1, 6⟩, "where"⟩]
    let after : List Token := [⟨.command .sort, ⟨10, 14⟩, "sort"⟩, ⟨.endOfInput, ⟨17, 17⟩, ""⟩]
    let again := tokenize ("|" ++ textFrom text pipe.span.stop)
    (tokenize text).tokens = before ++ pipe :: after ∧ pipe.kind = .symbol .pipe ∧
      ∃ rest, again.tokens = ⟨.symbol .pipe, ⟨0, 1⟩, "|"⟩ :: rest ∧
        after = rest.map (Token.moved pipe.span.start) ∧
        ((tokenize text).faults.filter fun f => pipe.span.stop ≤ f.2.start) =
          again.faults.map (movedFault pipe.span.start) := by
  intro text pipe before after again
  have htokens : (tokenize text).tokens = before ++ pipe :: after := by decide +kernel
  have hpipe : pipe.kind = .symbol .pipe := rfl
  obtain ⟨rest, hagain, hafter, hfaults⟩ := tokenize_restarts htokens hpipe
  exact ⟨htokens, hpipe, rest, hagain, hafter, hfaults⟩

end LogSearch.Query
