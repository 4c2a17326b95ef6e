import Mathlib.Data.List.Forall2
import LogSearch.Proofs.Query.Acceptance

/-!
# Two runs side by side

A reader is run twice on tokens that are alike. In the second run the segment may be followed by
more tokens in place of its end, and may end otherwise.

* `Pairing`: which tokens are alike, and how the segment ends in each run.
* `Sees`: two cursors before the same tokens of the segment.
* `SameProblem`: problems that differ in their place, or in how the end of the segment is described.
* `Agree`: two readers give the same from such cursors, and stay within the segment.
* `Agree.bind` and the rules after it: readers that are put together agree when their parts do.
-/

namespace LogSearch.Query

variable {α β γ δ : Type}

/-- Two runs over a segment. -/
structure Pairing where
  /-- Tokens of the segment that stand for each other. -/
  same : Token → Token → Prop
  kind_eq : ∀ {t t'}, same t t' → t.kind = t'.kind
  text_eq : ∀ {t t'}, same t t' → t.text = t'.text
  /-- What the first run finds after the segment. -/
  stop : Token
  /-- The tokens behind the segment that the second run can still take. -/
  behind : List Token
  /-- What the second run finds after them. -/
  final : Token
  ends : EndsSegment stop
  ends_behind : EndsSegment (behind.headD final)

namespace Pairing

variable (P : Pairing)

/-- What the second run finds after the segment. -/
def stop' : Token := P.behind.headD P.final

/-- What the second run finds behind the segment ends it. -/
theorem ends' : EndsSegment P.stop' := P.ends_behind

/-- Two cursors before the tokens `ts` of the segment. -/
structure Sees (c c' : Cursor) (ts : List Token) : Prop where
  rest : c.rest = ts
  rest' : ∃ ts', c'.rest = ts' ++ P.behind ∧ List.Forall₂ P.same ts ts'
  stop : c.stop = P.stop
  final : c'.stop = P.final
  inside : ∀ t ∈ ts, ¬ EndsSegment t

/-- Problems that two runs have at the same token, or both at the end of the segment. -/
inductive SameProblem : Problem → Problem → Prop
  | within {t t' : Token} {fault : SyntaxFault} {expected : List String} : P.same t t' →
      SameProblem ⟨fault, t.span, expected⟩ ⟨fault, t'.span, expected⟩
  | atEnd {expected : List String} :
      SameProblem ⟨.unexpected P.stop.kind, P.stop.span, expected⟩
        ⟨.unexpected P.stop'.kind, P.stop'.span, expected⟩

/-- Results of two runs: related values with at most `n` tokens left, or the same problem; in either
case at most `m` tokens are left. -/
inductive Meets (R : α → β → Prop) (n m : Nat) :
    EStateM.Result Problem Cursor α → EStateM.Result Problem Cursor β → Prop
  | ok {a : α} {b : β} {d d' : Cursor} {us : List Token} : R a b → P.Sees d d' us →
      us.length ≤ n → us.length ≤ m → Meets R n m (.ok a d) (.ok b d')
  | error {e e' : Problem} {d d' : Cursor} {us : List Token} : P.SameProblem e e' →
      P.Sees d d' us → us.length ≤ m → Meets R n m (.error e d) (.error e' d')

/-- Before the tokens `ts` two readers give related values and leave at most `n` tokens, or they
have the same problem. -/
def Agree (R : α → β → Prop) (n : Nat) (ts : List Token) (p : Parser α) (q : Parser β) : Prop :=
  ∀ c c', P.Sees c c' ts → P.Meets R n ts.length (p.run c) (q.run c')

/-- What is seen next in two runs. -/
inductive Next : List Token → Token → Token → Prop
  | inside {t t' : Token} {ts : List Token} : P.same t t' → ¬ EndsSegment t → Next (t :: ts) t t'
  | atEnd : Next [] P.stop P.stop'

end Pairing

open LogSearch.Query.Parser

variable {P : Pairing} {R : α → β → Prop} {S : γ → δ → Prop} {ts us : List Token} {n m : Nat}
  {c c' : Cursor} {p : Parser α} {q : Parser β} {f : α → Parser γ} {g : β → Parser δ}

/-! ## Cursors -/

namespace Pairing.Sees

/-- The second cursor has at least as many tokens ahead. -/
theorem le_length (h : P.Sees c c' ts) : ts.length ≤ c'.rest.length := by
  obtain ⟨ts', hrest', hsame⟩ := h.rest'
  rw [hrest', List.length_append, hsame.length_eq]
  exact Nat.le_add_right ..

/-- What comes next in the two runs goes together. -/
theorem next (h : P.Sees c c' ts) : P.Next ts c.next c'.next := by
  obtain ⟨ts', hrest', hsame⟩ := h.rest'
  cases hsame with
  | nil =>
    have hnext : c.next = P.stop := by simp [Cursor.next, h.rest, h.stop]
    have hnext' : c'.next = P.stop' := by
      rw [Cursor.next, hrest', List.nil_append, h.final]
      rfl
    rw [hnext, hnext']
    exact .atEnd
  | @cons t t' ts ts' ht hts =>
    have hnext : c.next = t := by simp [Cursor.next, h.rest]
    have hnext' : c'.next = t' := by simp [Cursor.next, hrest']
    rw [hnext, hnext']
    exact .inside ht (h.inside _ List.mem_cons_self)

/-- After a token both cursors are before the others. -/
theorem advanced {t : Token} (h : P.Sees c c' (t :: ts)) : P.Sees c.advanced c'.advanced ts := by
  obtain ⟨ts', hrest', hsame⟩ := h.rest'
  cases hsame with
  | @cons _ t' _ ts' ht hts =>
    have hadv : c.advanced = { c with rest := ts, lastStop := t.span.stop } := by
      rw [Cursor.advanced, h.rest]
    have hadv' : c'.advanced = { c' with rest := ts' ++ P.behind, lastStop := t'.span.stop } := by
      rw [Cursor.advanced, hrest']
      rfl
    rw [hadv, hadv']
    exact ⟨rfl, ⟨ts', rfl, hts⟩, h.stop, h.final,
      fun u hu => h.inside u (List.mem_cons_of_mem _ hu)⟩

/-- Marks do not change what cursors are before. -/
theorem marked (h : P.Sees c c' ts) (marks marks' : Marks) :
    P.Sees (c.marked marks) (c'.marked marks') ts :=
  ⟨h.rest, h.rest', h.stop, h.final, h.inside⟩

/-- What comes after the next token goes together as well. -/
theorem second {t : Token} (h : P.Sees c c' (t :: ts)) :
    P.Next ts (Parser.second c) (Parser.second c') := by
  have hnext {c : Cursor} (hc : c.rest ≠ []) : Parser.second c = c.advanced.next := by
    rcases c with ⟨_ | ⟨_, _ | _⟩, _⟩
    · exact absurd rfl hc
    · rfl
    · rfl
  obtain ⟨ts', hrest', hsame⟩ := h.rest'
  rw [hnext (by simp [h.rest]), hnext (by cases hsame; simp [hrest'])]
  exact h.advanced.next

end Pairing.Sees

namespace Pairing.Next

variable {t t' : Token}

/-- A table that makes no difference between the ends of segments reads both tokens alike. -/
theorem congr {F : TokenKind → α} (h : P.Next ts t t') (hF : F (.symbol .pipe) = F .endOfInput) :
    F t.kind = F t'.kind := by
  cases h with
  | inside ht => rw [P.kind_eq ht]
  | atEnd => rcases P.ends with h | h <;> rcases P.ends' with h' | h' <;> simp [h, h', hF]

/-- A next token of a kind other than the ends of segments is in the segment. -/
theorem eq_cons {k : TokenKind} (h : P.Next ts t t') (hk : t.kind = k) (hp : k ≠ .symbol .pipe)
    (he : k ≠ .endOfInput) : ∃ us, ts = t :: us ∧ P.same t t' := by
  cases h with
  | inside ht => exact ⟨_, rfl, ht⟩
  | atEnd =>
    rcases P.ends with h | h
    · exact absurd (hk.symm.trans h) hp
    · exact absurd (hk.symm.trans h) he

/-- So is a next token of which a table holds something that it lacks for the ends of segments. -/
theorem eq_cons_of_some {F : TokenKind → Option α} {a : α} (h : P.Next ts t t')
    (ha : F t.kind = some a) (hp : F (.symbol .pipe) = none) (he : F .endOfInput = none) :
    ∃ us, ts = t :: us ∧ P.same t t' :=
  h.eq_cons rfl (fun hk => by simp [hk, hp] at ha) fun hk => by simp [hk, he] at ha

/-- So is one for which a test holds that fails for the ends of segments. -/
theorem eq_cons_of_test {F : TokenKind → Bool} (h : P.Next ts t t') (ha : F t.kind = true)
    (hp : F (.symbol .pipe) = false) (he : F .endOfInput = false) : ∃ us, ts = t :: us :=
  (h.eq_cons rfl (fun hk => by simp [hk, hp] at ha) fun hk => by simp [hk, he] at ha).imp
    fun _ => And.left

/-- Both tokens are of a kind that ends no segment, and then in the segment, or neither is. -/
theorem is_or_not {k : TokenKind} (h : P.Next ts t t') (hp : k ≠ .symbol .pipe)
    (he : k ≠ .endOfInput) :
    (t.kind = k ∧ t'.kind = k ∧ ∃ us, ts = t :: us) ∨ (t.kind ≠ k ∧ t'.kind ≠ k) := by
  have hsame : (t.kind = k) = (t'.kind = k) :=
    h.congr (F := fun kind => kind = k) (by simp [hp.symm, he.symm])
  by_cases hk : t.kind = k
  · obtain ⟨us, hus, -⟩ := h.eq_cons hk hp he
    exact .inl ⟨hk, hsame ▸ hk, us, hus⟩
  · exact .inr ⟨hk, fun hk' => hk (hsame.mpr hk')⟩

/-- To be at different tokens is the same problem. -/
theorem sameProblem (h : P.Next ts t t') (expected : List String) :
    P.SameProblem ⟨.unexpected t.kind, t.span, expected⟩
      ⟨.unexpected t'.kind, t'.span, expected⟩ := by
  cases h with
  | inside ht =>
    rw [P.kind_eq ht]
    exact .within ht
  | atEnd => exact .atEnd

end Pairing.Next

/-! ## Results -/

namespace Pairing.Meets

variable {k : Nat} {r : EStateM.Result Problem Cursor α} {r' : EStateM.Result Problem Cursor β}

/-- Results that meet do so under weaker conditions. -/
theorem mono {R' : α → β → Prop} {n' m' : Nat} (h : P.Meets R n m r r')
    (hR : ∀ a b, R a b → R' a b) (hn : n ≤ n') (hm : m ≤ m') : P.Meets R' n' m' r r' := by
  cases h with
  | ok ha hd hn' hm' => exact .ok (hR _ _ ha) hd (Nat.le_trans hn' hn) (Nat.le_trans hm' hm)
  | error he hd hm' => exact .error he hd (Nat.le_trans hm' hm)

end Pairing.Meets

/-! ## Rules -/

namespace Pairing.Agree

/-- Readers that agree do so with more tokens left. -/
theorem mono (h : P.Agree R m ts p q) (hn : m ≤ n) : P.Agree R n ts p q :=
  fun c c' hc => (h c c' hc).mono (fun _ _ ha => ha) hn (Nat.le_refl _)

/-- Values that are related agree, and nothing is read. -/
theorem pure {a : α} {b : β} (h : R a b) (hn : ts.length ≤ n) :
    P.Agree R n ts (pure a) (pure b) :=
  fun _ _ hc => .ok h hc hn (Nat.le_refl _)

/-- Readers agree whose first parts do, and whose second parts do on what these leave. -/
theorem bind (hp : P.Agree R m ts p q)
    (hf : ∀ a b us, R a b → us.length ≤ m → us.length ≤ ts.length → P.Agree S n us (f a) (g b)) :
    P.Agree S n ts (p >>= f) (q >>= g) := by
  intro c c' hc
  have hpq := hp c c' hc
  rw [EStateM.run_bind, EStateM.run_bind]
  generalize p.run c = r at hpq ⊢
  generalize q.run c' = r' at hpq ⊢
  cases hpq with
  | ok hR hd hm hl => exact (hf _ _ _ hR hm hl _ _ hd).mono (fun _ _ h => h) (Nat.le_refl _) hl
  | error he hd hl => exact .error he hd hl

/-- So do they whose first parts give the same value. -/
theorem andThen {p q : Parser α} {f : α → Parser γ} {g : α → Parser δ} (hp : P.Agree Eq m ts p q)
    (hf : ∀ a us, us.length ≤ m → us.length ≤ ts.length → P.Agree S n us (f a) (g a)) :
    P.Agree S n ts (p >>= f) (q >>= g) := by
  refine hp.bind fun a b us heq hm hle => ?_
  subst heq
  exact hf a us hm hle

/-- What is made of that value. -/
theorem ret {p q : Parser α} {F : α → γ} (hp : P.Agree Eq m ts p q) (hm : m ≤ n) :
    P.Agree Eq n ts (p >>= fun a => Pure.pure (F a)) (q >>= fun a => Pure.pure (F a)) :=
  hp.andThen fun _ _ hus _ => pure rfl (Nat.le_trans hus hm)

/-- Readers that agree do so after a function. -/
theorem map {p q : Parser α} {F : α → γ} (hp : P.Agree Eq n ts p q) :
    P.Agree Eq n ts (F <$> p) (F <$> q) := by
  rw [← bind_pure_comp, ← bind_pure_comp]
  exact hp.ret (Nat.le_refl _)

/-- A problem at tokens that are alike. -/
theorem fail {t t' : Token} {fault : SyntaxFault} {expected : List String} (h : P.same t t') :
    P.Agree R n ts (throw ⟨fault, t.span, expected⟩) (throw ⟨fault, t'.span, expected⟩) :=
  fun _ _ hc => .error (.within h) hc (Nat.le_refl _)

/-- Readers that expect the same have the same problem. -/
theorem unexpected (expected : List String) :
    P.Agree R n ts (unexpected expected) (unexpected expected) :=
  fun _ _ hc => .error (hc.next.sameProblem expected) hc (Nat.le_refl _)

/-- Readers agree if they do after whatever is seen next. -/
theorem peek {f g : Token → Parser γ} {T : γ → γ → Prop}
    (h : ∀ t t', P.Next ts t t' → P.Agree T n ts (f t) (g t')) :
    P.Agree T n ts (Parser.peek >>= f) (Parser.peek >>= g) := by
  intro c c' hc
  rw [run_bind_of_ok (run_peek c), run_bind_of_ok (run_peek c')]
  exact h _ _ hc.next c c' hc

/-- Readers that go on in one way at every end of a segment. -/
theorem peekOrElse {f g : Token → Parser γ} {T : γ → γ → Prop} {e e' : Parser γ}
    (hends : ∀ t, EndsSegment t → f t = e ∧ g t = e') (he : P.Agree T n ts e e')
    (h : ∀ t t' us, ts = t :: us → P.same t t' → P.Agree T n ts (f t) (g t')) :
    P.Agree T n ts (Parser.peek >>= f) (Parser.peek >>= g) := by
  refine peek fun t t' ht => ?_
  cases ht with
  | inside ht => exact h t t' _ rfl ht
  | atEnd => rwa [(hends _ P.ends).1, (hends _ P.ends').2]

/-- Readers that fail in the same way at every end of a segment. -/
theorem peekInside {f g : Token → Parser γ} {T : γ → γ → Prop} (expected : List String)
    (hends : ∀ t, EndsSegment t →
      f t = Parser.unexpected expected ∧ g t = Parser.unexpected expected)
    (h : ∀ t t' us, ts = t :: us → P.same t t' → P.Agree T n ts (f t) (g t')) :
    P.Agree T n ts (Parser.peek >>= f) (Parser.peek >>= g) :=
  peekOrElse hends (unexpected expected) h

/-- Readers agree if they do after whatever is seen behind the next token. -/
theorem peekSecond {f g : Token → Parser γ} {T : γ → γ → Prop}
    (h : ∀ u u', (∀ t us, ts = t :: us → P.Next us u u') → P.Agree T n ts (f u) (g u')) :
    P.Agree T n ts (Parser.peekSecond >>= f) (Parser.peekSecond >>= g) := by
  intro c c' hc
  rw [run_bind_of_ok (run_peekSecond c), run_bind_of_ok (run_peekSecond c')]
  refine h _ _ (fun t us hts => ?_) c c' hc
  subst hts
  exact hc.second

/-- Readers agree if they do at all cursors before these tokens. -/
theorem get {f g : Cursor → Parser γ} {T : γ → γ → Prop}
    (h : ∀ c c', P.Sees c c' ts → P.Agree T n ts (f c) (g c')) :
    P.Agree T n ts (get >>= f) (get >>= g) := by
  intro c c' hc
  rw [run_bind_of_ok (EStateM.run_get c), run_bind_of_ok (EStateM.run_get c')]
  exact h c c' hc c c' hc

section

variable {f g : Bool → Parser γ} {T : γ → γ → Prop}

/-- Readers agree if they do where a symbol is next and where it is not. -/
theorem isAt {s : Symbol} (hs : s ≠ .pipe)
    (hyes : ∀ t us, ts = t :: us → t.kind = .symbol s → P.Agree T n ts (f true) (g true))
    (hno : P.Agree T n ts (f false) (g false)) :
    P.Agree T n ts (Parser.isAt s >>= f) (Parser.isAt s >>= g) := by
  intro c c' hc
  rw [run_bind_of_ok (run_isAt s c), run_bind_of_ok (run_isAt s c')]
  rcases hc.next.is_or_not (k := .symbol s) (by simpa using hs) (by simp) with
    ⟨hk, hk', us, hus⟩ | ⟨hk, hk'⟩
  · rw [decide_eq_true hk, decide_eq_true hk']
    exact hyes _ us hus hk c c' hc
  · rw [decide_eq_false hk, decide_eq_false hk']
    exact hno c c' hc

/-- Readers agree if they do where a keyword is next and where it is not. -/
theorem isAtKeyword {k : Keyword}
    (hyes : ∀ t us, ts = t :: us → t.kind = .keyword k → P.Agree T n ts (f true) (g true))
    (hno : P.Agree T n ts (f false) (g false)) :
    P.Agree T n ts (Parser.isAtKeyword k >>= f) (Parser.isAtKeyword k >>= g) := by
  intro c c' hc
  rw [run_bind_of_ok (run_isAtKeyword k c), run_bind_of_ok (run_isAtKeyword k c')]
  rcases hc.next.is_or_not (k := .keyword k) (by simp) (by simp) with
    ⟨hk, hk', us, hus⟩ | ⟨hk, hk'⟩
  · rw [decide_eq_true hk, decide_eq_true hk']
    exact hyes _ us hus hk c c' hc
  · rw [decide_eq_false hk, decide_eq_false hk']
    exact hno c c' hc

/-- A comma is taken or nothing is. -/
theorem eatComma (hyes : ∀ t us, ts = t :: us → P.Agree T n us (f true) (g true))
    (hno : P.Agree T n ts (f false) (g false)) :
    P.Agree T n ts (Parser.eatComma >>= f) (Parser.eatComma >>= g) := by
  intro c c' hc
  rcases hc.next.is_or_not (k := .symbol .comma) (by simp) (by simp) with
    ⟨hk, hk', us, rfl⟩ | ⟨hk, hk'⟩
  · rw [run_bind_of_ok (a := true) (d := c.advanced) (by simp [hk]),
      run_bind_of_ok (a := true) (d := c'.advanced) (by simp [hk'])]
    exact (hyes _ us rfl _ _ hc.advanced).mono (fun _ _ h => h) (Nat.le_refl _) (Nat.le_succ _)
  · rw [run_bind_of_ok (a := false) (d := c) (by simp [hk]),
      run_bind_of_ok (a := false) (d := c') (by simp [hk'])]
    exact hno c c' hc

end

section

variable {f g : Unit → Parser γ} {T : γ → γ → Prop} {t : Token}

/-- Readers agree on tokens if they do behind the first one. -/
theorem advance (h : P.Agree T n ts (f ()) (g ())) :
    P.Agree T n (t :: ts) (Parser.advance >>= f) (Parser.advance >>= g) := by
  intro c c' hc
  rw [run_bind_of_ok (run_advance c), run_bind_of_ok (run_advance c')]
  exact (h _ _ hc.advanced).mono (fun _ _ h => h) (Nat.le_refl _) (Nat.le_succ _)

/-- Readers agree on tokens if they do behind the first one, whatever it is marked as. -/
theorem take {kind : HighlightKind} (h : P.Agree T n ts (f ()) (g ())) :
    P.Agree T n (t :: ts) (Parser.take kind >>= f) (Parser.take kind >>= g) := by
  intro c c' hc
  rw [run_bind_of_ok (run_take kind c), run_bind_of_ok (run_take kind c')]
  exact (h _ _ (hc.advanced.marked _ _)).mono (fun _ _ h => h) (Nat.le_refl _) (Nat.le_succ _)

/-- Readers agree that expect a symbol, if they do behind it. -/
theorem expect {s : Symbol} (hs : s ≠ .pipe)
    (h : ∀ t us, ts = t :: us → P.Agree T n us (f ()) (g ())) :
    P.Agree T n ts (Parser.expect s >>= f) (Parser.expect s >>= g) := by
  intro c c' hc
  rw [EStateM.run_bind, EStateM.run_bind, run_expect, run_expect]
  rcases hc.next.is_or_not (k := .symbol s) (by simpa using hs) (by simp) with
    ⟨hk, hk', us, rfl⟩ | ⟨hk, hk'⟩
  · rw [if_pos hk, if_pos hk']
    exact (h _ us rfl _ _ hc.advanced).mono (fun _ _ h => h) (Nat.le_refl _) (Nat.le_succ _)
  · rw [if_neg hk, if_neg hk']
    exact .error (hc.next.sameProblem _) hc (Nat.le_refl _)

/-- Readers agree that expect an operator, if they do behind it. -/
theorem expectOperator {s : Symbol} (hs : s ≠ .pipe)
    (h : ∀ t us, ts = t :: us → P.Agree T n us (f ()) (g ())) :
    P.Agree T n ts (Parser.expectOperator s >>= f) (Parser.expectOperator s >>= g) := by
  intro c c' hc
  rw [EStateM.run_bind, EStateM.run_bind, run_expectOperator, run_expectOperator]
  rcases hc.next.is_or_not (k := .symbol s) (by simpa using hs) (by simp) with
    ⟨hk, hk', us, rfl⟩ | ⟨hk, hk'⟩
  · rw [if_pos hk, if_pos hk']
    exact (h _ us rfl _ _ (hc.advanced.marked _ _)).mono (fun _ _ h => h) (Nat.le_refl _)
      (Nat.le_succ _)
  · rw [if_neg hk, if_neg hk']
    exact .error (hc.next.sameProblem _) hc (Nat.le_refl _)

end

/-- Both runs go on one way where the next token is of a kind that ends no segment, and another
way where it is not. -/
theorem ifKind {f f' g g' : Parser γ} {T : γ → γ → Prop} {k : TokenKind} {t t' : Token}
    (h : P.Next ts t t') (hp : k ≠ .symbol .pipe) (he : k ≠ .endOfInput)
    (hyes : ∀ us, ts = t :: us → P.Agree T n ts f f') (hno : P.Agree T n ts g g') :
    P.Agree T n ts (if t.kind = k then f else g) (if t'.kind = k then f' else g') := by
  rcases h.is_or_not hp he with ⟨hk, hk', us, hus⟩ | ⟨hk, hk'⟩
  · rw [if_pos hk, if_pos hk']
    exact hyes us hus
  · rw [if_neg hk, if_neg hk']
    exact hno

/-- Readers that only leave marks. -/
def OnlyMarks (p : Parser α) : Prop := ∀ c, ∃ a marks, p.run c = .ok a (c.marked marks)

/-- Marks that are left before do not matter. -/
theorem marks {p : Parser α} {q : Parser β} {f : α → Parser γ} {g : β → Parser δ}
    (hp : OnlyMarks p) (hq : OnlyMarks q) (h : ∀ a b, P.Agree S n ts (f a) (g b)) :
    P.Agree S n ts (p >>= f) (q >>= g) := by
  intro c c' hc
  obtain ⟨a, m, ha⟩ := hp c
  obtain ⟨b, m', hb⟩ := hq c'
  rw [run_bind_of_ok ha, run_bind_of_ok hb]
  exact h a b _ _ (hc.marked m m')

/-- Opening a marker leaves marks only. -/
theorem OnlyMarks.openMarker (kind : MarkerKind) : OnlyMarks (openMarker kind) :=
  fun _ => ⟨_, _, rfl⟩

/-- Settling a marker leaves marks only. -/
theorem OnlyMarks.settle (id : Nat) : OnlyMarks (settle id) := fun c => ⟨_, _, run_settle id c⟩

/-- Suggesting something leaves marks only. -/
theorem OnlyMarks.suggest (kind : MarkerKind) : OnlyMarks (suggest kind) :=
  fun c => ⟨_, _, run_suggest kind c⟩

/-- A change of the marks leaves marks only. -/
theorem OnlyMarks.modify (change : Cursor → Marks) :
    OnlyMarks (modify fun c => { c with marks := change c }) := fun _ => ⟨_, _, rfl⟩

/-- What is suggested before does not matter. -/
theorem suggest {f g : Unit → Parser γ} {T : γ → γ → Prop} {kind : MarkerKind}
    (h : P.Agree T n ts (f ()) (g ())) :
    P.Agree T n ts (Parser.suggest kind >>= f) (Parser.suggest kind >>= g) :=
  marks (OnlyMarks.suggest kind) (OnlyMarks.suggest kind) fun _ _ => h

/-- Readers agree that try something, if they do after its value and after its problem. -/
theorem attempt {f : Except Problem α → Parser γ} {g : Except Problem β → Parser δ}
    (hp : P.Agree R m ts p q)
    (hok : ∀ a b us, R a b → us.length ≤ m → us.length ≤ ts.length →
      P.Agree S n us (f (.ok a)) (g (.ok b)))
    (herror : ∀ e e' us, P.SameProblem e e' → us.length ≤ ts.length →
      P.Agree S n us (f (.error e)) (g (.error e'))) :
    P.Agree S n ts (attempt p >>= f) (attempt q >>= g) := by
  intro c c' hc
  have hpq := hp c c' hc
  rw [EStateM.run_bind, EStateM.run_bind, run_attempt, run_attempt]
  generalize p.run c = r at hpq ⊢
  generalize q.run c' = r' at hpq ⊢
  cases hpq with
  | ok hR hd hm hl => exact (hok _ _ _ hR hm hl _ _ hd).mono (fun _ _ h => h) (Nat.le_refl _) hl
  | error he hd hl => exact (herror _ _ _ he hl _ _ hd).mono (fun _ _ h => h) (Nat.le_refl _) hl

end Pairing.Agree

end LogSearch.Query
