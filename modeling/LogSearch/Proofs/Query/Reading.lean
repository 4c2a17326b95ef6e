import Mathlib.Order.Basic
import Mathlib.Tactic.SplitIfs
import LogSearch.Proofs.Query.Grammar

/-!
# Running readers

How the parts of a reader run, without their marks: a reader sees the tokens of its segment and,
after them, a pipe or the end of input.

* `Cursor.At`: a cursor before the given tokens of its segment.
* `Parser.run_*`: the runs of the smallest readers.
* `Reads`: a reader takes what a production writes, and everything that the production writes.
-/

namespace LogSearch.Query

variable {α β : Type}

/-! ## Cursors -/

/-- The next token; after the segment, what ends it. -/
def Cursor.next (c : Cursor) : Token := c.rest.headD c.stop

/-- The cursor after the next token. -/
def Cursor.advanced (c : Cursor) : Cursor :=
  match c.rest with
  | [] => c
  | t :: rest => { c with rest := rest, lastStop := t.span.stop }

/-- The cursor with other marks. -/
def Cursor.marked (c : Cursor) (marks : Marks) : Cursor := { c with marks := marks }

/-- The cursor is before the given tokens, and after them its segment ends. -/
structure Cursor.At (c : Cursor) (ts : List Token) : Prop where
  rest : c.rest = ts
  ends : c.stop.kind = .symbol .pipe ∨ c.stop.kind = .endOfInput

namespace Cursor.At

variable {c : Cursor} {t : Token} {ts : List Token}

/-- In a segment comes its next token. -/
theorem next_eq (h : c.At (t :: ts)) : c.next = t := by simp [Cursor.next, h.rest]

/-- Behind a segment comes a pipe or the end of input. -/
theorem next_nil (h : c.At []) : c.next.kind = .symbol .pipe ∨ c.next.kind = .endOfInput := by
  simpa [Cursor.next, h.rest] using h.ends

/-- Behind a token the cursor is before the others. -/
theorem advanced (h : c.At (t :: ts)) : c.advanced.At ts := by
  have hr := h.rest
  unfold Cursor.advanced
  split
  · next hn => simp [hn] at hr
  · next hn =>
    rw [hn] at hr
    cases hr
    exact ⟨rfl, h.ends⟩

/-- Marks do not move a cursor. -/
theorem marked (h : c.At ts) (marks : Marks) : (c.marked marks).At ts := ⟨h.rest, h.ends⟩

/-- A next token that does not end a segment stands in the segment. -/
theorem eq_cons {k : TokenKind} (h : c.At ts) (hk : c.next.kind = k) (hp : k ≠ .symbol .pipe)
    (he : k ≠ .endOfInput) : ∃ us, ts = c.next :: us := by
  cases ts with
  | nil =>
    rcases h.next_nil with hn | hn
    · exact absurd (hk.symm.trans hn) hp
    · exact absurd (hk.symm.trans hn) he
  | cons t us => exact ⟨us, by rw [h.next_eq]⟩

/-- So does a next token of which a table holds something that it lacks for the ends of segments. -/
theorem eq_cons_of_some {f : TokenKind → Option β} {b : β} (h : c.At ts)
    (hb : f c.next.kind = some b) (hp : f (.symbol .pipe) = none) (he : f .endOfInput = none) :
    ∃ us, ts = c.next :: us :=
  h.eq_cons rfl (fun hk => by simp [hk, hp] at hb) fun hk => by simp [hk, he] at hb

end Cursor.At

/-- Marks do not change what comes next. -/
@[simp] theorem Cursor.next_marked (c : Cursor) (marks : Marks) : (c.marked marks).next = c.next :=
  rfl

namespace Parser

/-! ## Runs -/

/-- Behind a reader that gives a value comes what is made of it. -/
theorem run_bind_of_ok {p : Parser α} {f : α → Parser β} {c d : Cursor} {a : α}
    (h : p.run c = .ok a d) : (p >>= f).run c = (f a).run d := by rw [EStateM.run_bind, h]

/-- Two readers give a value if both do, one behind the other. -/
theorem run_bind_eq_ok {p : Parser α} {f : α → Parser β} {c e : Cursor} {b : β}
    (h : (p >>= f).run c = .ok b e) : ∃ a d, p.run c = .ok a d ∧ (f a).run d = .ok b e := by
  rw [EStateM.run_bind] at h
  split at h
  · next a d ha => exact ⟨a, d, ha, h⟩
  · simp at h

/-- A function is applied to what a reader gives. -/
@[simp] theorem run_map (f : α → β) (p : Parser α) (c : Cursor) :
    (f <$> p).run c = match p.run c with
      | .ok a d => .ok (f a) d
      | .error e d => .error e d := by
  rw [← bind_pure_comp, EStateM.run_bind]
  cases p.run c <;> rfl

/-- What a function gives is made of what a reader gives. -/
theorem run_map_eq_ok {f : α → β} {p : Parser α} {c d : Cursor} {b : β}
    (h : (f <$> p).run c = .ok b d) : ∃ a, p.run c = .ok a d ∧ f a = b := by
  rw [run_map] at h
  split at h
  · next a e ha =>
    cases h
    exact ⟨a, ha, rfl⟩
  · simp at h

/-- Failing gives the problem where the cursor is. -/
@[simp] theorem run_fail (problem : Problem) (c : Cursor) :
    (throw problem : Parser α).run c = .error problem c := rfl

/-- What is unexpected is the next token. -/
@[simp] theorem run_unexpected (expected : List String) (c : Cursor) :
    (unexpected expected : Parser α).run c =
      .error ⟨.unexpected c.next.kind, c.next.span, expected⟩ c := rfl

/-- Looking ahead gives the next token and moves nothing. -/
@[simp] theorem run_peek (c : Cursor) : peek.run c = .ok c.next c := rfl

/-- The token after the next one. -/
def second (c : Cursor) : Token :=
  match c.rest with
  | [] => c.beyond
  | [_] => c.stop
  | _ :: t :: _ => t

/-- Looking further ahead gives the token after the next one and moves nothing. -/
@[simp] theorem run_peekSecond (c : Cursor) : peekSecond.run c = .ok (second c) c := by
  rcases c with ⟨_ | ⟨_, _ | _⟩, _⟩ <;> rfl

/-- The test of a symbol looks at the next token. -/
@[simp] theorem run_isAt (s : Symbol) (c : Cursor) :
    (isAt s).run c = .ok (c.next.kind = .symbol s) c := rfl

/-- The test of a keyword looks at the next token. -/
@[simp] theorem run_isAtKeyword (k : Keyword) (c : Cursor) :
    (isAtKeyword k).run c = .ok (c.next.kind = .keyword k) c := rfl

/-- Going on moves behind the next token. -/
@[simp] theorem run_advance (c : Cursor) : advance.run c = .ok () c.advanced := rfl

/-- The cursor with a token highlighted. -/
def highlighted (kind : HighlightKind) (t : Token) (c : Cursor) : Cursor :=
  c.marked (c.marks.highlight kind t.span.start t.span.stop)

/-- Highlighting a token moves nothing. -/
@[simp] theorem run_highlight (kind : HighlightKind) (t : Token) (c : Cursor) :
    (highlight kind t).run c = .ok () (highlighted kind t c) := rfl

/-- The cursor after the next token, which has been highlighted. -/
def taken (kind : HighlightKind) (c : Cursor) : Cursor := highlighted kind c.next c.advanced

/-- Taking a token highlights it and moves behind it. -/
@[simp] theorem run_take (kind : HighlightKind) (c : Cursor) :
    (take kind).run c = .ok () (taken kind c) := rfl

/-- An expected symbol is passed over; anything else is a problem. -/
@[simp] theorem run_expect (s : Symbol) (c : Cursor) :
    (expect s).run c = if c.next.kind = .symbol s then .ok () c.advanced
      else .error ⟨.unexpected c.next.kind, c.next.span, ["'" ++ s.text ++ "'"]⟩ c := by
  by_cases h : c.next.kind = .symbol s <;> simp [expect, h]

/-- An expected operator is taken; anything else is a problem. -/
@[simp] theorem run_expectOperator (s : Symbol) (c : Cursor) :
    (expectOperator s).run c = if c.next.kind = .symbol s then .ok () (taken .operator c)
      else .error ⟨.unexpected c.next.kind, c.next.span, ["'" ++ s.text ++ "'"]⟩ c := by
  by_cases h : c.next.kind = .symbol s <;> simp [expectOperator, h, taken]

/-- A comma is passed over, if there is one. -/
@[simp] theorem run_eatComma (c : Cursor) :
    eatComma.run c = if c.next.kind = .symbol .comma then .ok true c.advanced
      else .ok false c := by
  by_cases h : c.next.kind = .symbol .comma <;> simp [eatComma, h]

/-- Where a marker for the next token ends. -/
def markerEnd (c : Cursor) : Option Nat :=
  if c.next.kind = .endOfInput then none
  else if (second c).kind = .endOfInput ∧ c.next.span.stop = (second c).span.start then none
  else some (second c).span.start

/-- A marker ends where the token after the next one starts. -/
@[simp] theorem run_markerStop (c : Cursor) : markerStop.run c = .ok (markerEnd c) c := by
  simp [markerStop, markerEnd]

/-- The cursor after a marker has been opened. -/
def opened (kind : MarkerKind) (c : Cursor) : Cursor :=
  c.marked (c.marks.openMarker kind c.lastStop)

/-- Opening a marker gives its number. -/
@[simp] theorem run_openMarker (kind : MarkerKind) (c : Cursor) :
    (openMarker kind).run c = .ok c.marks.markers.length (opened kind c) := rfl

/-- The cursor after a marker has been closed. -/
def settled (id : Nat) (c : Cursor) : Cursor := c.marked (c.marks.close id (markerEnd c))

/-- Settling a marker closes it where the next token ends. -/
@[simp] theorem run_settle (id : Nat) (c : Cursor) :
    (settle id).run c = .ok () (settled id c) := by
  simp [settle, settled, Cursor.marked]

/-- The cursor after a marker has been left for the next token. -/
def suggested (kind : MarkerKind) (c : Cursor) : Cursor :=
  settled c.marks.markers.length (opened kind c)

/-- A suggestion is a marker for the next token. -/
@[simp] theorem run_suggest (kind : MarkerKind) (c : Cursor) :
    (suggest kind).run c = .ok () (suggested kind c) := by
  simp [suggest, suggested]

/-- A suggestion does not change what comes next. -/
@[simp] theorem next_suggested (kind : MarkerKind) (c : Cursor) :
    (suggested kind c).next = c.next := rfl

/-- A suggestion does not change what comes after the next token. -/
@[simp] theorem second_suggested (kind : MarkerKind) (c : Cursor) :
    second (suggested kind c) = second c := rfl

end Parser

namespace Cursor.At

open LogSearch.Query.Parser

variable {c : Cursor} {t : Token} {ts : List Token}

/-- Behind a token that is taken the cursor is before the others. -/
theorem taken (h : c.At (t :: ts)) (kind : HighlightKind) : (Parser.taken kind c).At ts :=
  h.advanced.marked _

/-- A suggestion does not move a cursor. -/
theorem suggested (h : c.At ts) (kind : MarkerKind) : (Parser.suggested kind c).At ts :=
  (h.marked _).marked _

/-- Opening a marker does not move a cursor. -/
theorem opened (h : c.At ts) (kind : MarkerKind) : (Parser.opened kind c).At ts := h.marked _

/-- Settling a marker does not move a cursor. -/
theorem settled (h : c.At ts) (id : Nat) : (Parser.settled id c).At ts := h.marked _

/-- In a segment the token after the next one is the second one. -/
theorem second_eq {u : Token} (h : c.At (t :: u :: ts)) : second c = u := by
  simp [second, h.rest]

/-- At the last token of a segment, what comes after it ends the segment. -/
theorem second_single (h : c.At [t]) :
    (second c).kind = .symbol .pipe ∨ (second c).kind = .endOfInput := by
  simpa [second, h.rest] using h.ends

/-- A reader behind an expected symbol gives a value if the symbol is next. -/
theorem expect {s : Symbol} {f : Unit → Parser β} {b : β} {d : Cursor} (hc : c.At ts)
    (hs : s ≠ .pipe) (h : (Parser.expect s >>= f).run c = .ok b d) :
    ∃ us, ts = c.next :: us ∧ c.next.kind = .symbol s ∧ c.advanced.At us ∧
      (f ()).run c.advanced = .ok b d := by
  rw [EStateM.run_bind, run_expect] at h
  by_cases hk : c.next.kind = .symbol s
  · obtain ⟨us, rfl⟩ := hc.eq_cons hk (by simpa using hs) (by simp)
    rw [if_pos hk] at h
    exact ⟨us, rfl, hk, hc.advanced, h⟩
  · simp [hk] at h

end Cursor.At

/-! ## Productions -/

/-- No token ahead continues a production. -/
def Clear (continues : TokenKind → Prop) (ts : List Token) : Prop :=
  ∀ t ∈ ts.head?, ¬ continues t.kind

/-- The next token does not continue what is clear. -/
theorem Clear.next {continues : TokenKind → Prop} {ts : List Token} {c : Cursor}
    (h : Clear continues ts) (hc : c.At ts) (hp : ¬ continues (.symbol .pipe))
    (he : ¬ continues .endOfInput) : ¬ continues c.next.kind := by
  cases ts with
  | nil => rcases hc.next_nil with hk | hk <;> simpa [hk]
  | cons t ts =>
    rw [hc.next_eq]
    exact h t rfl

/-- What is not continued by the next token is clear. -/
theorem Cursor.At.clear {continues : TokenKind → Prop} {ts : List Token} {c : Cursor} (hc : c.At ts)
    (h : ¬ continues c.next.kind) : Clear continues ts := by
  cases ts with
  | nil => simp [Clear]
  | cons t ts => simpa [Clear, hc.next_eq] using h

/-- Where the next token gives nothing, no production goes on with it. -/
theorem Clear.eq_none {f : TokenKind → Option β} {ts : List Token} {c : Cursor}
    (h : Clear (fun k => (f k).isSome) ts) (hc : c.At ts) (hp : f (.symbol .pipe) = none)
    (he : f .endOfInput = none) : f c.next.kind = none := by
  simpa using h.next hc (by simp [hp]) (by simp [he])

/-- What is clear of more is clear of less. -/
theorem Clear.mono {K L : TokenKind → Prop} {ts : List Token} (h : Clear L ts)
    (hk : ∀ k, K k → L k) : Clear K ts := fun t ht hkt => h t ht (hk _ hkt)

/-- Everything is clear of nothing. -/
theorem clear_false {ts : List Token} : Clear (fun _ => False) ts := fun _ _ h => h

/-- The end is clear of everything. -/
theorem clear_nil {continues : TokenKind → Prop} : Clear continues [] := by simp [Clear]

/-- What starts with a token that does not continue a production is clear of it. -/
theorem clear_cons {continues : TokenKind → Prop} {t : Token} {k : TokenKind} {ts : List Token}
    (h : t.kind = k) (hk : ¬ continues k) : Clear continues (t :: ts) := by simpa [Clear, h]

/-- A reader reads a production wherever at most `n` tokens are ahead: what it takes is written by
the production, and what the production writes it takes, unless a token after it continues it. -/
structure Reads (n : Nat) (p : Parser α) (Item : List Token → α → List Token → Prop)
    (continues : TokenKind → Prop) : Prop where
  sound {c d : Cursor} {a : α} {ts : List Token} : c.At ts → ts.length ≤ n → p.run c = .ok a d →
    ∃ us, d.At us ∧ Item ts a us
  complete {c : Cursor} {a : α} {ts us : List Token} : c.At ts → ts.length ≤ n → Item ts a us →
    Clear continues us → ∃ d, p.run c = .ok a d ∧ d.At us

/-- A reader of a production reads what is made of it; more may be asked to come after it. -/
theorem Reads.map {n : Nat} {p : Parser α} {f : α → β} {Item : List Token → α → List Token → Prop}
    {Made : List Token → β → List Token → Prop} {K L : TokenKind → Prop} (h : Reads n p Item K)
    (hmade : ∀ {ts b us}, Made ts b us ↔ ∃ a, Item ts a us ∧ f a = b) (hk : ∀ k, K k → L k) :
    Reads n (f <$> p) Made L where
  sound hc hn hr := by
    obtain ⟨a, ha, rfl⟩ := Parser.run_map_eq_ok hr
    obtain ⟨us, hd, hi⟩ := h.sound hc hn ha
    exact ⟨us, hd, hmade.2 ⟨a, hi, rfl⟩⟩
  complete hc hn hm hus := by
    obtain ⟨a, hi, rfl⟩ := hmade.1 hm
    obtain ⟨d, ha, hd⟩ := h.complete hc hn hi (hus.mono hk)
    exact ⟨d, by simp [ha], hd⟩

/-! ## Repetitions

A reader that takes further items or operands is one step that uses itself on fewer tokens. -/

section

open LogSearch.Query.Parser

variable {Item : List Token → α → List Token → Prop} {K : TokenKind → Prop} {n : Nat}

/-- What is clear of two productions is clear of the first. -/
theorem Clear.left {K L : TokenKind → Prop} {ts : List Token} (h : Clear (fun k => K k ∨ L k) ts) :
    Clear K ts := fun t ht hk => h t ht (.inl hk)

/-- What is clear of two productions is clear of the second. -/
theorem Clear.right {K L : TokenKind → Prop} {ts : List Token}
    (h : Clear (fun k => K k ∨ L k) ts) : Clear L ts := fun t ht hl => h t ht (.inr hl)

/-- Items with commas between them are read as they are written. -/
theorem Reads.separated {item : Parser α} {more : Parser (List α)}
    (hpass : ∀ {ts a us}, Item ts a us → Passes ts us) (hcomma : ¬ K (.symbol .comma))
    (hi : Reads n item Item K)
    (hm : ∀ m < n, Reads m more (Separated Item) fun k => K k ∨ k = .symbol .comma) :
    Reads n (do
      let a ← item
      if ← eatComma then return a :: (← more) else return [a])
      (Separated Item) fun k => K k ∨ k = .symbol .comma where
  sound {c d as ts} hc hn h := by
    obtain ⟨a, c₁, h₁, h⟩ := run_bind_eq_ok h
    obtain ⟨us, hc₁, ha⟩ := hi.sound hc hn h₁
    have hlt := (hpass ha).length_lt
    rw [EStateM.run_bind, run_eatComma] at h
    by_cases hk : c₁.next.kind = .symbol .comma
    · obtain ⟨vs, rfl⟩ := hc₁.eq_cons hk (by simp) (by simp)
      simp only [hk, if_true, bind_pure_comp] at h
      obtain ⟨as, h₂, rfl⟩ := run_map_eq_ok h
      simp only [List.length_cons] at hlt
      obtain ⟨ws, hd, has⟩ := (hm vs.length (by omega)).sound hc₁.advanced (Nat.le_refl _) h₂
      exact ⟨ws, hd, .cons ha hk has⟩
    · simp only [hk, if_false] at h
      cases h
      exact ⟨us, hc₁, .single ha⟩
  complete {c as ts us} hc hn h hus := by
    cases h with
    | single h =>
      obtain ⟨d, h₁, hd⟩ := hi.complete hc hn h hus.left
      have hk := hus.right.next hd (by simp) (by simp)
      exact ⟨d, by simp [h₁, hk], hd⟩
    | @cons a as comma ts vs us h hk has =>
      obtain ⟨c₁, h₁, hc₁⟩ := hi.complete hc hn h (clear_cons hk hcomma)
      have hlt := (hpass h).length_lt
      simp only [List.length_cons] at hlt
      obtain ⟨d, h₂, hd⟩ := (hm vs.length (by omega)).complete hc₁.advanced (Nat.le_refl _) has hus
      exact ⟨d, by simp [h₁, hc₁.next_eq, hk, h₂], hd⟩

variable {op? : TokenKind → Option BinaryOp} {Operand : List Token → Expr → List Token → Prop}
  {l : Expr} {operand : Parser Expr} {more : Expr → Parser Expr}

/-- An operand is read where a further operator or the end of the operands follows. -/
theorem Further.clear {e : Expr} {ts us : List Token} (hop : ∀ k, (op? k).isSome → ¬ K k)
    (h : Further op? Operand l ts e us) (hus : Clear (fun k => K k ∨ (op? k).isSome) us) :
    Clear K ts := by
  cases h with
  | done => exact hus.left
  | join ho _ _ => exact clear_cons rfl (hop _ (by simp [ho]))

/-- Further operands are read as they are written. -/
theorem Reads.further (hpass : ∀ {ts e us}, Operand ts e us → Passes ts us)
    (hop : ∀ k, (op? k).isSome → ¬ K k) (hp : op? (.symbol .pipe) = none)
    (he : op? .endOfInput = none) (ho : ∀ m < n, Reads m operand Operand K)
    (hm : ∀ m < n, ∀ l, Reads m (more l) (Further op? Operand l) fun k => K k ∨ (op? k).isSome) :
    Reads n (do
      match op? (← peek).kind with
      | some op =>
        take .operator
        more (.binary op l (← operand))
      | none => return l)
      (Further op? Operand l) fun k => K k ∨ (op? k).isSome where
  sound {c d e ts} hc hn h := by
    simp only [run_bind_of_ok (run_peek _)] at h
    split at h
    · next op hk =>
      obtain ⟨us, rfl⟩ := hc.eq_cons_of_some hk hp he
      rw [run_bind_of_ok (run_take _ _)] at h
      obtain ⟨r, c₁, h₁, h⟩ := run_bind_eq_ok h
      obtain ⟨vs, hc₁, hr⟩ := (ho us.length hn).sound (hc.taken _) (Nat.le_refl _) h₁
      have hlt := (hpass hr).length_lt
      simp only [List.length_cons] at hn
      obtain ⟨ws, hd, hf⟩ := (hm vs.length (by omega) _).sound hc₁ (Nat.le_refl _) h
      exact ⟨ws, hd, .join hk hr hf⟩
    · cases h
      exact ⟨ts, hc, .done⟩
  complete {c e ts us} hc hn h hus := by
    cases h with
    | done =>
      exact ⟨c, by simp [hus.right.eq_none hc hp he], hc⟩
    | @join l r e op t ts vs us hk hr hf =>
      obtain ⟨c₁, h₁, hc₁⟩ := (ho ts.length hn).complete (hc.taken .operator) (Nat.le_refl _) hr
        (hf.clear hop hus)
      have hlt := (hpass hr).length_lt
      simp only [List.length_cons] at hn
      obtain ⟨d, h₂, hd⟩ := (hm vs.length (by omega) _).complete hc₁ (Nat.le_refl _) hf hus
      exact ⟨d, by simp [hc.next_eq, hk, h₁, h₂], hd⟩

/-- Operands with operators between them are read as they are written. -/
theorem Reads.joined (hpass : ∀ {ts e us}, Operand ts e us → Passes ts us)
    (hop : ∀ k, (op? k).isSome → ¬ K k) (ho : Reads n operand Operand K)
    (hm : ∀ m < n, ∀ l, Reads m (more l) (Further op? Operand l) fun k => K k ∨ (op? k).isSome) :
    Reads n (do more (← operand)) (Joined op? Operand) fun k => K k ∨ (op? k).isSome where
  sound {c d e ts} hc hn h := by
    obtain ⟨l, c₁, h₁, h⟩ := run_bind_eq_ok h
    obtain ⟨us, hc₁, hl⟩ := ho.sound hc hn h₁
    have hlt := (hpass hl).length_lt
    obtain ⟨vs, hd, hf⟩ := (hm us.length (by omega) l).sound hc₁ (Nat.le_refl _) h
    exact ⟨vs, hd, .mk hl hf⟩
  complete {c e ts us} hc hn h hus := by
    cases h with
    | @mk l e ts vs us hl hf =>
      obtain ⟨c₁, h₁, hc₁⟩ := ho.complete hc hn hl (hf.clear hop hus)
      have hlt := (hpass hl).length_lt
      obtain ⟨d, h₂, hd⟩ := (hm vs.length (by omega) l).complete hc₁ (Nat.le_refl _) hf hus
      exact ⟨d, by simp [h₁, h₂], hd⟩

end

end LogSearch.Query
