import LogSearch.Proofs.Query.Acceptance
import Mathlib.Logic.Relation

/-!
# What a reader does on its way

Whether a reader fails or not, its run is a sequence of small steps: it takes one token, which it
highlights or not, it leaves a marker for the next token, or it changes markers in some other way. So what
holds of the marks of a query text can be proved of one step, and no reader has to be opened again.

* `MarkerChange`: the other changes. Most readers make none.
* `Cursor.Step`: the steps. `shown` are the kinds of tokens that are highlighted where they are taken,
  `may` are the other changes that are made.
* `Parser.Walks`: a reader that does nothing but such steps.
* `Walks.bind` and the rules after it: readers that are put together walk when their parts do.
-/

namespace LogSearch.Query

open LogSearch.Query.Parser

variable {α β γ : Type}

/-- A change to markers that does not leave one for the next token. -/
inductive MarkerChange
  | openMarker (kind : MarkerKind)
  | settle (id : Nat)
  | withhold (id : Nat)
  /-- Offers a marker again, from the last token on. -/
  | offer (id : Nat)

/-- The cursor after a change to markers. -/
def Cursor.changed (c : Cursor) : MarkerChange → Cursor
  | .openMarker kind => opened kind c
  | .settle id => settled id c
  | .withhold id => c.marked (c.marks.disable id)
  | .offer id => c.marked ((c.marks.enable id).restart id c.lastStop)

/-- One step of a reader. -/
inductive Cursor.Step (shown : TokenKind → Bool) (may : MarkerChange → Prop) :
    Cursor → Cursor → Prop
  /-- Takes a token. -/
  | pass {c : Cursor} {t : Token} {ts : List Token} : c.rest = t :: ts → shown t.kind = false →
      Step shown may c c.advanced
  /-- Takes a token and highlights it. -/
  | take {c : Cursor} {t : Token} {ts : List Token} (kind : HighlightKind) : c.rest = t :: ts →
      shown t.kind = true → Step shown may c (taken kind c)
  /-- Leaves a marker for the next token. -/
  | suggest {c : Cursor} (kind : MarkerKind) : Step shown may c (suggested kind c)
  | change {c : Cursor} {change : MarkerChange} : may change → Step shown may c (c.changed change)

/-- Any number of steps. -/
abbrev Cursor.Steps (shown : TokenKind → Bool) (may : MarkerChange → Prop) :
    Cursor → Cursor → Prop := Relation.ReflTransGen (Cursor.Step shown may)

/-- Where a run ends, with a problem or without one. -/
def endOf : EStateM.Result Problem Cursor α → Cursor
  | .ok _ d => d
  | .error _ d => d

/-- Before the tokens `ts` a reader does nothing but steps. -/
def Parser.Walks (shown : TokenKind → Bool) (may : MarkerChange → Prop) (ts : List Token)
    (p : Parser α) : Prop :=
  ∀ c : Cursor, c.At ts → c.Steps shown may (endOf (p.run c))

variable {shown : TokenKind → Bool} {may : MarkerChange → Prop} {ts us : List Token} {c d : Cursor}

/-! ## Cursors -/

/-- A step stays in its segment. -/
theorem Cursor.Step.stop_eq (h : c.Step shown may d) : d.stop = c.stop := by
  cases h with
  | pass hrest _ =>
    unfold Cursor.advanced
    rw [hrest]
  | take kind hrest _ =>
    show c.advanced.stop = c.stop
    unfold Cursor.advanced
    rw [hrest]
  | suggest => rfl
  | @change change => cases change <;> rfl

/-- After steps a cursor is still in its segment. -/
theorem Cursor.Steps.at_rest (h : c.Steps shown may d) (hc : c.At ts) : d.At d.rest := by
  have hstop : d.stop = c.stop := by
    induction h with
    | refl => rfl
    | tail _ hstep ih => rw [hstep.stop_eq, ih]
  exact ⟨rfl, hstop ▸ hc.ends⟩

/-- The token after the next one, where it does not end the segment, stands in the segment. -/
theorem Cursor.At.second_eq_cons {t : Token} {k : TokenKind} (h : c.At (t :: ts))
    (hk : (second c).kind = k) (hp : k ≠ .symbol .pipe) (he : k ≠ .endOfInput) :
    ∃ us, ts = second c :: us := by
  cases ts with
  | nil =>
    rcases h.second_single with hs | hs
    · exact absurd (hk.symm.trans hs) hp
    · exact absurd (hk.symm.trans hs) he
  | cons u us => exact ⟨us, by rw [h.second_eq]⟩

/-- What the token after the next one is like tells that there is one. -/
theorem Cursor.At.second_eq_cons_of_some {t : Token} {f : TokenKind → Option β} {b : β}
    (h : c.At (t :: ts)) (hb : f (second c).kind = some b) (hp : f (.symbol .pipe) = none)
    (he : f .endOfInput = none) : ∃ us, ts = second c :: us :=
  h.second_eq_cons rfl (fun hk => by simp [hk, hp] at hb) fun hk => by simp [hk, he] at hb

/-- Taking a token that is shown is a step. -/
theorem Cursor.At.step_taken {t : Token} (h : c.At (t :: us)) (kind : HighlightKind)
    (ht : shown t.kind = true) : c.Step shown may (Parser.taken kind c) := .take kind h.rest ht

/-- Passing a token that is not shown is a step. -/
theorem Cursor.At.step_advanced {t : Token} (h : c.At (t :: us)) (ht : shown t.kind = false) :
    c.Step shown may c.advanced := .pass h.rest ht

/-! ## Rules -/

namespace Parser.Walks

variable {p : Parser α} {f : α → Parser β}

/-- Giving a value takes no step. -/
theorem pure (a : α) : Walks shown may ts (pure a) := fun _ _ => .refl

/-- Failing takes no step. -/
theorem fail (problem : Problem) : Walks shown may ts (throw problem : Parser α) := fun _ _ => .refl

/-- What is unexpected takes no step. -/
theorem unexpected (expected : List String) :
    Walks shown may ts (unexpected expected : Parser α) := fun _ _ => .refl

/-- What would follow a problem is not read. -/
theorem fail_bind (problem : Problem) : Walks shown may ts ((throw problem : Parser α) >>= f) :=
  fun _ _ => .refl

/-- Readers walk one after the other; what the first one leaves is up to it. -/
theorem bind (hp : Walks shown may ts p) (hf : ∀ a us, Walks shown may us (f a)) :
    Walks shown may ts (p >>= f) := by
  intro c hc
  have hsteps := hp c hc
  rw [EStateM.run_bind]
  cases hr : p.run c with
  | error e d => rwa [hr] at hsteps
  | ok a d =>
    rw [hr] at hsteps
    exact hsteps.trans (hf a _ d (hsteps.at_rest hc))

/-- A function of what a reader gives takes its steps. -/
theorem map {g : α → β} (hp : Walks shown may ts p) : Walks shown may ts (g <$> p) := by
  rw [← bind_pure_comp]
  exact hp.bind fun _ _ => .pure _

/-- Trying a reader takes its steps. -/
theorem attempt (hp : Walks shown may ts p) : Walks shown may ts (attempt p) := by
  intro c hc
  have hsteps := hp c hc
  rw [run_attempt]
  cases hr : p.run c with
  | error e d => rwa [hr] at hsteps
  | ok a d => rwa [hr] at hsteps

/-- A reader that first does steps that leave a value. -/
theorem of_run {a : α} {g : Cursor → Cursor} (hp : ∀ c, p.run c = .ok a (g c))
    (hg : ∀ c : Cursor, c.At ts → c.Steps shown may (g c)) (hat : ∀ c : Cursor, c.At ts → (g c).At us)
    (hf : Walks shown may us (f a)) : Walks shown may ts (p >>= f) := by
  intro c hc
  rw [run_bind_of_ok (hp c)]
  exact (hg c hc).trans (hf _ (hat c hc))

/-- Looking ahead takes no step. -/
theorem peek {f : Token → Parser β} (h : ∀ c : Cursor, c.At ts → Walks shown may ts (f c.next)) :
    Walks shown may ts (peek >>= f) := by
  intro c hc
  rw [run_bind_of_ok (run_peek c)]
  exact h c hc c hc

/-- Looking further ahead takes no step. -/
theorem peekSecond {f : Token → Parser β}
    (h : ∀ c : Cursor, c.At ts → Walks shown may ts (f (second c))) :
    Walks shown may ts (peekSecond >>= f) := by
  intro c hc
  rw [run_bind_of_ok (run_peekSecond c)]
  exact h c hc c hc

/-- Looking at the cursor takes no step. -/
theorem get {f : Cursor → Parser β} (h : ∀ c : Cursor, Walks shown may ts (f c)) :
    Walks shown may ts (get >>= f) := by
  intro c hc
  rw [run_bind_of_ok (EStateM.run_get c)]
  exact h c c hc

section

variable {f : Bool → Parser β}

/-- The test of a symbol takes no step. -/
theorem isAt {s : Symbol} (hs : s ≠ .pipe)
    (hyes : ∀ t us, t.kind = .symbol s → Walks shown may (t :: us) (f true))
    (hno : Walks shown may ts (f false)) : Walks shown may ts (isAt s >>= f) := by
  intro c hc
  rw [run_bind_of_ok (run_isAt s c)]
  by_cases hk : c.next.kind = .symbol s
  · obtain ⟨us, rfl⟩ := hc.eq_cons hk (by simpa using hs) (by simp)
    rw [decide_eq_true hk]
    exact hyes _ us hk c hc
  · rw [decide_eq_false hk]
    exact hno c hc

/-- The test of a keyword takes no step. -/
theorem isAtKeyword {k : Keyword}
    (hyes : ∀ t us, t.kind = .keyword k → Walks shown may (t :: us) (f true))
    (hno : Walks shown may ts (f false)) : Walks shown may ts (isAtKeyword k >>= f) := by
  intro c hc
  rw [run_bind_of_ok (run_isAtKeyword k c)]
  by_cases hk : c.next.kind = .keyword k
  · obtain ⟨us, rfl⟩ := hc.eq_cons hk (by simp) (by simp)
    rw [decide_eq_true hk]
    exact hyes _ us hk c hc
  · rw [decide_eq_false hk]
    exact hno c hc

/-- A comma is taken or nothing is. -/
theorem eatComma (hcomma : shown (.symbol .comma) = false) (hyes : ∀ us, Walks shown may us (f true))
    (hno : Walks shown may ts (f false)) : Walks shown may ts (eatComma >>= f) := by
  intro c hc
  by_cases hk : c.next.kind = .symbol .comma
  · obtain ⟨us, rfl⟩ := hc.eq_cons hk (by simp) (by simp)
    rw [run_bind_of_ok (a := true) (d := c.advanced) (by simp [hk])]
    exact .head (hc.step_advanced (by rw [hk, hcomma])) (hyes us _ hc.advanced)
  · rw [run_bind_of_ok (a := false) (d := c) (by simp [hk])]
    exact hno c hc

end

section

variable {f : Unit → Parser β} {t : Token}

/-- Going on is a step behind a token that is not shown. -/
theorem advance (ht : shown t.kind = false) (h : Walks shown may us (f ())) :
    Walks shown may (t :: us) (advance >>= f) :=
  of_run run_advance (fun _ hc => .single (hc.step_advanced ht)) (fun _ hc => hc.advanced) h

/-- Taking a token is a step behind one that is shown. -/
theorem take {kind : HighlightKind} (ht : shown t.kind = true) (h : Walks shown may us (f ())) :
    Walks shown may (t :: us) (take kind >>= f) :=
  of_run (run_take kind) (fun _ hc => .single (hc.step_taken kind ht)) (fun _ hc => hc.taken kind) h

/-- What ends a segment is not shown, so a token that is shown stands in the segment. -/
theorem takeNext {kind : HighlightKind} (hc : c.At ts) (hnext : shown c.next.kind = true)
    (hpipe : shown (.symbol .pipe) = false) (hend : shown .endOfInput = false)
    (h : ∀ us, Walks shown may us (f ())) : Walks shown may ts (Parser.take kind >>= f) := by
  obtain ⟨us, rfl⟩ := hc.eq_cons rfl (fun hk => by simp [hk, hpipe] at hnext)
    fun hk => by simp [hk, hend] at hnext
  exact take hnext (h us)

/-- Passing an expected symbol is a step, if it is not shown. -/
theorem expect {s : Symbol} (hs : s ≠ .pipe) (hshown : shown (.symbol s) = false)
    (h : ∀ us, Walks shown may us (f ())) : Walks shown may ts (expect s >>= f) := by
  intro c hc
  rw [EStateM.run_bind, run_expect]
  by_cases hk : c.next.kind = .symbol s
  · obtain ⟨us, rfl⟩ := hc.eq_cons hk (by simpa using hs) (by simp)
    rw [if_pos hk]
    exact .head (hc.step_advanced (by rw [hk, hshown])) (h us _ hc.advanced)
  · rw [if_neg hk]
    exact .refl

/-- Taking an expected operator is a step, if it is shown. -/
theorem expectOperator {s : Symbol} (hs : s ≠ .pipe) (hshown : shown (.symbol s) = true)
    (h : ∀ us, Walks shown may us (f ())) : Walks shown may ts (expectOperator s >>= f) := by
  intro c hc
  rw [EStateM.run_bind, run_expectOperator]
  by_cases hk : c.next.kind = .symbol s
  · obtain ⟨us, rfl⟩ := hc.eq_cons hk (by simpa using hs) (by simp)
    rw [if_pos hk]
    exact .head (hc.step_taken _ (by rw [hk, hshown])) (h us _ (hc.taken _))
  · rw [if_neg hk]
    exact .refl

/-- A suggestion is a step. -/
theorem suggest {kind : MarkerKind} (h : Walks shown may ts (f ())) :
    Walks shown may ts (suggest kind >>= f) :=
  of_run (run_suggest kind) (fun _ _ => .single (.suggest kind)) (fun _ hc => hc.suggested kind) h

/-- Settling a marker is a step, where markers may be settled. -/
theorem settle {id : Nat} (hmay : may (.settle id)) (h : Walks shown may ts (f ())) :
    Walks shown may ts (settle id >>= f) :=
  of_run (run_settle id) (fun _ _ => .single (.change hmay)) (fun _ hc => hc.settled id) h

/-- Withholding a marker is a step, where markers may be withheld. -/
theorem withhold {id : Nat} (hmay : may (.withhold id)) (h : Walks shown may ts (f ())) :
    Walks shown may ts (modify (fun c => { c with marks := c.marks.disable id }) >>= f) :=
  of_run (fun _ => rfl) (fun _ _ => .single (.change hmay)) (fun _ hc => hc.marked _) h

/-- Offering a marker is a step, where markers may be offered. -/
theorem offer {id : Nat} (hmay : may (.offer id)) (h : Walks shown may ts (f ())) :
    Walks shown may ts (modify (fun c =>
      { c with marks := (c.marks.enable id).restart id c.lastStop }) >>= f) :=
  of_run (fun _ => rfl) (fun _ _ => .single (.change hmay)) (fun _ hc => hc.marked _) h

end

/-- Opening a marker is a step, where markers may be opened. -/
theorem openMarker {f : Nat → Parser β} {kind : MarkerKind} (hmay : may (.openMarker kind))
    (h : ∀ id, Walks shown may ts (f id)) : Walks shown may ts (openMarker kind >>= f) := by
  intro c hc
  rw [run_bind_of_ok (run_openMarker kind c)]
  exact .head (.change hmay) (h _ _ (hc.opened kind))

end Parser.Walks

end LogSearch.Query
