import LogSearch.Proofs.Query.Head
import LogSearch.Proofs.Query.Stage
import LogSearch.Regex.Program
import Mathlib.Data.List.Forall2
import Mathlib.Data.List.TakeWhile

/-!
# What is accepted

* `writesQuery_iff`: pipes divide a derived query in one way, into its head and its stages.
* `readHead_iff`, `readStages_iff`: segments are read as they are written.
* `parseTokens_iff`: tokens are read without a problem exactly when the grammar derives a query from
  them, and then as that query.
-/

namespace LogSearch.Query

open LogSearch.Query.Parser

/-! ## Segments -/

/-- Tokens without a pipe belong to the first part. -/
theorem splitAtPipes_append {ts us : List Token} (h : ∀ t ∈ ts, t.kind ≠ .symbol .pipe) :
    splitAtPipes (ts ++ us) = (ts ++ (splitAtPipes us).1, (splitAtPipes us).2) := by
  induction ts with
  | nil => rfl
  | cons t ts ih =>
    rw [List.forall_mem_cons] at h
    simp [splitAtPipes, ih h.2, h.1]

/-- A pipe starts a segment with the tokens up to the next one. -/
theorem splitAtPipes_pipe {pipe : Token} {ts : List Token} (h : pipe.kind = .symbol .pipe) :
    splitAtPipes (pipe :: ts) = ([], (pipe, (splitAtPipes ts).1) :: (splitAtPipes ts).2) := by
  simp [splitAtPipes, h]

/-- A token that is no pipe belongs to the first part. -/
theorem splitAtPipes_cons {t : Token} {ts : List Token} (h : t.kind ≠ .symbol .pipe) :
    splitAtPipes (t :: ts) = (t :: (splitAtPipes ts).1, (splitAtPipes ts).2) := by
  simp [splitAtPipes, h]

/-- The tokens of segments after their pipes. -/
def joinSegments (segments : List (Token × List Token)) : List Token :=
  segments.flatMap fun s => s.1 :: s.2

/-- Parts and segments are the tokens, and each segment starts with a pipe. -/
theorem splitAtPipes_join (ts : List Token) :
    (splitAtPipes ts).1 ++ joinSegments (splitAtPipes ts).2 = ts ∧
      ∀ s ∈ (splitAtPipes ts).2, s.1.kind = .symbol .pipe := by
  induction ts with
  | nil => exact ⟨rfl, by simp [splitAtPipes]⟩
  | cons t ts ih =>
    by_cases h : t.kind = .symbol .pipe
    · rw [splitAtPipes_pipe h]
      refine ⟨?_, List.forall_mem_cons.2 ⟨h, ih.2⟩⟩
      simpa [joinSegments] using ih.1
    · rw [splitAtPipes_cons h]
      exact ⟨by simpa using ih.1, ih.2⟩

/-- A segment that is a stage. -/
def IsStage [Regex.Library] (segment : Token × List Token) (s : Stage) : Prop :=
  segment.1.kind = .symbol .pipe ∧ WritesStage segment.2 s []

/-- Segments that are stages write a pipeline. -/
theorem writesStages_join [Regex.Library] {segments : List (Token × List Token)}
    {stages : List Stage}
    (h : List.Forall₂ IsStage segments stages) : WritesStages (joinSegments segments) stages := by
  induction h with
  | nil => exact .nil
  | cons h _ ih => exact .cons h.1 h.2 ih

/-- The tokens of a pipeline are segments that are stages, with nothing before them. -/
theorem splitAtPipes_of_writesStages [Regex.Library] {ts : List Token} {stages : List Stage}
    (h : WritesStages ts stages) :
    ∃ segments, splitAtPipes ts = ([], segments) ∧ List.Forall₂ IsStage segments stages := by
  induction h with
  | nil => exact ⟨[], rfl, .nil⟩
  | @cons s stages pipe ts us hp hs _ ih =>
    obtain ⟨segments, hsplit, hall⟩ := ih
    refine ⟨(pipe, ts) :: segments, ?_, .cons ⟨hp, hs⟩ hall⟩
    rw [splitAtPipes_pipe hp, splitAtPipes_append hs.no_pipe, hsplit, List.append_nil]

/-- Tokens write a query exactly if the first part writes its head and each segment a stage. -/
theorem writesQuery_iff [Regex.Library] {ts : List Token} {q : Query} :
    WritesQuery ts q ↔ WritesHead (splitAtPipes ts).1 q.preFilters q.search ∧
      List.Forall₂ IsStage (splitAtPipes ts).2 q.pipeline := by
  constructor
  · rintro ⟨hh, hs⟩
    obtain ⟨segments, hsplit, hall⟩ := splitAtPipes_of_writesStages hs
    rw [splitAtPipes_append hh.no_pipe, hsplit, List.append_nil]
    exact ⟨hh, hall⟩
  · rintro ⟨hh, hall⟩
    have h := WritesQuery.mk hh (writesStages_join hall)
    rwa [(splitAtPipes_join ts).1] at h

/-! ## Reading segments -/

/-- What ends a segment. -/
def EndsSegment (t : Token) : Prop := t.kind = .symbol .pipe ∨ t.kind = .endOfInput

/-- Segments after their pipes, none of which holds a pipe or an end of input. -/
def AreSegments (segments : List (Token × List Token)) : Prop :=
  ∀ s ∈ segments, s.1.kind = .symbol .pipe ∧ ∀ t ∈ s.2, ¬ EndsSegment t

/-- Without an end of input inside, nothing in a segment ends it. -/
theorem splitAtPipes_areSegments {ts : List Token} (h : ∀ t ∈ ts, t.kind ≠ .endOfInput) :
    (∀ t ∈ (splitAtPipes ts).1, ¬ EndsSegment t) ∧ AreSegments (splitAtPipes ts).2 := by
  induction ts with
  | nil => exact ⟨fun _ ht => absurd ht List.not_mem_nil, fun _ hs => absurd hs List.not_mem_nil⟩
  | cons t ts ih =>
    obtain ⟨ht, hts⟩ := List.forall_mem_cons.1 h
    obtain ⟨hfirst, hothers⟩ := ih hts
    by_cases hp : t.kind = .symbol .pipe
    · rw [splitAtPipes_pipe hp]
      exact ⟨fun _ hmem => absurd hmem List.not_mem_nil,
        List.forall_mem_cons.2 ⟨⟨hp, hfirst⟩, hothers⟩⟩
    · rw [splitAtPipes_cons hp]
      exact ⟨List.forall_mem_cons.2 ⟨fun hends => hends.elim hp ht, hfirst⟩, hothers⟩

/-- What stands behind a segment ends it. -/
theorem segmentEnd_ends {final : Token} {segments : List (Token × List Token)}
    (hf : final.kind = .endOfInput) (h : ∀ s ∈ segments, s.1.kind = .symbol .pipe) :
    EndsSegment (segmentEnd final segments).1 := by
  cases segments with
  | nil => exact .inr hf
  | cons s segments => exact .inl (h s (by simp))

/-- A cursor at the start of a segment has its tokens ahead. -/
theorem at_ofSegment {start : Nat} {ts : List Token} {ends : Token × Token}
    (h : EndsSegment ends.1) : (Cursor.ofSegment start ts ends).At ts := ⟨rfl, h⟩

/-- Nothing is left over exactly if no token is. -/
theorem leftoverProblem_eq_none {expected : List String} {c : Cursor} {ts : List Token}
    (hc : c.At ts) : leftoverProblem expected c = none ↔ ts = [] := by
  simp [leftoverProblem, hc.rest]

/-- The head is read without a problem exactly as the grammar writes it. -/
theorem readHead_iff {ts : List Token} {ends : Token × Token} {filters : List PreFilter}
    {search : Option Search} (h : EndsSegment ends.1) :
    (readHead ts ends).problem = none ∧ (readHead ts ends).value = (filters, search) ↔
      WritesHead ts filters search := by
  have hc : (Cursor.ofSegment 0 ts ends).At ts := at_ofSegment h
  constructor
  · rintro ⟨hp, hv⟩
    cases hr : head.run (.ofSegment 0 ts ends) with
    | error problem d => simp [readHead, hr] at hp
    | ok r d =>
      obtain ⟨fs, s, problem⟩ := r
      simp only [readHead, hr, Prod.mk.injEq] at hp hv
      obtain ⟨rfl, rfl⟩ := hv
      cases problem with
      | some problem => simp at hp
      | none =>
        obtain ⟨us, vs, hf, hs, hd⟩ := head_sound hc hr
        exact .mk hf ((leftoverProblem_eq_none hd).1 hp ▸ hs)
  · rintro ⟨hf, hs⟩
    obtain ⟨d, hd, hat⟩ := head_complete hc hf hs
    simp [readHead, hd, (leftoverProblem_eq_none hat).2]

/-- A stage is read without a problem exactly as the grammar writes it. -/
theorem readStage_iff [Regex.Library] {pipe : Token} {ts : List Token} {ends : Token × Token}
    {s : Stage} (h : EndsSegment ends.1) :
    (readStage pipe ts ends).problem = none ∧ (readStage pipe ts ends).value = some s ↔
      WritesStage ts s [] := by
  have hc : (Cursor.ofSegment pipe.span.stop ts ends).At ts := at_ofSegment h
  constructor
  · rintro ⟨hp, hv⟩
    cases hr : stage.run (.ofSegment pipe.span.stop ts ends) with
    | error problem d => simp [readStage, hr] at hp
    | ok r d =>
      simp only [readStage, hr, Option.some.injEq] at hp hv
      obtain ⟨us, hd, hs⟩ := (reads_stage _).sound hc (Nat.le_refl _) hr
      rw [leftoverProblem_eq_none hd] at hp
      exact hp ▸ hv ▸ hs
  · intro hs
    obtain ⟨d, hd, hat⟩ := (reads_stage _).complete hc (Nat.le_refl _) hs clear_nil
    simp [readStage, hd, (leftoverProblem_eq_none hat).2]

/-- A stage without a problem has been read. -/
theorem exists_of_readStage [Regex.Library] {pipe : Token} {ts : List Token} {ends : Token × Token}
    (h : (readStage pipe ts ends).problem = none) :
    ∃ s, (readStage pipe ts ends).value = some s := by
  cases hr : stage.run (.ofSegment pipe.span.stop ts ends) with
  | error problem d => simp [readStage, hr] at h
  | ok r d => exact ⟨r, by simp [readStage, hr]⟩

/-- What comes of a list comes of its first item and of the others. -/
theorem filterMap_cons_toList {α β : Type} (f : α → Option β) (a : α) (l : List α) :
    (a :: l).filterMap f = (f a).toList ++ l.filterMap f := by
  rw [List.filterMap_cons]
  cases f a <;> rfl

/-- Stages are read without a problem exactly if each segment is its stage. -/
theorem readStages_iff [Regex.Library] {final : Token} {segments : List (Token × List Token)}
    {stages : List Stage}
    (hf : final.kind = .endOfInput) (h : ∀ s ∈ segments, s.1.kind = .symbol .pipe) :
    (readStages final segments).filterMap SegmentResult.problem = [] ∧
      (readStages final segments).filterMap SegmentResult.value = stages ↔
    List.Forall₂ IsStage segments stages := by
  induction segments generalizing stages with
  | nil => simp [readStages, eq_comm]
  | cons segment segments ih =>
    obtain ⟨pipe, ts⟩ := segment
    rw [List.forall_mem_cons] at h
    have hends := segmentEnd_ends hf h.2
    constructor
    · rintro ⟨hp, hv⟩
      rw [readStages, List.filterMap_cons] at hp hv
      split at hp
      · next hnone =>
        obtain ⟨s, hs⟩ := exists_of_readStage hnone
        rw [hs] at hv
        subst hv
        exact .cons ⟨h.1, (readStage_iff hends).1 ⟨hnone, hs⟩⟩ ((ih h.2).1 ⟨hp, rfl⟩)
      · simp at hp
    · rintro (_ | ⟨hs, hall⟩)
      obtain ⟨hp, hv⟩ := (@readStage_iff _ pipe _ _ _ hends).2 hs.2
      obtain ⟨hps, hvs⟩ := (ih h.2).2 hall
      simp [readStages, hp, hv, hps, hvs]

/-! ## Queries -/

/-- The tokens before the end of input. -/
def tokensBeforeEnd (tokens : List Token) : List Token :=
  tokens.takeWhile fun t => t.kind ≠ .endOfInput

/-- No token before the end of input is one. -/
theorem tokensBeforeEnd_kind (tokens : List Token) :
    ∀ t ∈ tokensBeforeEnd tokens, t.kind ≠ .endOfInput := by
  intro t ht
  rw [tokensBeforeEnd] at ht
  simpa using List.mem_takeWhile_imp ht

/-- The end of input of tokens, added where it is missing. -/
def finalToken (tokens : List Token) : Token :=
  (tokens.find? fun t => t.kind = .endOfInput).getD (endAfter tokens)

/-- The last token is an end of input, found or added. -/
theorem finalToken_kind (tokens : List Token) :
    ((tokens.find? fun t => t.kind = .endOfInput).getD (endAfter tokens)).kind = .endOfInput := by
  cases h : tokens.find? fun t => t.kind = .endOfInput with
  | none => rfl
  | some t => simpa using List.find?_some h

/-- The query consists of what is read of the head and of the stages. -/
theorem query_parseTokens [Regex.Library] (tokens : List Token) :
    (parseTokens tokens).query =
      let split := splitAtPipes (tokensBeforeEnd tokens)
      let head := readHead split.1 (segmentEnd (finalToken tokens) split.2)
      ⟨head.value.1, head.value.2,
        (readStages (finalToken tokens) split.2).filterMap SegmentResult.value⟩ := rfl

/-- The problems are those of the head and of the stages. -/
theorem problems_parseTokens [Regex.Library] (tokens : List Token) :
    (parseTokens tokens).problems =
      let split := splitAtPipes (tokensBeforeEnd tokens)
      (readHead split.1 (segmentEnd (finalToken tokens) split.2)).problem.toList ++
        (readStages (finalToken tokens) split.2).filterMap SegmentResult.problem := rfl

/-- Tokens are read without a problem exactly when the grammar derives a query from those before
the end of input, and the query read is the one derived. -/
theorem parseTokens_iff [Regex.Library] (tokens : List Token) (q : Query) :
    (parseTokens tokens).problems = [] ∧ (parseTokens tokens).query = q ↔
      WritesQuery (tokensBeforeEnd tokens) q := by
  have hfinal := finalToken_kind tokens
  have hpipes := (splitAtPipes_join (tokensBeforeEnd tokens)).2
  rw [writesQuery_iff, ← readHead_iff (segmentEnd_ends hfinal hpipes),
    ← readStages_iff hfinal hpipes]
  obtain ⟨filters, search, stages⟩ := q
  simp only [parseTokens, List.append_eq_nil_iff, Option.toList_eq_nil_iff, Query.mk.injEq]
  constructor
  · rintro ⟨⟨hp, hps⟩, rfl, rfl, hvs⟩
    exact ⟨⟨hp, rfl⟩, hps, hvs⟩
  · rintro ⟨⟨hp, hv⟩, hps, hvs⟩
    have hv := Prod.mk.inj hv
    exact ⟨⟨hp, hps⟩, hv.1, hv.2, hvs⟩

/-- The reader accepts exactly its grammar: it finds no problem if and only if a query is derivable,
and every derivation denotes the query that is read. -/
theorem accepts_exactly_its_grammar [Regex.Library] (tokens : List Token) :
    ((parseTokens tokens).problems = [] ↔ ∃ q, WritesQuery (tokensBeforeEnd tokens) q) ∧
      ∀ q, WritesQuery (tokensBeforeEnd tokens) q → (parseTokens tokens).query = q := by
  refine ⟨⟨fun h => ?_, fun ⟨q, hq⟩ => ?_⟩, fun q hq => ?_⟩
  · exact ⟨_, (parseTokens_iff tokens _).1 ⟨h, rfl⟩⟩
  · exact ((parseTokens_iff tokens q).2 hq).1
  · exact ((parseTokens_iff tokens q).2 hq).2

attribute [local instance] Regex.standard

/-- `| table a` -/
theorem derives_table_stage : ∃ tokens,
    WritesQuery (tokensBeforeEnd tokens) ⟨[], none, [.table [⟨"a", none⟩]]⟩ ∧
      (parseTokens tokens).query = ⟨[], none, [.table [⟨"a", none⟩]]⟩ := by
  have h : WritesQuery (tokensBeforeEnd [⟨.symbol .pipe, ⟨0, 1⟩, "|"⟩,
      ⟨.command .table, ⟨2, 7⟩, "table"⟩, ⟨.word "a", ⟨8, 9⟩, "a"⟩, ⟨.endOfInput, ⟨9, 9⟩, ""⟩])
      ⟨[], none, [.table [⟨"a", none⟩]]⟩ :=
    .mk (.mk .nil .none) (.cons rfl (.mk rfl (.table (.single (.mk (.mk rfl) .none)))) .nil)
  exact ⟨_, h, (accepts_exactly_its_grammar _).2 _ h⟩

end LogSearch.Query
