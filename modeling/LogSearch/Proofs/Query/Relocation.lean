import LogSearch.Proofs.Query.Lockstep
import LogSearch.Proofs.Query.Spelling

/-!
# Tokens at other places

What a query reads from tokens are their kinds and their texts. Where they stand only shows in its
problems and its marks.

* `Respelled`: tokens that are spelled alike, one by one.
* `readHead_respelled`, `readStages_respelled`: such tokens are read alike in every segment.
* `parseTokens_respelled`: they write the same query, and both or neither have a problem.
-/

namespace LogSearch.Query

open LogSearch.Query.Parser

/-- Tokens that are spelled alike, one by one. -/
def Respelled : List Token → List Token → Prop :=
  List.Forall₂ fun t t' => t.spelling = t'.spelling

/-- Tokens are respelled if they are spelled alike. -/
theorem respelled_iff {ts ts' : List Token} :
    Respelled ts ts' ↔ ts.map Token.spelling = ts'.map Token.spelling := by
  rw [Respelled, ← List.forall₂_eq_eq_eq, List.forall₂_map_left_iff, List.forall₂_map_right_iff]

/-- Two runs over tokens that are spelled alike. -/
def Pairing.respelled {stop stop' : Token} (h : EndsSegment stop) (h' : EndsSegment stop') :
    Pairing where
  same t t' := t.spelling = t'.spelling
  kind_eq h := congrArg Prod.fst h
  text_eq h := congrArg Prod.snd h
  stop := stop
  behind := []
  final := stop'
  ends := h
  ends_behind := h'

/-! ## Segments -/

section

variable {ts ts' : List Token} {ends ends' : Token × Token}

/-- Respelled tokens are seen alike in two segments. -/
theorem sees_respelled (h : Respelled ts ts') (hin : ∀ t ∈ ts, ¬ EndsSegment t)
    (he : EndsSegment ends.1) (he' : EndsSegment ends'.1) (start start' : Nat) :
    (Pairing.respelled he he').Sees (.ofSegment start ts ends) (.ofSegment start' ts' ends') ts :=
  ⟨rfl, ⟨ts', (List.append_nil _).symm, h⟩, rfl, rfl, hin⟩

/-- Of things that are related one is there exactly if the other is. -/
theorem eq_none_iff_of_rel {α β : Type} {R : α → β → Prop} {a : Option α} {b : Option β}
    (h : Option.Rel R a b) : a = none ↔ b = none := by
  cases h <;> simp

/-- A head of respelled tokens is read as the same, or has a problem in both places. -/
theorem readHead_respelled (h : Respelled ts ts') (hin : ∀ t ∈ ts, ¬ EndsSegment t)
    (he : EndsSegment ends.1) (he' : EndsSegment ends'.1) :
    (readHead ts ends).value = (readHead ts' ends').value ∧
      ((readHead ts ends).problem = none ↔ (readHead ts' ends').problem = none) :=
  (readHead_agree rfl (sees_respelled h hin he he' 0 0)).imp_right eq_none_iff_of_rel

/-- A stage of respelled tokens is read as the same, or has a problem in both places. -/
theorem readStage_respelled [Regex.Library] (h : Respelled ts ts') (hin : ∀ t ∈ ts, ¬ EndsSegment t)
    (he : EndsSegment ends.1) (he' : EndsSegment ends'.1) (pipe pipe' : Token) :
    (readStage pipe ts ends).value = (readStage pipe' ts' ends').value ∧
      ((readStage pipe ts ends).problem = none ↔ (readStage pipe' ts' ends').problem = none) := by
  have hsame := stageResult_agree rfl
    (sees_respelled h hin he he' pipe.span.stop pipe'.span.stop)
  rw [← readStage_eq_stageResult, ← readStage_eq_stageResult] at hsame
  exact hsame.imp_right eq_none_iff_of_rel

end

/-- Segments that are spelled alike. -/
def RespelledSegments : List (Token × List Token) → List (Token × List Token) → Prop :=
  List.Forall₂ fun s s' => s.1.spelling = s'.1.spelling ∧ Respelled s.2 s'.2

/-- Respelled tokens have respelled segments. -/
theorem splitAtPipes_respelled {ts ts' : List Token} (h : Respelled ts ts') :
    Respelled (splitAtPipes ts).1 (splitAtPipes ts').1 ∧
      RespelledSegments (splitAtPipes ts).2 (splitAtPipes ts').2 := by
  induction h with
  | nil => exact ⟨.nil, .nil⟩
  | @cons t t' ts ts' ht _ ih =>
    have hk : t.kind = t'.kind := congrArg Prod.fst ht
    by_cases hp : t.kind = .symbol .pipe
    · rw [splitAtPipes_pipe hp, splitAtPipes_pipe (hk ▸ hp)]
      exact ⟨.nil, .cons ⟨ht, ih.1⟩ ih.2⟩
    · rw [splitAtPipes_cons hp, splitAtPipes_cons (hk ▸ hp)]
      exact ⟨.cons ht ih.1, ih.2⟩

/-- Stages of respelled segments are read as the same, or have problems in both places. -/
theorem readStages_respelled [Regex.Library] {final final' : Token}
    {segments segments' : List (Token × List Token)}
    (h : RespelledSegments segments segments') (hs : AreSegments segments)
    (hs' : AreSegments segments') (hf : final.kind = .endOfInput)
    (hf' : final'.kind = .endOfInput) :
    (readStages final segments).filterMap SegmentResult.value =
        (readStages final' segments').filterMap SegmentResult.value ∧
      ((readStages final segments).filterMap SegmentResult.problem = [] ↔
        (readStages final' segments').filterMap SegmentResult.problem = []) := by
  induction h with
  | nil => exact ⟨rfl, Iff.rfl⟩
  | @cons s s' segments segments' hsame _ ih =>
    obtain ⟨⟨-, hin⟩, hs⟩ := List.forall_mem_cons.1 hs
    obtain ⟨-, hs'⟩ := List.forall_mem_cons.1 hs'
    have he := segmentEnd_ends hf fun s hmem => (hs s hmem).1
    have he' := segmentEnd_ends hf' fun s hmem => (hs' s hmem).1
    obtain ⟨hvalue, hproblem⟩ := readStage_respelled hsame.2 hin he he' s.1 s'.1
    obtain ⟨hvalues, hproblems⟩ := ih hs hs'
    simp only [readStages, filterMap_cons_toList, List.append_eq_nil_iff, Option.toList_eq_nil_iff]
    rw [hvalue, hvalues, hproblem, hproblems]
    exact ⟨rfl, Iff.rfl⟩

/-! ## Queries -/

/-- Tokens that are spelled alike write the same query, and have problems or have none. -/
theorem parseTokens_respelled [Regex.Library] {ts ts' : List Token}
    (h : Respelled (tokensBeforeEnd ts) (tokensBeforeEnd ts')) :
    (parseTokens ts).query = (parseTokens ts').query ∧
      ((parseTokens ts).problems = [] ↔ (parseTokens ts').problems = []) := by
  have hf : (finalToken ts).kind = .endOfInput := finalToken_kind ts
  have hf' : (finalToken ts').kind = .endOfInput := finalToken_kind ts'
  obtain ⟨hin, hs⟩ := splitAtPipes_areSegments (tokensBeforeEnd_kind ts)
  obtain ⟨-, hs'⟩ := splitAtPipes_areSegments (tokensBeforeEnd_kind ts')
  obtain ⟨hfirst, hothers⟩ := splitAtPipes_respelled h
  have he := segmentEnd_ends hf fun s hmem => (hs s hmem).1
  have he' := segmentEnd_ends hf' fun s hmem => (hs' s hmem).1
  obtain ⟨hvalue, hproblem⟩ := readHead_respelled hfirst hin he he'
  obtain ⟨hvalues, hproblems⟩ := readStages_respelled hothers hs hs' hf hf'
  rw [query_parseTokens, query_parseTokens, problems_parseTokens, problems_parseTokens]
  dsimp only
  rw [hvalue, hvalues]
  refine ⟨rfl, ?_⟩
  rw [List.append_eq_nil_iff, List.append_eq_nil_iff, Option.toList_eq_nil_iff,
    Option.toList_eq_nil_iff, hproblem, hproblems]

end LogSearch.Query
