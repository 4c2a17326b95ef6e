import LogSearch.Proofs.Query.Onward
import LogSearch.Regex.Program
import Mathlib.Data.List.ReduceOption

/-!
# Recovery at pipes

What is wrong in one run of tokens between pipes does not change how the others are read.

* `Division`: a list of tokens, divided into runs without a pipe.
* `Run.stage?`, `Run.headProblem`, `Run.stageProblem`: what a run gives alone.
* `Division.problems`: one place for each run, with its problem if it has one.
* `recovers_locally`: tokens give what their runs give alone, and one run can be replaced by any
  other without a change in the rest.
-/

namespace LogSearch.Query

open LogSearch.Query.Parser

/-! ## Runs -/

/-- Tokens without a pipe or an end of input. -/
structure Run where
  tokens : List Token
  inside : ∀ t ∈ tokens, ¬ EndsSegment t

/-- A run after its pipe. -/
structure PipedRun where
  pipe : Token
  isPipe : pipe.kind = .symbol .pipe
  run : Run

/-- The segment that a run is. -/
def PipedRun.segment (r : PipedRun) : Token × List Token := (r.pipe, r.run.tokens)

/-- A list of tokens, divided into runs. The end of input may be missing; tokens may follow it. -/
structure Division where
  first : Run
  others : List PipedRun
  ending : List Token
  isEnding : ∀ t ∈ ending.head?, t.kind = .endOfInput

namespace Run

/-- The stage that is read from a run alone, if one can be read. -/
def stage? [Regex.Library] (r : Run) : Option Stage :=
  (stageResult (.ofSegment 0 r.tokens (endAfter r.tokens, endAfter r.tokens))).1

/-- The problem of a run that is the head of a query, before the token `stop`. -/
def headProblem (r : Run) (stop : Token) : Option Problem :=
  (readHead r.tokens (stop, stop)).problem

/-- The problem of a run that is a stage, before the token `stop`. -/
def stageProblem [Regex.Library] (r : Run) (stop : Token) : Option Problem :=
  (stageResult (.ofSegment 0 r.tokens (stop, stop))).2

end Run

namespace Division

/-- The runs after their pipes, as segments. -/
def segments (d : Division) : List (Token × List Token) := d.others.map PipedRun.segment

/-- The tokens that are divided. -/
def tokens (d : Division) : List Token :=
  d.first.tokens ++ joinSegments d.segments ++ d.ending

/-- What is read from the runs after their pipes, one place for each. -/
def stages [Regex.Library] (d : Division) : List
    (Option Stage) := d.others.map fun r => r.run.stage?

/-- The tokens after the runs: pipes, and in the end the end of input. -/
def stops (d : Division) : List Token := d.others.map PipedRun.pipe ++ [finalToken d.tokens]

/-- The problems of the runs, one place for each. -/
def problems [Regex.Library] (d : Division) : List (Option Problem) :=
  List.zipWith (fun problem stop => problem stop)
    (d.first.headProblem :: d.others.map fun r => r.run.stageProblem) d.stops

/-- Another run in the place of one; the head of a query is at place 0. -/
def replace (d : Division) : Nat → Run → Division
  | 0, run => { d with first := run }
  | i + 1, run => { d with others := d.others.modify i fun r => { r with run := run } }

end Division

/-! ## Divisions -/

/-- Runs after their pipes are segments. -/
theorem PipedRun.areSegments (rs : List PipedRun) : AreSegments (rs.map PipedRun.segment) := by
  intro s hs
  obtain ⟨r, -, rfl⟩ := List.mem_map.1 hs
  exact ⟨r.isPipe, r.run.inside⟩

/-- Segments are found where they were joined. -/
theorem splitAtPipes_joinSegments {segments : List (Token × List Token)}
    (h : AreSegments segments) : splitAtPipes (joinSegments segments) = ([], segments) := by
  induction segments with
  | nil => rfl
  | cons segment segments ih =>
    obtain ⟨⟨hpipe, hin⟩, hs⟩ := List.forall_mem_cons.1 h
    have hjoin : joinSegments (segment :: segments) =
        segment.1 :: (segment.2 ++ joinSegments segments) := rfl
    rw [hjoin, splitAtPipes_pipe hpipe, splitAtPipes_append fun t ht hp => hin t ht (.inl hp),
      ih hs, List.append_nil]

namespace Division

variable (d : Division)

/-- In runs there is no end of input. -/
theorem inside_kind : ∀ t ∈ d.first.tokens ++ joinSegments d.segments, t.kind ≠ .endOfInput := by
  intro t ht hk
  rcases List.mem_append.1 ht with ht | ht
  · exact d.first.inside t ht (.inr hk)
  · obtain ⟨s, hs, ht⟩ := List.mem_flatMap.1 ht
    obtain ⟨hpipe, hin⟩ := PipedRun.areSegments d.others s hs
    rcases List.mem_cons.1 ht with rfl | ht
    · rw [hpipe] at hk
      simp at hk
    · exact hin t ht (.inr hk)

/-- The tokens that are divided are the first run and the segments. -/
theorem tokensBeforeEnd_tokens :
    tokensBeforeEnd d.tokens = d.first.tokens ++ joinSegments d.segments := by
  have hall : ∀ t ∈ d.first.tokens ++ joinSegments d.segments,
      decide (t.kind ≠ .endOfInput) = true := fun t ht => decide_eq_true (d.inside_kind t ht)
  rw [tokensBeforeEnd, tokens, List.takeWhile_append_of_pos hall]
  have hending : d.ending.takeWhile (fun t => decide (t.kind ≠ .endOfInput)) = [] := by
    have h := d.isEnding
    cases hend : d.ending with
    | nil => rfl
    | cons t ts =>
      rw [hend] at h
      exact List.takeWhile_cons_of_neg (by simp [h t rfl])
  rw [hending, List.append_nil]

/-- The runs are found where they were divided. -/
theorem splitAtPipes_tokens :
    splitAtPipes (tokensBeforeEnd d.tokens) = (d.first.tokens, d.segments) := by
  rw [d.tokensBeforeEnd_tokens, splitAtPipes_append fun t ht hp => d.first.inside t ht (.inl hp),
    segments, splitAtPipes_joinSegments (PipedRun.areSegments _), List.append_nil]

/-- Every list of tokens can be divided. -/
theorem exists_tokens (tokens : List Token) : ∃ d : Division, d.tokens = tokens := by
  induction tokens with
  | nil => exact ⟨⟨⟨[], by simp⟩, [], [], by simp⟩, rfl⟩
  | cons t ts ih =>
    obtain ⟨d, hd⟩ := ih
    by_cases hp : t.kind = .symbol .pipe
    · refine ⟨⟨⟨[], by simp⟩, ⟨t, hp, d.first⟩ :: d.others, d.ending, d.isEnding⟩, ?_⟩
      rw [← hd]
      simp [tokens, segments, joinSegments, PipedRun.segment]
    by_cases he : t.kind = .endOfInput
    · exact ⟨⟨⟨[], by simp⟩, [], t :: ts, by simpa using he⟩, rfl⟩
    · have hin : ∀ u ∈ t :: d.first.tokens, ¬ EndsSegment u :=
        List.forall_mem_cons.2 ⟨not_or.2 ⟨hp, he⟩, d.first.inside⟩
      refine ⟨⟨⟨t :: d.first.tokens, hin⟩, d.others, d.ending, d.isEnding⟩, ?_⟩
      rw [← hd]
      rfl

end Division

/-! ## Runs alone -/

/-- Problems that are the same, or that say the same of the tokens after two runs. -/
inductive SameUpTo (stop stop' : Token) : Problem → Problem → Prop
  | refl (problem : Problem) : SameUpTo stop stop' problem problem
  | atEnd (expected : List String) :
      SameUpTo stop stop' ⟨.unexpected stop.kind, stop.span, expected⟩
        ⟨.unexpected stop'.kind, stop'.span, expected⟩

/-- Problems before one token are the same if they are up to it. -/
theorem eq_of_sameUpTo_self {stop : Token} {a b : Option Problem}
    (h : Option.Rel (SameUpTo stop stop) a b) : a = b := by
  cases h with
  | none => rfl
  | some h => cases h <;> rfl

/-- What is added at the end ends a segment. -/
theorem endAfter_ends (tokens : List Token) : EndsSegment (endAfter tokens) := .inr rfl

namespace Run

variable (r : Run) {stop stop' : Token}

/-- A run before two tokens. -/
def before (h : EndsSegment stop) (h' : EndsSegment stop') : Pairing :=
  .alike stop [] stop' h h'

/-- Problems that readers share are the same up to what ends their runs. -/
theorem sameUpTo {h : EndsSegment stop} {h' : EndsSegment stop'} {a b : Option Problem}
    (hab : Option.Rel (before h h').SameProblem a b) : Option.Rel (SameUpTo stop stop') a b := by
  cases hab with
  | none => exact .none
  | some he =>
    refine .some ?_
    cases he with
    | within ht =>
      cases ht
      exact .refl _
    | atEnd => exact .atEnd _

/-- Before either end a run is seen from its start. -/
theorem sees (h : EndsSegment stop) (h' : EndsSegment stop') (start start' : Nat)
    (beyond beyond' : Token) :
    (before h h').Sees (.ofSegment start r.tokens (stop, beyond))
      (.ofSegment start' r.tokens (stop', beyond')) r.tokens :=
  ⟨rfl, ⟨r.tokens, (List.append_nil _).symm, List.forall₂_same.2 fun _ _ => rfl⟩, rfl, rfl,
    r.inside⟩

/-- Neither the place of a run nor what follows it changes the stage that is read from it. -/
theorem stageResult_alike [Regex.Library] (h : EndsSegment stop) (h' : EndsSegment stop')
    (start start' : Nat) (beyond beyond' : Token) :
    (stageResult (.ofSegment start r.tokens (stop, beyond))).1 =
        (stageResult (.ofSegment start' r.tokens (stop', beyond'))).1 ∧
      Option.Rel (SameUpTo stop stop') (stageResult (.ofSegment start r.tokens (stop, beyond))).2
        (stageResult (.ofSegment start' r.tokens (stop', beyond'))).2 :=
  (stageResult_agree rfl (r.sees h h' start start' beyond beyond')).imp_right sameUpTo

/-- Neither changes what is read from it as the head of a query. -/
theorem readHead_alike (h : EndsSegment stop) (h' : EndsSegment stop') (beyond beyond' : Token) :
    (readHead r.tokens (stop, beyond)).value = (readHead r.tokens (stop', beyond')).value ∧
      Option.Rel (SameUpTo stop stop') (readHead r.tokens (stop, beyond)).problem
        (readHead r.tokens (stop', beyond')).problem :=
  (readHead_agree rfl (r.sees h h' 0 0 beyond beyond')).imp_right sameUpTo

/-- What is read of a stage does not depend on what is around it. -/
theorem readStage_value [Regex.Library] (pipe : Token) {ends : Token × Token}
    (h : EndsSegment ends.1) :
    (readStage pipe r.tokens ends).value = r.stage? :=
  (congrArg Prod.fst (readStage_eq_stageResult pipe r.tokens ends)).trans
    (r.stageResult_alike h (endAfter_ends _) _ _ _ _).1

/-- The problem of a stage depends on its run and on the token after it. -/
theorem readStage_problem [Regex.Library] (pipe : Token) {ends : Token × Token}
    (h : EndsSegment ends.1) :
    (readStage pipe r.tokens ends).problem = r.stageProblem ends.1 :=
  (congrArg Prod.snd (readStage_eq_stageResult pipe r.tokens ends)).trans
    (eq_of_sameUpTo_self (r.stageResult_alike h h _ _ _ _).2)

/-- The problem of a head depends on its run and on the token after it. -/
theorem readHead_problem {ends : Token × Token} (h : EndsSegment ends.1) :
    (readHead r.tokens ends).problem = r.headProblem ends.1 :=
  eq_of_sameUpTo_self (r.readHead_alike h h _ _).2

end Run

/-! ## Many runs -/

/-- What is read of stages is what is read of each run alone. -/
theorem readStages_value [Regex.Library] {final : Token} (hf : final.kind = .endOfInput)
    (rs : List PipedRun) :
    (readStages final (rs.map PipedRun.segment)).filterMap SegmentResult.value =
      (rs.map fun r => r.run.stage?).reduceOption := by
  induction rs with
  | nil => rfl
  | cons r rs ih =>
    have hends := segmentEnd_ends hf fun s hs => (PipedRun.areSegments rs s hs).1
    rw [List.map_cons, PipedRun.segment, readStages, filterMap_cons_toList,
      r.run.readStage_value r.pipe hends, ih]
    exact (filterMap_cons_toList id _ _).symm

/-- The problems of runs, the first of which has its own reader. -/
theorem readStages_problem [Regex.Library] {final : Token} (hf : final.kind = .endOfInput)
    (rs : List PipedRun) (first : Token → Option Problem) :
    (first (segmentEnd final (rs.map PipedRun.segment)).1).toList ++
        (readStages final (rs.map PipedRun.segment)).filterMap SegmentResult.problem =
      (List.zipWith (fun problem stop => problem stop)
        (first :: rs.map fun r => r.run.stageProblem)
        (rs.map PipedRun.pipe ++ [final])).reduceOption := by
  induction rs generalizing first with
  | nil => exact (filterMap_cons_toList id (first final) []).symm
  | cons r rs ih =>
    have hends := segmentEnd_ends hf fun s hs => (PipedRun.areSegments rs s hs).1
    rw [List.map_cons, PipedRun.segment, readStages, filterMap_cons_toList,
      r.run.readStage_problem r.pipe hends, ih]
    exact (filterMap_cons_toList id _ _).symm

namespace Division

variable (d : Division)

/-- The last token of a division is an end of input. -/
theorem finalToken_tokens : (finalToken d.tokens).kind = .endOfInput := finalToken_kind _

/-- The head ends where the first pipe or the end of input is. -/
theorem ends : EndsSegment (segmentEnd (finalToken d.tokens) d.segments).1 :=
  segmentEnd_ends d.finalToken_tokens fun s hs => (PipedRun.areSegments d.others s hs).1

/-- The query is what is read of each run alone. -/
theorem query_eq [Regex.Library] : (parseTokens d.tokens).query =
    ⟨(readHead d.first.tokens (endAfter d.first.tokens, endAfter d.first.tokens)).value.1,
      (readHead d.first.tokens (endAfter d.first.tokens, endAfter d.first.tokens)).value.2,
      d.stages.reduceOption⟩ := by
  rw [query_parseTokens, d.splitAtPipes_tokens]
  dsimp only
  rw [(d.first.readHead_alike d.ends (endAfter_ends d.first.tokens) _ (endAfter _)).1, segments,
    readStages_value d.finalToken_tokens]
  rfl

/-- A run alone is the head of a query. -/
theorem query_alone [Regex.Library] (r : Run) : (parseTokens r.tokens).query =
    ⟨(readHead r.tokens (endAfter r.tokens, endAfter r.tokens)).value.1,
      (readHead r.tokens (endAfter r.tokens, endAfter r.tokens)).value.2, []⟩ := by
  have hquery := query_eq ⟨r, [], [], by simp⟩
  have htokens : (⟨r, [], [], by simp⟩ : Division).tokens = r.tokens := by
    simp [tokens, segments, joinSegments]
  rw [htokens] at hquery
  exact hquery

/-- The problems are those of each run, in order. -/
theorem problems_eq [Regex.Library] :
    (parseTokens d.tokens).problems = d.problems.reduceOption := by
  rw [problems_parseTokens, d.splitAtPipes_tokens]
  dsimp only
  rw [d.first.readHead_problem d.ends, segments, readStages_problem d.finalToken_tokens]
  rfl

/-- Each run has a place for a problem. -/
theorem length_problems [Regex.Library] : d.problems.length = d.others.length + 1 := by
  simp [problems, stops]

/-! ### Replaced runs -/

variable {d} {i j : Nat} {run : Run}

/-- Another run in one place leaves the stages in all others. -/
theorem stages_replace [Regex.Library] (hj : j + 1 ≠ i) :
    (d.replace i run).stages[j]? = d.stages[j]? := by
  cases i with
  | zero => rfl
  | succ i =>
    have hij : i ≠ j := fun h => hj (by rw [h])
    simp only [stages, replace, List.getElem?_map, List.getElem?_modify, if_neg hij]
    simp

/-- Another run in one place leaves the pipes. -/
theorem pipes_replace :
    (d.replace i run).others.map PipedRun.pipe = d.others.map PipedRun.pipe := by
  cases i with
  | zero => rfl
  | succ i =>
    refine List.ext_getElem? fun k => ?_
    simp only [replace, List.getElem?_map, List.getElem?_modify]
    cases d.others[k]? with
    | none => rfl
    | some r => by_cases hk : i = k <;> simp [hk]

/-- Another run in one place leaves the others to be read as they were. -/
theorem readers_replace [Regex.Library] (hj : j ≠ i) :
    ((d.replace i run).first.headProblem ::
        (d.replace i run).others.map fun r => r.run.stageProblem)[j]? =
      (d.first.headProblem :: d.others.map fun r => r.run.stageProblem)[j]? := by
  cases i with
  | zero =>
    obtain _ | j := j
    · exact absurd rfl hj
    · rfl
  | succ i =>
    obtain _ | j := j
    · rfl
    · have hij : i ≠ j := fun h => hj (by rw [h])
      simp only [replace, List.getElem?_cons_succ, List.getElem?_map, List.getElem?_modify,
        if_neg hij]
      simp

/-- Another run in an earlier place leaves the last one. -/
theorem last_replace (hi : i ≠ d.others.length) :
    (d.replace i run).others.getLast? = d.others.getLast? := by
  cases i with
  | zero => rfl
  | succ i =>
    have hlast : i ≠ d.others.length - 1 ∨ d.others = [] := by
      rw [← List.length_eq_zero_iff]
      omega
    rcases hlast with hlast | hnil
    · simp only [replace, List.getLast?_eq_getElem?, List.length_modify, List.getElem?_modify,
        if_neg hlast]
      simp
    · simp [replace, hnil]

/-- The last token is the first of the ending, or one that is added. -/
theorem finalToken_eq : finalToken d.tokens =
    d.ending.head?.getD (endAfter (d.first.tokens ++ joinSegments d.segments)) := by
  have hnone : (d.first.tokens ++ joinSegments d.segments).find?
      (fun t => decide (t.kind = .endOfInput)) = none :=
    List.find?_eq_none.2 fun t ht => by simpa using d.inside_kind t ht
  have hending := d.isEnding
  rw [finalToken, tokens, List.find?_append, hnone, Option.none_or]
  cases hend : d.ending with
  | nil => rw [List.append_nil]; rfl
  | cons t ts =>
    rw [hend] at hending
    rw [List.find?_cons_of_pos (by simp [hending t rfl])]
    rfl

/-- The end of input is added after the last run. -/
theorem endAfter_last {r : PipedRun} (h : d.others.getLast? = some r) :
    endAfter (d.first.tokens ++ joinSegments d.segments) = endAfter (r.pipe :: r.run.tokens) := by
  obtain ⟨rs, hrs⟩ := List.getLast?_eq_some_iff.1 h
  have hjoin : joinSegments d.segments =
      joinSegments (rs.map PipedRun.segment) ++ r.pipe :: r.run.tokens := by
    simp [segments, hrs, joinSegments, PipedRun.segment]
  rw [hjoin, ← List.append_assoc, endAfter, endAfter, List.getLast?_append_cons]

/-- Another run in an earlier place leaves the last token. -/
theorem finalToken_replace (hi : i ≠ d.others.length) :
    finalToken (d.replace i run).tokens = finalToken d.tokens := by
  have hending : (d.replace i run).ending = d.ending := by cases i <;> rfl
  rw [finalToken_eq, finalToken_eq, hending]
  refine congrArg _ ?_
  have hlast : (d.replace i run).others.getLast? = d.others.getLast? := last_replace hi
  cases h : d.others.getLast? with
  | some r => rw [endAfter_last h, endAfter_last (hlast.trans h)]
  | none =>
    -- Without runs after pipes only the first could be replaced.
    have hnil : d.others = [] := List.getLast?_eq_none_iff.1 h
    obtain _ | i := i
    · exact absurd (by rw [hnil]; rfl) hi
    · simp [replace, segments, hnil]

/-- Another run in one place leaves what ends the others, apart from one that is added behind it. -/
theorem stops_replace [Regex.Library] (hj : j ≠ i) (hlt : j < d.problems.length) :
    (d.replace i run).stops[j]? = d.stops[j]? := by
  rw [stops, stops, pipes_replace]
  rw [length_problems] at hlt
  by_cases hlast : j < d.others.length
  · rw [List.getElem?_append_left (by simpa using hlast),
      List.getElem?_append_left (by simpa using hlast)]
  · rw [finalToken_replace (by omega)]

/-- Another run in one place leaves the problems in all others. -/
theorem problems_replace [Regex.Library] (hj : j ≠ i) :
    (d.replace i run).problems[j]? = d.problems[j]? := by
  by_cases hlt : j < d.problems.length
  · rw [problems, problems, List.getElem?_zipWith, List.getElem?_zipWith, readers_replace hj,
      stops_replace hj hlt]
  · have hpipes : ((d.replace i run).others.map PipedRun.pipe).length =
        (d.others.map PipedRun.pipe).length := congrArg List.length pipes_replace
    rw [List.length_map, List.length_map] at hpipes
    have hlen : (d.replace i run).problems.length = d.problems.length := by
      rw [length_problems, length_problems, hpipes]
    rw [List.getElem?_eq_none (by omega), List.getElem?_eq_none (by omega)]

end Division

/-! ## Recovery -/

/-- A problem does not reach beyond its run. -/
structure RecoversLocally [Regex.Library] (d : Division) : Prop where
  /-- The head of the query is that of the first run alone. -/
  head : (parseTokens d.tokens).query.preFilters =
      (parseTokens d.first.tokens).query.preFilters ∧
    (parseTokens d.tokens).query.search = (parseTokens d.first.tokens).query.search
  /-- The pipeline is made of the stages that are read from the other runs alone. -/
  pipeline : (parseTokens d.tokens).query.pipeline = d.stages.reduceOption
  /-- The problems are those of the runs, in their order. -/
  problems : (parseTokens d.tokens).problems = d.problems.reduceOption
  /-- No run has more than one. -/
  length_problems : d.problems.length = d.others.length + 1
  /-- The token after a run changes nothing but how a problem at that very token reads. -/
  described : ∀ stop stop', EndsSegment stop → EndsSegment stop' →
    Option.Rel (SameUpTo stop stop') (d.first.headProblem stop) (d.first.headProblem stop') ∧
      ∀ r ∈ d.others,
        Option.Rel (SameUpTo stop stop') (r.run.stageProblem stop) (r.run.stageProblem stop')
  /-- With another run in the place of one the others keep their stages and their problems. -/
  replaced : ∀ i run j, (j + 1 ≠ i → (d.replace i run).stages[j]? = d.stages[j]?) ∧
    (j ≠ i → (d.replace i run).problems[j]? = d.problems[j]?)
  /-- With another run after a pipe the head is the same. -/
  replaced_head : ∀ i run, i ≠ 0 →
    (parseTokens (d.replace i run).tokens).query.preFilters =
        (parseTokens d.tokens).query.preFilters ∧
      (parseTokens (d.replace i run).tokens).query.search = (parseTokens d.tokens).query.search
  /-- Nor does a pass that could read on beyond a pipe give anything else. -/
  onward : parseOnward d.tokens =
    .ok ((parseTokens d.tokens).query, (parseTokens d.tokens).problems)

/-- Every list of tokens can be divided into runs, and problems stay within the runs. -/
theorem recovers_locally [Regex.Library] :
    (∀ tokens, ∃ d : Division, d.tokens = tokens) ∧ ∀ d, RecoversLocally d := by
  refine ⟨Division.exists_tokens, fun d => ⟨?_, ?_, d.problems_eq, d.length_problems, ?_, ?_, ?_,
    parseOnward_eq _⟩⟩
  · rw [d.query_eq, Division.query_alone]
    exact ⟨rfl, rfl⟩
  · rw [d.query_eq]
  · intro stop stop' h h'
    exact ⟨(d.first.readHead_alike h h' _ _).2, fun r _ => (r.run.stageResult_alike h h' _ _ _ _).2⟩
  · intro i run j
    exact ⟨Division.stages_replace, Division.problems_replace⟩
  · intro i run hi
    obtain ⟨i, rfl⟩ := Nat.exists_eq_succ_of_ne_zero hi
    rw [Division.query_eq, Division.query_eq]
    exact ⟨rfl, rfl⟩

attribute [local instance] Regex.standard in
/-- Two stages have problems, and the one between them is read. -/
example :
    let out := parseTokens (tokenize "error | stats nope(x) | sort a | where (").tokens
    out.problems.length = 2 ∧ out.query.search = some (.literal (.term "error")) ∧
      out.query.pipeline.length = 1 := by
  decide +kernel

end LogSearch.Query
