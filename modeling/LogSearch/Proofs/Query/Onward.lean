import LogSearch.Proofs.Query.Lockstep

/-!
# One pass over all tokens

Tokens are divided at pipes before a segment is read. The same readers can as well run over all
tokens at once: then they could take what follows their segment, and after a problem the tokens up
to the next pipe are skipped.

* `parseOnward`: the query and the problems of such a pass.
* `run_headOnward`, `run_stageOnward`: one segment of it.
* `parseOnward_eq`: nothing is read beyond a pipe, nothing is reported twice and no stage is lost.
-/

namespace LogSearch.Query

namespace Parser

/-! ## The pass -/

/-- Whether the next token is a pipe or the end of input. -/
def isAtStop : Parser Bool := do
  let kind := (← peek).kind
  return kind = .symbol .pipe ∨ kind = .endOfInput

/-- The problem of being at the next token. -/
def problemHere (expected : List String) : Parser Problem := do
  let t ← peek
  return ⟨.unexpected t.kind, t.span, expected⟩

/-- Takes tokens up to the next pipe or the end of input, within so many tokens. -/
def skipWithin : Nat → Parser Unit
  | 0 => return
  | fuel + 1 => do
    if ← isAtStop then return
    else
      advance
      skipWithin fuel

/-- Takes tokens up to the next pipe or the end of input. -/
def synchronize : Parser Unit := do skipWithin (← get).rest.length

/-- The head of a query. After a problem the tokens left of its segment are skipped. -/
def headOnward : Parser Head := do
  let h ← headWith isAtStop
  if h.problem.isSome then synchronize
  return h

/-- A stage after its pipe. After a problem, and where tokens are left over, the tokens left of its
segment are skipped. -/
def stageOnward [Regex.Library] : Parser (Option Stage × Option Problem) := do
  match ← attempt stage with
  | .error problem =>
    synchronize
    return (none, some problem)
  | .ok s =>
    if ← isAtStop then return (some s, none)
    else
      let problem ← problemHere ["'|'", "end of input"]
      synchronize
      return (some s, some problem)

/-- Stages up to the end of input. -/
def stagesOnward [Regex.Library] : Nat → Parser (List Stage × List Problem)
  | 0 => return ([], [])
  | fuel + 1 => do
    if (← peek).kind = .endOfInput then return ([], [])
    else if ← isAt .pipe then
      advance
      let (s, problem) ← stageOnward
      let (stages, problems) ← stagesOnward fuel
      return (s.toList ++ stages, problem.toList ++ problems)
    else
      let problem ← problemHere ["'|'"]
      synchronize
      let (stages, problems) ← stagesOnward fuel
      return (stages, problem :: problems)

/-- A query with its problems. -/
def queryOnward [Regex.Library] : Parser (Query × List Problem) := do
  let h ← headOnward
  let (stages, problems) ← stagesOnward ((← get).rest.length + 1)
  return (⟨h.preFilters, h.search, stages⟩, h.problem.toList ++ problems)

end Parser

/-- What one pass over all tokens gives. -/
def parseOnward [Regex.Library] (tokens : List Token) : Except Problem (Query × List Problem) :=
  match Parser.queryOnward.run
      (.ofSegment 0 (tokensBeforeEnd tokens) (finalToken tokens, finalToken tokens)) with
  | .ok result _ => .ok result
  | .error problem _ => .error problem

open LogSearch.Query.Parser

/-! ## Places between segments -/

/-- A cursor over all tokens: `ts` are left of its segment, and `behind` them are the others. -/
structure Cursor.Before (c : Cursor) (ts behind : List Token) (final : Token) : Prop where
  rest : c.rest = ts ++ behind
  stop : c.stop = final
  inside : ∀ t ∈ ts, ¬ EndsSegment t
  ends : EndsSegment (behind.headD final)

/-- Two runs over the same tokens. -/
def Pairing.alike (stop : Token) (behind : List Token) (final : Token) (h : EndsSegment stop)
    (h' : EndsSegment (behind.headD final)) : Pairing where
  same := Eq
  kind_eq := congrArg Token.kind
  text_eq := congrArg Token.text
  stop := stop
  behind := behind
  final := final
  ends := h
  ends_behind := h'

variable {c : Cursor} {t : Token} {ts behind : List Token} {final : Token}

namespace Cursor.Before

/-- At the end of a segment comes what is behind it. -/
theorem next_nil (h : c.Before [] behind final) : c.next = behind.headD final := by
  rw [Cursor.next, h.rest, List.nil_append, h.stop]

/-- In a segment comes its next token. -/
theorem next_cons (h : c.Before (t :: ts) behind final) : c.next = t := by
  rw [Cursor.next, h.rest]
  rfl

/-- Going on leaves the tokens behind the segment. -/
theorem advanced (h : c.Before (t :: ts) behind final) : c.advanced.Before ts behind final := by
  have hadv : c.advanced = { c with rest := ts ++ behind, lastStop := t.span.stop } := by
    rw [Cursor.advanced, h.rest]
    rfl
  rw [hadv]
  exact ⟨rfl, h.stop, fun u hu => h.inside u (List.mem_cons_of_mem _ hu), h.ends⟩

end Cursor.Before

/-- Where both runs find the same token after the segment, they have the same problem. -/
theorem Pairing.SameProblem.eq_of_alike {stop : Token} {h : EndsSegment stop}
    {h' : EndsSegment (behind.headD final)} {e e' : Problem}
    (he : (Pairing.alike stop behind final h h').SameProblem e e')
    (hstop : stop = behind.headD final) : e = e' := by
  cases he with
  | within ht => exact congrArg (fun t : Token => Problem.mk _ t.span _) ht
  | atEnd => exact congrArg (fun t : Token => Problem.mk (.unexpected t.kind) t.span _) hstop

/-- What the second run has left. -/
theorem Pairing.Sees.before {stop : Token} {h : EndsSegment stop}
    {h' : EndsSegment (behind.headD final)} {d d' : Cursor}
    (hd : (Pairing.alike stop behind final h h').Sees d d' ts) :
    d'.Before ts behind final := by
  obtain ⟨ts', hrest', hsame⟩ := hd.rest'
  have heq : ts = ts' := List.forall₂_eq_eq_eq ▸ hsame
  exact ⟨heq ▸ hrest', hd.final, hd.inside, h'⟩

/-- A segment by itself, and in a pass over all tokens. -/
theorem Cursor.Before.sees (hc : c.Before ts behind final) (start : Nat) (beyond : Token) :
    (Pairing.alike _ behind final hc.ends hc.ends).Sees
      (.ofSegment start ts (behind.headD final, beyond)) c ts :=
  ⟨rfl, ⟨ts, hc.rest, List.forall₂_same.2 fun _ _ => rfl⟩, rfl, hc.stop, hc.inside⟩

namespace Parser

/-! ### Skipping -/

/-- The test of the end looks at the next token. -/
theorem run_isAtStop (c : Cursor) :
    isAtStop.run c = .ok (decide (c.next.kind = .symbol .pipe ∨ c.next.kind = .endOfInput)) c := rfl

/-- At the end of a segment the test succeeds. -/
theorem run_isAtStop_nil (h : c.Before [] behind final) : isAtStop.run c = .ok true c := by
  have hends : c.next.kind = .symbol .pipe ∨ c.next.kind = .endOfInput := h.next_nil ▸ h.ends
  rw [run_isAtStop, decide_eq_true hends]

/-- In a segment the test fails. -/
theorem run_isAtStop_cons (h : c.Before (t :: ts) behind final) :
    isAtStop.run c = .ok false c := by
  have hin : ¬ (c.next.kind = .symbol .pipe ∨ c.next.kind = .endOfInput) :=
    h.next_cons ▸ h.inside t List.mem_cons_self
  rw [run_isAtStop, decide_eq_false hin]

/-- The problem of being somewhere is told by the next token. -/
theorem run_problemHere (expected : List String) (c : Cursor) :
    (problemHere expected).run c = .ok ⟨.unexpected c.next.kind, c.next.span, expected⟩ c := rfl

/-- Enough steps skip the tokens of a segment. -/
theorem run_skipWithin {fuel : Nat} (h : c.Before ts behind final) (hfuel : ts.length ≤ fuel) :
    ∃ d, (skipWithin fuel).run c = .ok () d ∧ d.Before [] behind final := by
  induction ts generalizing c fuel with
  | nil =>
    refine ⟨c, ?_, h⟩
    cases fuel with
    | zero => rfl
    | succ fuel =>
      rw [skipWithin, run_bind_of_ok (run_isAtStop_nil h)]
      rfl
  | cons t ts ih =>
    cases fuel with
    | zero => simp at hfuel
    | succ fuel =>
      obtain ⟨d, hd, hbefore⟩ := ih h.advanced (Nat.le_of_succ_le_succ hfuel)
      refine ⟨d, ?_, hbefore⟩
      rw [skipWithin, run_bind_of_ok (run_isAtStop_cons h)]
      exact (run_bind_of_ok (run_advance c)).trans hd

/-- Skipping goes to the end of the segment. -/
theorem run_synchronize (h : c.Before ts behind final) :
    ∃ d, synchronize.run c = .ok () d ∧ d.Before [] behind final := by
  have hlen : ts.length ≤ c.rest.length := by simp [h.rest]
  obtain ⟨d, hd, hbefore⟩ := run_skipWithin h hlen
  exact ⟨d, hd, hbefore⟩

/-! ### Heads and stages -/

/-- A stage in one pass is what its tokens give by themselves. -/
theorem run_stageOnward [Regex.Library] (pipe beyond : Token) (h : c.Before ts behind final) :
    ∃ d, stageOnward.run c =
        .ok ((readStage pipe ts (behind.headD final, beyond)).value,
          (readStage pipe ts (behind.headD final, beyond)).problem) d ∧
      d.Before [] behind final := by
  have hmeets := agree_stage _ _ (h.sees pipe.span.stop beyond)
  rw [stageOnward, readStage, EStateM.run_bind, run_attempt]
  generalize stage.run (.ofSegment pipe.span.stop ts (behind.headD final, beyond)) = r at hmeets ⊢
  generalize stage.run c = r' at hmeets ⊢
  cases hmeets with
  | @error e e' d d' us he hd _ =>
    obtain ⟨d'', hd'', hbefore⟩ := run_synchronize hd.before
    refine ⟨d'', ?_, hbefore⟩
    rw [he.eq_of_alike rfl]
    exact run_bind_of_ok hd''
  | @ok s s' d d' us heq hd _ _ =>
    subst heq
    cases us with
    | nil =>
      refine ⟨d', ?_, hd.before⟩
      have hleft : leftoverProblem ["'|'", "end of input"] d = none := by
        simp [leftoverProblem, hd.rest]
      dsimp only
      rw [hleft]
      exact run_bind_of_ok (run_isAtStop_nil hd.before)
    | cons u us =>
      obtain ⟨d'', hd'', hbefore⟩ := run_synchronize hd.before
      refine ⟨d'', ?_, hbefore⟩
      have hleft : leftoverProblem ["'|'", "end of input"] d =
          some ⟨.unexpected d'.next.kind, d'.next.span, ["'|'", "end of input"]⟩ := by
        simp [leftoverProblem, hd.rest, hd.before.next_cons]
      dsimp only
      rw [hleft]
      refine (run_bind_of_ok (run_isAtStop_cons hd.before)).trans ?_
      refine (run_bind_of_ok (run_problemHere _ d')).trans ?_
      exact run_bind_of_ok hd''

/-- A problem in a pre-filter does not undo the ones before it. -/
theorem run_preFilters_ok (fuel : Nat) (c : Cursor) : ∃ r d, (preFilters fuel).run c = .ok r d := by
  induction fuel generalizing c with
  | zero => exact ⟨_, _, rfl⟩
  | succ fuel ih =>
    rw [preFilters, run_bind_of_ok (run_suggest .params c), EStateM.run_bind, run_attempt]
    cases preFilter?.run (suggested .params c) with
    | error e d => exact ⟨_, _, rfl⟩
    | ok r d =>
      cases r with
      | none => exact ⟨_, _, rfl⟩
      | some f =>
        obtain ⟨r, d', hr⟩ := ih d
        exact ⟨_, d', run_bind_of_ok hr⟩

/-- So the head of a query never fails. -/
theorem run_head_ok (c : Cursor) : ∃ h d, head.run c = .ok h d := by
  obtain ⟨⟨filters, problem⟩, d, hr⟩ := run_preFilters_ok (c.rest.length + 1) c
  have hhead : head.run c = _ := (run_bind_of_ok (EStateM.run_get c)).trans (run_bind_of_ok hr)
  rw [hhead]
  cases problem with
  | some problem => exact ⟨_, _, rfl⟩
  | none =>
    rw [run_bind_of_ok (EStateM.run_get d)]
    split
    next => exact ⟨_, _, rfl⟩
    next =>
      rw [EStateM.run_bind, run_attempt]
      cases (search (2 * c.rest.length + 2)).run d with
      | ok s e => exact ⟨_, _, rfl⟩
      | error e d' => exact ⟨_, _, rfl⟩

/-- The end of a segment, by itself and in one pass. -/
theorem agree_isAtStop {P : Pairing} :
    P.Agree Eq ts.length ts (do return (← get).rest.isEmpty) isAtStop := by
  intro c c' hc
  have hempty : c.rest.isEmpty =
      decide (c'.next.kind = .symbol .pipe ∨ c'.next.kind = .endOfInput) := by
    have hnext := hc.next
    rw [hc.rest]
    generalize c.next = t at hnext
    generalize c'.next = t' at hnext
    cases hnext with
    | atEnd =>
      have hends := P.ends'
      rw [EndsSegment] at hends
      exact (decide_eq_true hends).symm
    | inside ht hin =>
      rw [EndsSegment, P.kind_eq ht] at hin
      exact (decide_eq_false hin).symm
  exact .ok hempty hc (Nat.le_refl _) (Nat.le_refl _)

/-- The problem at tokens left over from the head. -/
def leftover (ts : List Token) : Option Problem :=
  ts.head?.map fun t => ⟨.unexpected t.kind, t.span, ["'|'"]⟩

/-- The head in one pass is what its tokens give by themselves; a problem at tokens left over is
still to come. -/
theorem run_headOnward (beyond : Token) (h : c.Before ts behind final) :
    ∃ r d us, headOnward.run c = .ok r d ∧ d.Before us behind final ∧
      (readHead ts (behind.headD final, beyond)).value = (r.preFilters, r.search) ∧
      (readHead ts (behind.headD final, beyond)).problem.toList =
        r.problem.toList ++ (leftover us).toList := by
  have hmeets := agree_headWith (fun us => agree_isAtStop) _ _ (h.sees 0 beyond)
  rw [headOnward, readHead, EStateM.run_bind]
  obtain ⟨r, d, hr⟩ := run_head_ok (.ofSegment 0 ts (behind.headD final, beyond))
  rw [← head_eq] at hmeets
  rw [hr] at hmeets ⊢
  generalize (headWith isAtStop).run c = r' at hmeets ⊢
  cases hmeets with
  | @ok _ h' _ d' us hsame hd _ _ =>
  obtain ⟨filters, search, problem⟩ := r
  obtain ⟨filters', search', problem'⟩ := h'
  obtain ⟨hfilters, hsearch, hproblem⟩ := hsame
  dsimp only at hfilters hsearch hproblem ⊢
  subst hfilters hsearch
  cases hproblem with
  | @some e e' he =>
    obtain ⟨d'', hd'', hbefore⟩ := run_synchronize hd.before
    refine ⟨_, d'', [], run_bind_of_ok hd'', hbefore, rfl, ?_⟩
    rw [he.eq_of_alike rfl]
    rfl
  | none =>
    refine ⟨_, d', us, rfl, hd.before, rfl, ?_⟩
    rw [leftoverProblem, hd.rest]
    rfl

/-! ### Queries -/

/-- Behind a segment come the pipes of the others, or the end. -/
theorem segmentEnd_eq (final : Token) (segments : List (Token × List Token)) :
    segmentEnd final segments =
      ((joinSegments segments).headD final, (segmentEnd final segments).2) := by
  cases segments <;> rfl

/-- Each segment has its pipe at least. -/
theorem length_le_joinSegments (segments : List (Token × List Token)) :
    segments.length ≤ (joinSegments segments).length := by
  induction segments with
  | nil => exact Nat.le_refl _
  | cons segment segments ih =>
    simp only [joinSegments, List.flatMap_cons, List.length_append, List.length_cons] at ih ⊢
    omega

/-- Going through the stages of all segments gives what each gives by itself. -/
theorem run_stagesOnward [Regex.Library] {segments : List (Token × List Token)} {fuel : Nat}
    (hs : AreSegments segments) (hfinal : final.kind = .endOfInput)
    (h : c.Before [] (joinSegments segments) final) (hfuel : segments.length < fuel) :
    ∃ d, (stagesOnward fuel).run c =
      .ok ((readStages final segments).filterMap SegmentResult.value,
        (readStages final segments).filterMap SegmentResult.problem) d := by
  induction segments generalizing c fuel with
  | nil =>
    obtain _ | fuel := fuel
    · simp at hfuel
    have hend : c.next.kind = .endOfInput := h.next_nil ▸ hfinal
    refine ⟨c, ?_⟩
    rw [stagesOnward, run_bind_of_ok (run_peek c), if_pos hend]
    rfl
  | cons segment segments ih =>
    obtain ⟨pipe, ts⟩ := segment
    obtain ⟨⟨hpipe, hts⟩, hs⟩ := List.forall_mem_cons.1 hs
    dsimp only at hpipe
    obtain _ | fuel := fuel
    · simp at hfuel
    have hnext : c.next = pipe := h.next_nil
    have hends : EndsSegment ((joinSegments segments).headD final) := by
      have := segmentEnd_ends hfinal fun s hmem => (hs s hmem).1
      rwa [segmentEnd_eq] at this
    have hadv : c.advanced.Before ts (joinSegments segments) final := by
      have hadv : c.advanced =
          { c with rest := ts ++ joinSegments segments, lastStop := pipe.span.stop } := by
        rw [Cursor.advanced, h.rest]
        rfl
      rw [hadv]
      exact ⟨rfl, h.stop, hts, hends⟩
    obtain ⟨d, hd, hbefore⟩ := run_stageOnward pipe (segmentEnd final segments).2 hadv
    rw [← segmentEnd_eq] at hd
    obtain ⟨d', hd'⟩ := ih hs hbefore (Nat.lt_of_succ_lt_succ hfuel)
    refine ⟨d', ?_⟩
    rw [stagesOnward, run_bind_of_ok (run_peek c), if_neg (by simp [hnext, hpipe]),
      run_bind_of_ok (run_isAt .pipe c), if_pos (by simp [hnext, hpipe]),
      run_bind_of_ok (run_advance c), run_bind_of_ok hd, run_bind_of_ok hd', readStages,
      filterMap_cons_toList, filterMap_cons_toList]
    rfl

/-- What is left over from the head is the next problem. -/
theorem run_stagesOnward_leftover [Regex.Library] {segments : List (Token × List Token)}
    {fuel : Nat} (hs : AreSegments segments) (hfinal : final.kind = .endOfInput)
    (h : c.Before ts (joinSegments segments) final) (hfuel : c.rest.length < fuel) :
    ∃ d, (stagesOnward fuel).run c =
      .ok ((readStages final segments).filterMap SegmentResult.value, (leftover ts).toList ++
        (readStages final segments).filterMap SegmentResult.problem) d := by
  have hlen := length_le_joinSegments segments
  rw [h.rest, List.length_append] at hfuel
  cases ts with
  | nil => exact run_stagesOnward hs hfinal h (by omega)
  | cons t ts =>
    obtain _ | fuel := fuel
    · simp at hfuel
    rw [List.length_cons] at hfuel
    have hlt : segments.length < fuel := by omega
    have hin : t.kind ≠ .symbol .pipe ∧ t.kind ≠ .endOfInput :=
      not_or.1 (h.inside t List.mem_cons_self)
    obtain ⟨d, hd, hbefore⟩ := run_synchronize h
    obtain ⟨d', hd'⟩ := run_stagesOnward hs hfinal hbefore hlt
    refine ⟨d', ?_⟩
    rw [stagesOnward, run_bind_of_ok (run_peek c), if_neg (by simp [h.next_cons, hin.2]),
      run_bind_of_ok (run_isAt .pipe c), if_neg (by simp [h.next_cons, hin.1]),
      run_bind_of_ok (run_problemHere _ c), run_bind_of_ok hd, run_bind_of_ok hd', h.next_cons]
    rfl

end Parser

/-! ## Tokens -/

/-- One pass over all tokens reads the query that is read from segments, and has the same problems
in the same order. -/
theorem parseOnward_eq [Regex.Library] (tokens : List Token) :
    parseOnward tokens = .ok ((parseTokens tokens).query, (parseTokens tokens).problems) := by
  have hfinal : (finalToken tokens).kind = .endOfInput := finalToken_kind tokens
  obtain ⟨hfirst, hothers⟩ := splitAtPipes_areSegments (tokensBeforeEnd_kind tokens)
  have hends := segmentEnd_ends hfinal fun s hs => (hothers s hs).1
  obtain ⟨hjoin, -⟩ := splitAtPipes_join (tokensBeforeEnd tokens)
  have hbefore : (Cursor.ofSegment 0 (tokensBeforeEnd tokens)
      (finalToken tokens, finalToken tokens)).Before (splitAtPipes (tokensBeforeEnd tokens)).1
        (joinSegments (splitAtPipes (tokensBeforeEnd tokens)).2) (finalToken tokens) :=
    ⟨hjoin.symm, rfl, hfirst, by rwa [segmentEnd_eq] at hends⟩
  obtain ⟨r, d, us, hr, hd, hvalue, hproblem⟩ := run_headOnward
    (segmentEnd (finalToken tokens) (splitAtPipes (tokensBeforeEnd tokens)).2).2 hbefore
  rw [← segmentEnd_eq] at hvalue hproblem
  obtain ⟨d', hd'⟩ := run_stagesOnward_leftover hothers hfinal hd (Nat.lt_succ_self _)
  have hquery : queryOnward.run (.ofSegment 0 (tokensBeforeEnd tokens)
      (finalToken tokens, finalToken tokens)) = .ok _ d' :=
    (run_bind_of_ok hr).trans ((run_bind_of_ok (EStateM.run_get d)).trans (run_bind_of_ok hd'))
  rw [parseOnward, hquery, query_parseTokens, problems_parseTokens]
  dsimp only
  rw [hvalue, hproblem, List.append_assoc]

end LogSearch.Query
