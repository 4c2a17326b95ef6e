import LogSearch.Proofs.Query.Acceptance
import LogSearch.Proofs.Query.Finite
import LogSearch.Proofs.Query.Loss
import LogSearch.Regex.Program

/-!
# Reading canonical texts back

A query that a text was read as is written as its canonical text, and that text is read again. The
canonical text has blanks where the first text need not have had any, and none where it may have had
some, so that other tokens can come out.

* `exists_of_parse`, `parse_of_spelled`: a text is read as the query that its spelled tokens derive.
* `Query.Faithful`: what keeps a query in its canonical text.
* `readsBack_iff`: a query is read back exactly when it is faithful.
-/

namespace LogSearch.Query

/-! ## Texts and their tokens -/

/-- The tokens of a text are those of its lexemes. -/
theorem tokensBeforeEnd_tokenize (text : String) :
    tokensBeforeEnd (tokenize text).tokens = (lexemes text.toList).filterMap Lexeme.token? := by
  have hend : ∀ t ∈ (lexemes text.toList).filterMap Lexeme.token?, t.kind ≠ .endOfInput := by
    intro t ht
    obtain ⟨l, hl, hlt⟩ := List.mem_filterMap.1 ht
    have hne := mem_lexemesFrom_ne_endOfInput hl
    unfold Lexeme.token? at hlt
    split at hlt
    next kind hkind =>
      obtain rfl : _ = t := by simpa using hlt
      rintro rfl
      exact hne hkind
    next => simp at hlt
  unfold tokensBeforeEnd tokenize
  rw [List.takeWhile_append_of_pos (by simpa using hend)]
  simp

/-- A text without faults is spelled as its tokens. -/
theorem spelled?_tokenize (text : String) :
    spelled? .initial text.toList =
      if (tokenize text).faults = [] then
        some ((tokensBeforeEnd (tokenize text).tokens).map Token.spelling) else none := by
  have hmap := map_lexemesFrom .initial 0 0 text.toList
  rw [spelled?, ← hmap, spell_map_lexemes, tokensBeforeEnd_tokenize]
  simp [tokenize, lexemes]

/-- A text has no problems if neither the lexer nor the parser finds any. -/
theorem parse_problems_eq_nil [Regex.Library] {text : String} :
    (parse text).problems = [] ↔
      (tokenize text).faults = [] ∧ (parseTokens (tokenize text).tokens).problems = [] := by
  simp only [parse, ← List.length_eq_zero_iff, List.length_mergeSort, List.length_append,
    lexicalProblems, List.length_map]
  omega

/-- A text that is read without a problem is read as the query that its tokens derive. -/
theorem exists_of_parse [Regex.Library] {text : String} (h : (parse text).problems = []) :
    ∃ ts : List Token, spelled? .initial text.toList = some (ts.map Token.spelling) ∧
      WritesQuery ts (parse text).query := by
  obtain ⟨hf, hp⟩ := parse_problems_eq_nil.1 h
  exact ⟨_, by rw [spelled?_tokenize, if_pos hf], (parseTokens_iff _ _).1 ⟨hp, rfl⟩⟩

/-- A text whose spelled tokens derive a query is read without a problem as that query. -/
theorem parse_of_spelled [Regex.Library] {text : String} {ks : List Spelling} {q : LogSearch.Query}
    (h : spelled? .initial text.toList = some ks)
    (hq : ∀ ts : List Token, ts.map Token.spelling = ks → WritesQuery ts q) :
    (parse text).problems = [] ∧ (parse text).query = q := by
  rw [spelled?_tokenize] at h
  split at h
  next hf =>
    have hw := hq _ (Option.some.inj h)
    obtain ⟨hp, rfl⟩ := (parseTokens_iff _ _).2 hw
    exact ⟨parse_problems_eq_nil.2 ⟨hf, hp⟩, rfl⟩
  next => simp at h

/-- A text without problems means a well-formed query. -/
theorem wellFormed_of_parse [Regex.Library] {text : String} (h : (parse text).problems = []) :
    (parse text).query.WellFormed := by
  obtain ⟨ts, hts, hw⟩ := exists_of_parse h
  exact hw.wellFormed (allFit_spelled hts)

end LogSearch.Query

namespace LogSearch

open LogSearch.Query

/-! ## Faithful queries -/

/-- The canonical text is read without a problem as the query that it is the text of. -/
def Query.ReadsBack [Regex.Library] (q : Query) : Prop := (parse q.text).problems = [] ∧
    (parse q.text).query = q

/-- What keeps a query in its canonical text. -/
structure Query.Faithful (q : Query) : Prop where
  /-- No key before an equals sign ends in an exclamation mark: both would be one operator. -/
  keys : ∀ f ∈ q.preFilters, f.op = .equal → f.key.toList.getLast? ≠ some '!'
  /-- Nothing that is written after a blank starts with two slashes. -/
  comments : q.NoComments
  /-- No number of the stages is beyond the range of doubles. -/
  numbers : ∀ s ∈ q.pipeline, s.Finite

/-- The canonical text has the tokens of its layout. -/
theorem Query.spelled?_text [Regex.Library] {q : Query} (h : q.WellFormed)
    (hkeys : ∀ f ∈ q.preFilters, f.op = .equal → f.key.toList.getLast? ≠ some '!')
    (hcomments : q.NoComments) :
    spelled? .initial q.text.toList = some (spellings .search q.layout) := by
  have hlex : spelled? ⟨.search, true⟩ (chars q.layout ++ []) = _ :=
    spelled?_layout (Query.legible h hkeys) ((Query.uncommented_iff h).2 hcomments)
  rw [List.append_nil, q.chars_layout, spelled?_nil, Option.map_some, List.append_nil] at hlex
  exact hlex

/-- A faithful query is read back. -/
theorem Query.Faithful.readsBack [Regex.Library] {q : Query} (h : q.WellFormed) (hf : q.Faithful) :
    q.ReadsBack :=
  parse_of_spelled (Query.spelled?_text h hf.keys hf.comments) fun _ hts =>
    Query.derives h hf.numbers hts

/-- The tokens after the pre-filters of a canonical text yield what is written there. -/
theorem Query.yields_tail [Regex.Library] {ts us : List Token} {search : Option Search}
    {stages : List Stage}
    (hsearch : Maybe WritesSearch ts search []) (hstages : WritesStages us stages)
    (hw : ∀ e ∈ stages, e.WellFormed) :
    Yields (ts ++ us)
      (blankLayout (search.toList.map Search.layout ++ stages.map Stage.layout)) [] := by
  have htail := hstages.yields hw
  cases hsearch with
  | none => exact htail
  | some hsearch =>
    refine (Yields.append (hsearch.yields.frame us) htail).congr ?_
    simp

/-- The numbers of the stages after the tokens of a search. -/
theorem Query.finite_tail [Regex.Library] {ts us : List Token} {search : Option Search}
    {stages : List Stage}
    (hsearch : Maybe WritesSearch ts search []) (hstages : WritesStages us stages)
    (hw : ∀ e ∈ stages, e.WellFormed)
    (hts : (ts ++ us).map Token.spelling = spellings .search
      (blankLayout (search.toList.map Search.layout ++ stages.map Stage.layout))) :
    ∀ e ∈ stages, e.Finite := by
  cases hsearch with
  | none => exact hstages.finite hw hts
  | @some e _ _ hsearch =>
    have hno : NoPipe (ts.map Token.spelling) := by
      simpa [NoPipe, Token.spelling] using MayPass.no_pipe hsearch.passes.to_reflTransGen
    rw [List.map_append, Option.toList_some, List.map_cons, List.map_nil, List.singleton_append,
      spellings_blankLayout, e.inner.spellings (by simp), e.inner.segmentAfter (by simp)] at hts
    exact hstages.finite hw
      (eq_of_append_eq hno e.inner.noPipe hstages.atPipe (atPipe_stages hw) hts).2

/-- A query that is read back is faithful. -/
theorem Query.ReadsBack.faithful [Regex.Library] {q : Query} (h : q.WellFormed) (hr : q.ReadsBack) :
    q.Faithful := by
  obtain ⟨hp, hq⟩ := hr
  obtain ⟨ts, hs, hw⟩ := exists_of_parse hp
  rw [hq] at hw
  have hfit := allFit_spelled hs
  rw [← q.chars_layout] at hs
  obtain @⟨filters, search, stages, ts, us, hhead, hstages⟩ := hw
  rw [List.map_append] at hfit
  obtain ⟨hfit, -⟩ := allFit_append (by decide) hhead.no_pipe hfit
  obtain @⟨filters, search, ts, ws, hfilters, hsearch⟩ := hhead
  rw [Query.layout, List.append_assoc] at hs
  obtain ⟨hkeys, hrest⟩ := filters_of_spelled h.preFilters hfilters hfit us hs
  let tail : Query := ⟨[], search, stages⟩
  have htail : tail.WellFormed := ⟨by simp [tail], h.search, h.pipeline⟩
  have hlegible : Legible .search tail.layout [] := Query.legible htail (by simp [tail])
  have hrest' : spelled? ⟨.search, true⟩ (chars tail.layout) = some ((ws ++ us).map Token.spelling) :=
    hrest
  have hquiet := uncommented_of_yields hlegible hrest' (Query.yields_tail hsearch hstages h.pipeline)
  have hcomments := (Query.uncommented_iff htail).1 hquiet
  have hlex : spelled? ⟨.search, true⟩ (chars tail.layout ++ []) = _ :=
    spelled?_layout hlegible hquiet
  rw [List.append_nil, hrest', spelled?_nil] at hlex
  rw [Option.map_some, List.append_nil] at hlex
  exact ⟨fun f hf => (hkeys f hf).2, ⟨fun f hf => (hkeys f hf).1, hcomments.search,
    hcomments.pipeline⟩, Query.finite_tail hsearch hstages h.pipeline (Option.some.inj hlex)⟩

/-- The canonical text of a query that a text was read as, without a problem, is read back as the
query exactly when the query is faithful. -/
theorem readsBack_iff [Regex.Library] {text : String} (h : (parse text).problems = []) :
    (parse text).query.ReadsBack ↔ (parse text).query.Faithful :=
  ⟨Query.ReadsBack.faithful (wellFormed_of_parse h), Query.Faithful.readsBack (wellFormed_of_parse h)⟩

attribute [local instance] Regex.standard

/-- A filter and a term are read back. -/
theorem reads_back_timeout : (parse "level!=error timeout").problems = [] ∧
    (parse "level!=error timeout").query.ReadsBack := by
  have hp : (parse "level!=error timeout").problems = [] :=
    List.isEmpty_iff.1 (by decide +kernel)
  have hfilters : (parse "level!=error timeout").query.preFilters =
      [⟨"level", .notEqual, "error"⟩] := by decide +kernel
  have hsearch : (parse "level!=error timeout").query.search =
      some (.literal (.term "timeout")) := by decide +kernel
  have hpipeline : (parse "level!=error timeout").query.pipeline = [] :=
    List.isEmpty_iff.1 (by decide +kernel)
  refine ⟨hp, (readsBack_iff hp).2 ⟨by simp [hfilters], ⟨?_, ?_, by simp [hpipeline]⟩, ?_⟩⟩
  · simp only [hfilters, List.mem_singleton, forall_eq]
    decide
  · simp only [hsearch, Option.mem_some_iff, forall_eq']
    exact fun _ => by decide
  · simp [hpipeline]

/-- The exclamation mark that ends a key is read as half of an operator when the blank after it is
gone. -/
theorem bang_key_not_read_back : (parse "foo! =bar").problems = [] ∧
    ¬ (parse "foo! =bar").query.ReadsBack := by
  have hp : (parse "foo! =bar").problems = [] := List.isEmpty_iff.1 (by decide +kernel)
  refine ⟨hp, fun h => ?_⟩
  have hfilters := congrArg Query.preFilters h.2
  revert hfilters
  decide +kernel

/-- A term after a parenthesis is a comment when a blank stands before it. -/
example : (parse "(a)//b").problems.isEmpty = true ∧
    (parse (parse "(a)//b").query.text).problems.isEmpty = false := by
  decide +kernel

end LogSearch
