import LogSearch.Proofs.Query.Gaps
import LogSearch.Proofs.Query.Onward
import LogSearch.Proofs.Query.Walks

/-!
# Every token is highlighted once

A token is highlighted where it is taken, so the highlights of a text follow its tokens: they stand
in their order, and what a reader has not come to is not highlighted.

* `searchPart`: what is left of a head behind its pre-filters.
* `Cursor.Takes`: the tokens between two cursors and the highlights they have got.
* `places_readHead`, `places_readStages`: the highlights of segments.
* `Highlighted`: what an editor can rely on, and `highlights_follow_tokens`: that it can.
-/

namespace LogSearch.Query

open LogSearch.Query.Parser TokenKind

variable {shown : TokenKind → Bool} {may : MarkerChange → Prop} {ts us vs : List Token}
  {c d e : Cursor} {ends : Token × Token}

/-! ## What is said of highlights -/

/-- The bytes of a highlight. -/
def Highlight.span (h : Highlight) : Span := ⟨h.start, h.stop⟩

/-- What is left of the tokens of a head behind its pre-filters, which are a word, a comparison and a
value each. -/
def searchPart : List Token → List Token
  | key :: op :: value :: ts =>
    match key.kind, filterOp? op.kind with
    | .word _, some _ => searchPart ts
    | _, _ => key :: op :: value :: ts
  | ts => ts

/-- The tokens of the search among all tokens of a text. -/
def searchTokens (tokens : List Token) : List Token :=
  searchPart (splitAtPipes (tokensBeforeEnd tokens)).1

/-- The highlights of a text follow its tokens. -/
structure Highlighted [Regex.Library] (text : String) : Prop where
  /-- A highlight has the span of one token and of no other. -/
  one_token : ∀ h ∈ (parse text).highlights, ∃! t, t ∈ (tokenize text).tokens ∧ t.span = h.span
  /-- No token is highlighted twice. -/
  once : ((parse text).highlights.map Highlight.span).Nodup
  /-- Highlights are sorted and none reaches into another. -/
  order : (parse text).highlights.Pairwise fun h k => h.span.Before k.span
  /-- Without a problem, only marks of structure and the words of a search are left out. -/
  all : (parse text).problems = [] → ∀ t ∈ (tokenize text).tokens,
    ((∃ h ∈ (parse text).highlights, h.span = t.span) ↔
      t.kind ∉ structuralKinds ∧ ¬ (t ∈ searchTokens (tokenize text).tokens ∧ ∃ s, t.kind = .word s))

/-! ## Highlights along a run -/

/-- The places that marks highlight. -/
def Marks.places (m : Marks) : List Span := m.highlights.map Highlight.span

/-- Highlighting bytes adds their place behind the others. -/
theorem Marks.places_highlight (m : Marks) (kind : HighlightKind) {s : Span}
    (h : s.start < s.stop) : (m.highlight kind s.start s.stop).places = m.places ++ [s] := by
  rw [Marks.highlight, if_pos h]
  exact List.map_append

/-- The spans of the tokens of the kinds shown. -/
def shownSpans (shown : TokenKind → Bool) (ts : List Token) : List Span :=
  (ts.filter fun t => shown t.kind).map Token.span

/-- Of tokens one behind the other those that are shown are shown in order. -/
theorem shownSpans_append :
    shownSpans shown (ts ++ us) = shownSpans shown ts ++ shownSpans shown us := by
  simp [shownSpans]

/-- The spans that are shown are some of those of the tokens. -/
theorem shownSpans_sublist : (shownSpans shown ts).Sublist (ts.map Token.span) :=
  List.filter_sublist.map _

/-- Each token has a first byte and an end after it. -/
def TakeBytes (ts : List Token) : Prop := ∀ t ∈ ts, t.span.start < t.span.stop

/-- From `c` to `d` the tokens `us` are taken, and those of them that are shown are highlighted. -/
structure Cursor.Takes (shown : TokenKind → Bool) (c d : Cursor) (us : List Token) : Prop where
  rest : c.rest = us ++ d.rest
  places : d.marks.places = c.marks.places ++ shownSpans shown us

/-- Tokens that are taken in two steps are taken together. -/
theorem Cursor.Takes.trans (h : c.Takes shown d us) (h' : d.Takes shown e vs) :
    c.Takes shown e (us ++ vs) where
  rest := by rw [h.rest, h'.rest, List.append_assoc]
  places := by rw [h'.places, h.places, shownSpans_append, List.append_assoc]

/-- A step that only changes markers takes nothing. -/
theorem Cursor.Takes.of_markers (hrest : d.rest = c.rest)
    (hmarks : d.marks.highlights = c.marks.highlights) : c.Takes shown d [] where
  rest := hrest.symm
  places := by simp [Marks.places, hmarks, shownSpans]

/-- A step takes tokens. -/
theorem Cursor.Step.takes (h : c.Step shown may d) (hc : TakeBytes c.rest) :
    ∃ us, c.Takes shown d us := by
  cases h with
  | @pass t ts hrest hshown =>
    refine ⟨[t], ?_, ?_⟩
    · simp [Cursor.advanced, hrest]
    · simp [Cursor.advanced, hrest, shownSpans, hshown]
  | @take t ts kind hrest hshown =>
    have hbytes : t.span.start < t.span.stop := hc t (by simp [hrest])
    have hnext : c.next = t := by simp [Cursor.next, hrest]
    rw [taken, hnext]
    refine ⟨[t], ?_, ?_⟩
    · simp [highlighted, Cursor.marked, Cursor.advanced, hrest]
    · change (c.advanced.marks.highlight kind t.span.start t.span.stop).places = _
      rw [Marks.places_highlight _ _ hbytes]
      simp [Cursor.advanced, hrest, shownSpans, hshown]
  | suggest => exact ⟨[], .of_markers rfl rfl⟩
  | @change change => cases change <;> exact ⟨[], .of_markers rfl rfl⟩

/-- On its way a reader takes tokens from the front, and highlights them in their order. -/
theorem Cursor.Steps.takes (h : c.Steps shown may d) (hc : TakeBytes c.rest) :
    ∃ us, c.Takes shown d us := by
  induction h with
  | refl => exact ⟨[], .of_markers rfl rfl⟩
  | @tail d e _ hstep ih =>
    obtain ⟨us, hus⟩ := ih
    have hd : TakeBytes d.rest := fun t ht => hc t (hus.rest ▸ List.mem_append_right us ht)
    obtain ⟨vs, hvs⟩ := hstep.takes hd
    exact ⟨us ++ vs, hus.trans hvs⟩

namespace Parser

/-! ## Heads -/

/-- Without a pre-filter the search starts at once. -/
theorem searchPart_of_not_startsFilter (h : ¬ StartsFilter ts) : searchPart ts = ts := by
  unfold searchPart
  split
  next key op value ts =>
    split
    next s o hkey hop => exact absurd ⟨⟨s, hkey⟩, by simp [hop]⟩ h
    next => rfl
  next => rfl

/-- The search starts behind the pre-filters. -/
theorem searchPart_eq {filters : List PreFilter} (h : Repeated WritesPreFilter ts filters us)
    (hus : ¬ StartsFilter us) : searchPart ts = us := by
  induction h with
  | nil => exact searchPart_of_not_startsFilter hus
  | cons hf _ ih =>
    cases hf with
    | mk hkey hop _ =>
      rw [searchPart, hkey, hop]
      exact ih hus

/-- Where a search is read to the end, no pre-filter starts. -/
theorem not_startsFilter_of_maybe {s : Option Search} (h : Maybe WritesSearch ts s []) :
    ¬ StartsFilter ts := by
  cases h with
  | none => exact id
  | some h => exact WritesSearch.not_startsFilter h

/-- On its way the head reads pre-filters and then a search. -/
theorem head_steps (may : MarkerChange → Prop) (hc : c.At ts) : ∃ r d h e,
    (preFilters (ts.length + 1)).run c = .ok r d ∧ head.run c = .ok h e ∧
      c.Steps isHighlighted may d ∧ d.Steps isHighlightedInSearch may e := by
  obtain ⟨⟨filters, problem⟩, d, hfilters⟩ := run_preFilters_ok (ts.length + 1) c
  have hsteps : c.Steps isHighlighted may _ := walks_preFilters (ts.length + 1) ts c hc
  rw [hfilters] at hsteps
  have hhead : head.run c = _ :=
    (run_bind_of_ok (EStateM.run_get c)).trans (run_bind_of_ok (hc.rest ▸ hfilters))
  cases problem with
  | some problem => exact ⟨_, d, _, d, hfilters, hhead, hsteps, .refl⟩
  | none =>
    rw [run_bind_of_ok (EStateM.run_get d)] at hhead
    split at hhead
    next => exact ⟨_, d, _, d, hfilters, hhead, hsteps, .refl⟩
    next =>
      have hsearch : d.Steps isHighlightedInSearch may _ :=
        walks_search (2 * c.rest.length + 2) d.rest d (hsteps.at_rest hc)
      rw [EStateM.run_bind, run_attempt] at hhead
      cases hr : (search (2 * c.rest.length + 2)).run d with
      | ok s e =>
        rw [hr] at hhead hsearch
        exact ⟨_, d, _, e, hfilters, hhead, hsteps, hsearch⟩
      | error problem e =>
        rw [hr] at hhead hsearch
        exact ⟨_, d, _, e, hfilters, hhead, hsteps, hsearch⟩

/-- The head highlights tokens of its own in their order. Without a problem it highlights each that is
shown, the search being what is behind the pre-filters. -/
theorem places_readHead (hends : EndsSegment ends.1) (hts : TakeBytes ts) :
    (readHead ts ends).marks.places.Sublist (ts.map Token.span) ∧
      ((readHead ts ends).problem = none → ∃ us, ts = us ++ searchPart ts ∧
        (readHead ts ends).marks.places =
          shownSpans isHighlighted us ++ shownSpans isHighlightedInSearch (searchPart ts)) := by
  have hc : (Cursor.ofSegment 0 ts ends).At ts := at_ofSegment hends
  obtain ⟨r, c, h, d, hfilters, hhead, hsteps, hsearch⟩ := head_steps (fun _ => False) hc
  obtain ⟨us, hus⟩ := hsteps.takes hts
  have hsplit : ts = us ++ c.rest := hus.rest
  obtain ⟨vs, hvs⟩ := hsearch.takes fun t ht => hts t (hsplit ▸ List.mem_append_right us ht)
  have hplaces : (readHead ts ends).marks.places =
      shownSpans isHighlighted us ++ shownSpans isHighlightedInSearch vs := by
    rw [readHead, hhead]
    show d.marks.places = _
    rw [hvs.places, hus.places]
    rfl
  refine ⟨?_, fun hnone => ⟨us, ?_⟩⟩
  · rw [hplaces, hsplit, hvs.rest, List.map_append, List.map_append]
    exact shownSpans_sublist.append (shownSpans_sublist.trans (List.sublist_append_left _ _))
  · obtain ⟨hf, hs⟩ := (readHead_iff hends).1 ⟨hnone, rfl⟩
    have hstart := not_startsFilter_of_maybe hs
    obtain ⟨c', hc', hat⟩ := preFilters_complete hc (Nat.lt_succ_self _) hf hstart
    obtain ⟨d', hd', hat'⟩ := head_complete hc hf hs
    cases hfilters.symm.trans hc'
    cases hhead.symm.trans hd'
    have hrest := hvs.rest
    rw [hat'.rest, List.append_nil] at hrest
    rw [searchPart_eq hf hstart, ← hat.rest, hrest]
    exact ⟨hrest ▸ hsplit, hplaces⟩

/-! ## Stages -/

/-- A stage highlights tokens of its own in their order, and each that is shown without a problem. -/
theorem places_readStage [Regex.Library] {pipe : Token} (hends : EndsSegment ends.1)
    (hts : TakeBytes ts) :
    (readStage pipe ts ends).marks.places.Sublist (ts.map Token.span) ∧
      ((readStage pipe ts ends).problem = none →
        (readStage pipe ts ends).marks.places = shownSpans isHighlighted ts) := by
  have hc : (Cursor.ofSegment pipe.span.stop ts ends).At ts := at_ofSegment hends
  have hsteps := walks_stage ts _ hc
  obtain ⟨us, hus⟩ := hsteps.takes hts
  have hsplit : ts = us ++ _ := hus.rest
  have hplaces : (endOf (stage.run (.ofSegment pipe.span.stop ts ends))).marks.places =
      shownSpans isHighlighted us := hus.places
  have hsublist : (shownSpans isHighlighted us).Sublist (ts.map Token.span) := by
    rw [hsplit, List.map_append]
    exact shownSpans_sublist.trans (List.sublist_append_left _ _)
  rw [readStage]
  cases hr : stage.run (.ofSegment pipe.span.stop ts ends) with
  | error problem d =>
    rw [hr] at hplaces
    exact ⟨hplaces ▸ hsublist, fun h => by cases h⟩
  | ok s d =>
    rw [hr] at hplaces hsteps hsplit
    refine ⟨hplaces ▸ hsublist, fun h => ?_⟩
    have hrest := (leftoverProblem_eq_none (hsteps.at_rest hc)).1 h
    rw [hrest, List.append_nil] at hsplit
    exact hsplit ▸ hplaces

/-- A pipe is not shown. -/
theorem shownSpans_pipe {pipe : Token} (h : pipe.kind = .symbol .pipe) :
    shownSpans isHighlighted [pipe] = [] := by
  have hshown : pipe.kind.isHighlighted = false := by
    rw [h]
    rfl
  simp [shownSpans, hshown]

/-- The same of stages after their pipes. -/
theorem places_readStages [Regex.Library] {final : Token} {segments : List (Token × List Token)}
    (hf : final.kind = .endOfInput) (hpipes : ∀ s ∈ segments, s.1.kind = .symbol .pipe)
    (hts : TakeBytes (joinSegments segments)) :
    ((readStages final segments).flatMap fun r => r.marks.places).Sublist
        ((joinSegments segments).map Token.span) ∧
      ((readStages final segments).filterMap SegmentResult.problem = [] →
        (readStages final segments).flatMap (fun r => r.marks.places) =
          shownSpans isHighlighted (joinSegments segments)) := by
  induction segments with
  | nil => exact ⟨List.Sublist.refl _, fun _ => rfl⟩
  | cons segment segments ih =>
    obtain ⟨pipe, ts⟩ := segment
    obtain ⟨hpipe, hpipes⟩ := List.forall_mem_cons.1 hpipes
    have hjoin : joinSegments ((pipe, ts) :: segments) = [pipe] ++ ts ++ joinSegments segments := rfl
    rw [hjoin] at hts ⊢
    obtain ⟨hsub, hall⟩ := @places_readStage ts _ _ pipe (segmentEnd_ends hf hpipes) fun t ht =>
      hts t (by simp [ht])
    obtain ⟨hsubs, halls⟩ := ih hpipes fun t ht => hts t (by simp [ht])
    rw [readStages, List.flatMap_cons]
    constructor
    · rw [List.map_append, List.map_append, List.append_assoc]
      exact (hsub.append hsubs).trans (List.sublist_append_right _ _)
    · intro hnone
      rw [filterMap_cons_toList] at hnone
      obtain ⟨hnone, hnones⟩ := List.append_eq_nil_iff.1 hnone
      rw [hall (Option.toList_eq_nil_iff.1 hnone), halls hnones, shownSpans_append,
        shownSpans_append, shownSpans_pipe hpipe, List.nil_append]

end Parser

/-! ## Texts -/

/-- The places of joined marks are those of each. -/
theorem places_foldl {α : Type} (results : List (SegmentResult α)) (m : Marks) :
    (results.foldl (fun marks r => marks ++ r.marks) m).places =
      m.places ++ results.flatMap fun r => r.marks.places := by
  induction results generalizing m with
  | nil => exact (List.append_nil _).symm
  | cons r results ih =>
    rw [List.foldl_cons, ih, List.flatMap_cons, ← List.append_assoc]
    congr 1
    exact List.map_append

/-- The places of a text are those of its head and of its stages. -/
theorem marks_parseTokens [Regex.Library] (tokens : List Token) :
    (parseTokens tokens).marks.places =
      let split := splitAtPipes (tokensBeforeEnd tokens)
      (readHead split.1 (segmentEnd (finalToken tokens) split.2)).marks.places ++
        (readStages (finalToken tokens) split.2).flatMap fun r => r.marks.places :=
  places_foldl _ _

/-- Tokens are highlighted in their order. Without a problem each is that is shown, whether before
the search, in it or in a stage. -/
theorem places_parseTokens [Regex.Library] {tokens : List Token}
    (hts : TakeBytes (tokensBeforeEnd tokens)) :
    (parseTokens tokens).marks.places.Sublist ((tokensBeforeEnd tokens).map Token.span) ∧
      ((parseTokens tokens).problems = [] → ∃ us vs,
        tokensBeforeEnd tokens = us ++ searchTokens tokens ++ vs ∧
        (parseTokens tokens).marks.places = shownSpans isHighlighted us ++
          shownSpans isHighlightedInSearch (searchTokens tokens) ++
            shownSpans isHighlighted vs) := by
  have hfinal : (finalToken tokens).kind = .endOfInput := finalToken_kind tokens
  obtain ⟨hjoin, hpipes⟩ := splitAtPipes_join (tokensBeforeEnd tokens)
  rw [problems_parseTokens, marks_parseTokens, searchTokens]
  generalize splitAtPipes (tokensBeforeEnd tokens) = split at hjoin hpipes ⊢
  rw [← hjoin] at hts
  obtain ⟨hsub, hall⟩ := places_readHead (segmentEnd_ends hfinal hpipes) fun t ht =>
    hts t (List.mem_append_left _ ht)
  obtain ⟨hsubs, halls⟩ := places_readStages hfinal hpipes fun t ht =>
    hts t (List.mem_append_right _ ht)
  rw [← hjoin, List.map_append]
  refine ⟨hsub.append hsubs, fun hnone => ?_⟩
  obtain ⟨hnone, hnones⟩ := List.append_eq_nil_iff.1 hnone
  obtain ⟨us, hus, hplaces⟩ := hall (Option.toList_eq_nil_iff.1 hnone)
  exact ⟨us, joinSegments split.2, by rw [← hus], by rw [← hplaces, ← halls hnones]⟩

/-- The tokens of a text have a first byte and an end after it. -/
theorem takeBytes_tokenize (text : String) :
    TakeBytes (tokensBeforeEnd (tokenize text).tokens) := by
  have hbody := tokens_tokenize text
  rw [tokenize_tokens] at hbody
  rw [List.append_inj_left' hbody rfl]
  exact fun t ht => start_lt_of_mem_tokensOf ht

/-- What stands before something else is not the same. -/
theorem Span.Before.ne {s u : Span} (h : s.Before u) : s ≠ u :=
  fun heq => Nat.lt_irrefl _ (heq ▸ h.start_lt)

/-- Highlights one after the other are sorted already. -/
theorem sortedHighlights_eq {m : Marks} (h : m.places.Pairwise Span.Before) :
    m.sortedHighlights = m.highlights := by
  refine List.mergeSort_of_pairwise ((List.pairwise_map.1 h).imp fun {a b} hab => ?_)
  have hlt : a.start < b.start := hab.start_lt
  simp [hlt]

section

variable {tokens : List Token} {t u : Token}

/-- Tokens that stand one after the other are told apart by their spans. -/
theorem eq_of_span_eq (h : (tokens.map Token.span).Pairwise Span.Before) (ht : t ∈ tokens)
    (hu : u ∈ tokens) (hspan : t.span = u.span) : t = u :=
  List.inj_on_of_nodup_map (h.imp Span.Before.ne) ht hu hspan

/-- A token is among those that are shown if it is among them and of a kind that is. -/
theorem mem_shownSpans (h : (tokens.map Token.span).Pairwise Span.Before) (ht : t ∈ tokens)
    (hts : ts ⊆ tokens) : t.span ∈ shownSpans shown ts ↔ t ∈ ts ∧ shown t.kind = true := by
  rw [shownSpans, List.mem_map]
  constructor
  · rintro ⟨u, hu, hspan⟩
    obtain ⟨hu, hshown⟩ := List.mem_filter.1 hu
    obtain rfl := eq_of_span_eq h (hts hu) ht hspan
    exact ⟨hu, hshown⟩
  · exact fun hmem => ⟨t, List.mem_filter.2 hmem, rfl⟩

/-- A token between others is not one of them. -/
theorem not_mem_of_pairwise (h : ((us ++ ts ++ vs).map Token.span).Pairwise Span.Before)
    (ht : t ∈ ts) : t ∉ us ∧ t ∉ vs := by
  rw [List.map_append, List.map_append, List.append_assoc] at h
  obtain ⟨-, h, hus⟩ := List.pairwise_append.1 h
  obtain ⟨-, -, hvs⟩ := List.pairwise_append.1 h
  have hmem : t.span ∈ ts.map Token.span := List.mem_map_of_mem ht
  exact ⟨fun hu => (hus _ (List.mem_map_of_mem hu) _ (List.mem_append_left _ hmem)).ne rfl,
    fun hv => (hvs _ hmem _ (List.mem_map_of_mem hv)).ne rfl⟩

/-- What is highlighted when all parts of a query have been read. -/
theorem mem_places_iff (h : (tokens.map Token.span).Pairwise Span.Before)
    (htokens : tokens = us ++ ts ++ vs ++ [u]) (hu : u.kind = .endOfInput) (ht : t ∈ tokens) :
    t.span ∈ shownSpans isHighlighted us ++ shownSpans isHighlightedInSearch ts ++
        shownSpans isHighlighted vs ↔
      t.kind ∉ structuralKinds ∧ ¬ (t ∈ ts ∧ ∃ s, t.kind = .word s) := by
  have hus : us ⊆ tokens := fun x hx => by simp [htokens, hx]
  have hts : ts ⊆ tokens := fun x hx => by simp [htokens, hx]
  have hvs : vs ⊆ tokens := fun x hx => by simp [htokens, hx]
  have hshown : t.kind.isHighlighted = true ↔ t.kind ∉ structuralKinds := decide_eq_true_iff
  rw [List.mem_append, List.mem_append, mem_shownSpans h ht hus, mem_shownSpans h ht hts,
    mem_shownSpans h ht hvs, isHighlightedInSearch_iff, hshown, ← not_exists]
  have hapart : t ∈ ts → t ∉ us ∧ t ∉ vs := by
    rw [htokens, List.map_append] at h
    exact not_mem_of_pairwise (List.pairwise_append.1 h).1
  have hcover : t ∈ us ∨ t ∈ ts ∨ t ∈ vs ∨ t.kind ∈ structuralKinds := by
    rw [htokens] at ht
    simp only [List.mem_append, List.mem_singleton, or_assoc] at ht
    refine ht.imp_right (.imp_right (.imp_right ?_))
    rintro rfl
    simp [structuralKinds, hu]
  tauto

end

/-- In every text each token is highlighted at most once, and without a problem each is but for marks
of structure and the words of a search. -/
theorem highlights_follow_tokens [Regex.Library] (text : String) : Highlighted text := by
  have htokens := tokenize_tokens text
  have horder : ((tokenize text).tokens.map Token.span).Pairwise Span.Before :=
    List.pairwise_map.2 (pairwise_tokens_tokenize text)
  obtain ⟨hsub, hall⟩ := places_parseTokens (takeBytes_tokenize text)
  have hbody : tokensBeforeEnd (tokenize text).tokens ⊆ (tokenize text).tokens :=
    (List.takeWhile_prefix _).subset
  have hplaces := (horder.sublist ((List.takeWhile_sublist _).map _)).sublist hsub
  have hspans : (parse text).highlights.map Highlight.span =
      (parseTokens (tokenize text).tokens).marks.places :=
    congrArg (List.map Highlight.span) (sortedHighlights_eq hplaces)
  rw [← hspans] at hsub hplaces
  refine ⟨fun h hh => ?_, hplaces.imp Span.Before.ne, List.pairwise_map.1 hplaces,
    fun hnone t ht => ?_⟩
  · obtain ⟨t, ht, hspan⟩ := List.mem_map.1 (hsub.subset (List.mem_map_of_mem hh))
    exact ⟨t, ⟨hbody ht, hspan⟩, fun u ⟨hu, huspan⟩ =>
      eq_of_span_eq horder hu (hbody ht) (huspan.trans hspan.symm)⟩
  · obtain ⟨us, vs, hsplit, hparts⟩ := hall (parse_problems_eq_nil.1 hnone).2
    rw [hsplit] at htokens
    have hmem : (∃ h ∈ (parse text).highlights, h.span = t.span) ↔
        t.span ∈ (parse text).highlights.map Highlight.span := List.mem_map.symm
    rw [hmem, hspans, hparts]
    exact mem_places_iff horder htokens rfl ht

-- The words of the search and the pipe are left out.
example [Regex.Library] :
    (parse "level=error disk AND full | table host").highlights.map Highlight.span =
      [⟨0, 5⟩, ⟨5, 6⟩, ⟨6, 11⟩, ⟨17, 20⟩, ⟨28, 33⟩, ⟨34, 38⟩] := by cbv

end LogSearch.Query
