import LogSearch.Proofs.Query.Reading

/-!
# Reading the head

* `reads_search`: a search is read as it is written.
* `preFilters_sound`, `preFilters_complete`: so are the pre-filters before it.
-/

namespace LogSearch.Query

/-! ## Searches -/

/-- A factor of a search starts with a token of a term. -/
theorem WritesSearchFactor.startsTerm {ts us : List Token} {s : Search}
    (h : WritesSearchFactor ts s us) :
    ∃ t vs, ts = t :: vs ∧ Parser.startsTerm t.kind = true := by
  cases h with
  | parens hl => exact ⟨_, _, rfl, by rw [hl]; rfl⟩
  | word h => exact ⟨_, _, rfl, by rw [h]; rfl⟩
  | number h => exact ⟨_, _, rfl, by rw [h]; rfl⟩
  | phrase h => exact ⟨_, _, rfl, by rcases h with h | h <;> rw [h] <;> rfl⟩

/-- A search starts with a token of a term. -/
theorem WritesSearch.startsTerm {ts us : List Token} {s : Search} (h : WritesSearch ts s us) :
    ∃ t vs, ts = t :: vs ∧ Parser.startsTerm t.kind = true := by
  cases h with
  | single h | and h | or h | beside h => exact WritesSearchFactor.startsTerm h

namespace Parser

/-- Whether a search goes on at a token. -/
def SearchGoesOn (k : TokenKind) : Prop :=
  k = .keyword .searchAnd ∨ k = .keyword .searchOr ∨ startsTerm k

/-- A search is read as it is written, if its factors are and shorter searches. -/
theorem reads_search_succ {n fuel : Nat}
    (hf : Reads n (searchFactor fuel) WritesSearchFactor fun _ => False)
    (hs : ∀ m < n, Reads m (search fuel) WritesSearch SearchGoesOn) :
    Reads n (search (fuel + 1)) WritesSearch SearchGoesOn where
  sound {c d s ts} hc hn h := by
    rw [search] at h
    obtain ⟨l, c₁, h₁, h⟩ := run_bind_eq_ok h
    obtain ⟨us, hc₁, hl⟩ := hf.sound hc hn h₁
    have hlt := hl.passes.length_lt
    simp only [run_bind_of_ok (run_peek _)] at h
    split at h
    · next hk =>
      obtain ⟨vs, rfl⟩ := hc₁.eq_cons hk (by simp) (by simp)
      rw [run_bind_of_ok (run_take _ _), bind_pure_comp] at h
      obtain ⟨r, h₂, rfl⟩ := run_map_eq_ok h
      simp only [List.length_cons] at hlt
      obtain ⟨ws, hd, hr⟩ := (hs vs.length (by omega)).sound (hc₁.taken _) (Nat.le_refl _) h₂
      exact ⟨ws, hd, .and hl hk hr⟩
    · split at h
      · next hk =>
        obtain ⟨vs, rfl⟩ := hc₁.eq_cons hk (by simp) (by simp)
        rw [run_bind_of_ok (run_take _ _), bind_pure_comp] at h
        obtain ⟨r, h₂, rfl⟩ := run_map_eq_ok h
        simp only [List.length_cons] at hlt
        obtain ⟨ws, hd, hr⟩ := (hs vs.length (by omega)).sound (hc₁.taken _) (Nat.le_refl _) h₂
        exact ⟨ws, hd, .or hl hk hr⟩
      · split at h
        · rw [bind_pure_comp] at h
          obtain ⟨r, h₂, rfl⟩ := run_map_eq_ok h
          obtain ⟨ws, hd, hr⟩ := (hs us.length (by omega)).sound hc₁ (Nat.le_refl _) h₂
          exact ⟨ws, hd, .beside hl hr⟩
        · cases h
          exact ⟨us, hc₁, .single hl⟩
  complete {c s ts us} hc hn h hus := by
    rw [search]
    cases h with
    | single h =>
      obtain ⟨d, h₁, hd⟩ := hf.complete hc hn h clear_false
      refine ⟨d, ?_, hd⟩
      have hk := hus.next hd (by simp [SearchGoesOn, startsTerm])
        (by simp [SearchGoesOn, startsTerm])
      simp only [SearchGoesOn, not_or] at hk
      simp [h₁, hk]
    | @and l r t ts us' vs hl hk hr =>
      obtain ⟨c₁, h₁, hc₁⟩ := hf.complete hc hn hl clear_false
      have hlt := hl.passes.length_lt
      simp only [List.length_cons] at hlt
      obtain ⟨d, h₂, hd⟩ := (hs us'.length (by omega)).complete (hc₁.taken .keyword) (Nat.le_refl _) hr hus
      exact ⟨d, by simp [h₁, hc₁.next_eq, hk, h₂], hd⟩
    | @or l r t ts us' vs hl hk hr =>
      obtain ⟨c₁, h₁, hc₁⟩ := hf.complete hc hn hl clear_false
      have hlt := hl.passes.length_lt
      simp only [List.length_cons] at hlt
      obtain ⟨d, h₂, hd⟩ := (hs us'.length (by omega)).complete (hc₁.taken .keyword) (Nat.le_refl _) hr hus
      exact ⟨d, by simp [h₁, hc₁.next_eq, hk, h₂], hd⟩
    | @beside l r ts us' vs hl hr =>
      obtain ⟨c₁, h₁, hc₁⟩ := hf.complete hc hn hl clear_false
      have hlt := hl.passes.length_lt
      obtain ⟨d, h₂, hd⟩ := (hs us'.length (by omega)).complete hc₁ (Nat.le_refl _) hr hus
      obtain ⟨t, us', rfl, ht⟩ := hr.startsTerm
      have hand : t.kind ≠ .keyword .searchAnd := fun hk => by simp [hk, startsTerm] at ht
      have hor : t.kind ≠ .keyword .searchOr := fun hk => by simp [hk, startsTerm] at ht
      exact ⟨d, by simp [h₁, hc₁.next_eq, hand, hor, ht, h₂], hd⟩

/-- A factor of a search is read as it is written, if shorter searches are. -/
theorem reads_searchFactor_succ {n fuel : Nat}
    (hs : ∀ m < n, Reads m (search fuel) WritesSearch SearchGoesOn) :
    Reads n (searchFactor (fuel + 1)) WritesSearchFactor fun _ => False where
  sound {c d s ts} hc hn h := by
    rw [searchFactor, run_bind_of_ok (run_peek c)] at h
    split at h
    · next hk =>
      obtain ⟨us, rfl⟩ := hc.eq_cons hk (by simp) (by simp)
      rw [run_bind_of_ok (run_advance c)] at h
      obtain ⟨s', c₁, h₁, h⟩ := run_bind_eq_ok h
      obtain ⟨vs, hc₁, hs'⟩ := (hs us.length hn).sound hc.advanced (Nat.le_refl _) h₁
      obtain ⟨ws, rfl, hr, hd, h⟩ := hc₁.expect (by simp) h
      cases h
      exact ⟨ws, hd, .parens hk hs' hr⟩
    · next hk =>
      obtain ⟨us, rfl⟩ := hc.eq_cons hk (by simp) (by simp)
      cases h
      exact ⟨us, hc.advanced, .word hk⟩
    · next hk =>
      obtain ⟨us, rfl⟩ := hc.eq_cons hk (by simp) (by simp)
      cases h
      exact ⟨us, hc.taken _, .number hk⟩
    · next hk =>
      obtain ⟨us, rfl⟩ := hc.eq_cons hk (by simp) (by simp)
      cases h
      exact ⟨us, hc.taken _, .phrase (.inl hk)⟩
    · next hk =>
      obtain ⟨us, rfl⟩ := hc.eq_cons hk (by simp) (by simp)
      cases h
      exact ⟨us, hc.taken _, .phrase (.inr hk)⟩
    · simp at h
  complete {c s ts us} hc hn h hus := by
    rw [searchFactor]
    cases h with
    | @parens s l r ts us hl hs' hr =>
      obtain ⟨c₁, h₁, hc₁⟩ := (hs ts.length hn).complete hc.advanced (Nat.le_refl _) hs'
        (clear_cons hr (by simp [SearchGoesOn, startsTerm]))
      exact ⟨c₁.advanced, by simp [hc.next_eq, hl, h₁, hc₁.next_eq, hr], hc₁.advanced⟩
    | word hk => exact ⟨c.advanced, by simp [hc.next_eq, hk], hc.advanced⟩
    | number hk => exact ⟨taken .number c, by simp [hc.next_eq, hk], hc.taken _⟩
    | phrase hk =>
      exact ⟨taken .string c, by rcases hk with hk | hk <;> simp [hc.next_eq, hk], hc.taken _⟩

/-- With enough fuel a search is read, as is a search term. -/
theorem reads_search_and_factor (fuel : Nat) : ∀ n,
    (2 * n + 1 ≤ fuel → Reads n (search fuel) WritesSearch SearchGoesOn) ∧
    (2 * n ≤ fuel → Reads n (searchFactor fuel) WritesSearchFactor fun _ => False) := by
  induction fuel with
  | zero =>
    refine fun n => ⟨fun h => by omega, fun h => ⟨fun _ _ h => ?_, fun hc hn h _ => ?_⟩⟩
    · rw [searchFactor] at h
      simp at h
    · have := h.passes.length_lt
      omega
  | succ fuel ih =>
    refine fun n => ⟨fun h => reads_search_succ ((ih n).2 (by omega)) ?_,
      fun h => reads_searchFactor_succ ?_⟩
    · exact fun m hm => (ih m).1 (by omega)
    · exact fun m hm => (ih m).1 (by omega)

/-- A search is read as it is written, with fuel for two levels at every token. -/
theorem reads_search {n fuel : Nat} (h : 2 * n + 1 ≤ fuel) :
    Reads n (search fuel) WritesSearch SearchGoesOn := (reads_search_and_factor fuel n).1 h

/-! ## Pre-filters -/

/-- Whether tokens start with a word and a comparison. -/
def StartsFilter : List Token → Prop
  | k :: o :: _ => (∃ key, k.kind = .word key) ∧ (filterOp? o.kind).isSome
  | _ => False

/-- Trying a reader gives its value, or its problem where it met it. -/
@[simp] theorem run_attempt {α : Type} (p : Parser α) (c : Cursor) :
    (attempt p).run c = match p.run c with
      | .ok a d => .ok (.ok a) d
      | .error problem d => .ok (.error problem) d := by
  have h : (attempt p).run c = match (Except.ok <$> p).run c with
      | .ok a d => .ok a d
      | .error problem d => .ok (.error problem) d := by
    simp only [attempt, tryCatch, tryCatchThe, MonadExceptOf.tryCatch, EStateM.tryCatch,
      EStateM.run]
    cases (Except.ok <$> p) c <;> rfl
  rw [h, run_map]
  cases p.run c <;> rfl

/-- What is read as a pre-filter is written as one; where none is read, no token is taken. -/
theorem preFilter?_sound {c d : Cursor} {r : Option PreFilter} {ts : List Token} (hc : c.At ts)
    (h : preFilter?.run c = .ok r d) : ∃ us, d.At us ∧ match r with
      | none => us = ts
      | some f => WritesPreFilter ts f us := by
  simp only [preFilter?, run_bind_of_ok (run_peek _), run_bind_of_ok (run_peekSecond _)] at h
  split at h
  · next key op hk ho =>
    obtain ⟨us, rfl⟩ := hc.eq_cons hk (by simp) (by simp)
    rcases us with _ | ⟨o, us⟩
    · rcases hc.second_single with hp | hp <;> simp [hp, filterOp?] at ho
    · rw [hc.second_eq] at ho
      have hc₁ := ((hc.taken .paramKey).taken .operator).suggested (.paramValues key)
      simp only [run_bind_of_ok (run_take _ _), run_bind_of_ok (run_suggest _ _),
        run_bind_of_ok (run_peek _)] at h
      split at h
      · simp at h
      · next value hv =>
        rw [run_bind_of_ok (run_take _ _)] at h
        cases h
        rcases us with _ | ⟨v, us⟩
        · rcases hc₁.next_nil with hp | hp <;> simp only [filterValue?, hp, reduceCtorEq] at hv
        · rw [hc₁.next_eq] at hv
          exact ⟨us, hc₁.taken _, .mk hk ho hv⟩
  · cases h
    exact ⟨ts, hc, rfl⟩

/-- A pre-filter that is written is read. -/
theorem preFilter?_complete {c : Cursor} {f : PreFilter} {ts us : List Token} (hc : c.At ts)
    (h : WritesPreFilter ts f us) : ∃ d, preFilter?.run c = .ok (some f) d ∧ d.At us := by
  cases h with
  | @mk key value op k o v ts hk ho hv =>
    have hc₁ := ((hc.taken .paramKey).taken .operator).suggested (.paramValues key)
    refine ⟨_, ?_, hc₁.taken .paramValue⟩
    simp only [preFilter?, run_bind_of_ok (run_peek _), run_bind_of_ok (run_peekSecond _),
      hc.next_eq, hc.second_eq, hk, ho, run_bind_of_ok (run_take _ _),
      run_bind_of_ok (run_suggest _ _), hc₁.next_eq, hv]
    rfl

/-- Where no word and comparison are ahead, no pre-filter is read. -/
theorem preFilter?_none {c : Cursor} {ts : List Token} (hc : c.At ts) (h : ¬ StartsFilter ts) :
    preFilter?.run c = .ok none c := by
  simp only [preFilter?, run_bind_of_ok (run_peek _), run_bind_of_ok (run_peekSecond _)]
  split
  · next key op hk ho =>
    obtain ⟨us, rfl⟩ := hc.eq_cons hk (by simp) (by simp)
    rcases us with _ | ⟨o, us⟩
    · rcases hc.second_single with hp | hp <;> simp [hp, filterOp?] at ho
    · rw [hc.second_eq] at ho
      exact absurd ⟨⟨key, hk⟩, by simp [ho]⟩ h
  · rfl

/-- What is read as pre-filters is written as such. -/
theorem preFilters_sound {fuel : Nat} {c d : Cursor} {filters : List PreFilter} {ts : List Token}
    (hc : c.At ts) (h : (preFilters fuel).run c = .ok (filters, none) d) :
    ∃ us, d.At us ∧ Repeated WritesPreFilter ts filters us := by
  induction fuel generalizing c d filters ts with
  | zero =>
    cases h
    exact ⟨ts, hc, .nil⟩
  | succ fuel ih =>
    rw [preFilters, run_bind_of_ok (run_suggest _ _)] at h
    obtain ⟨r, c₁, h₁, h⟩ := run_bind_eq_ok h
    rw [run_attempt] at h₁
    split at h₁
    · next r c₂ h₂ =>
      cases h₁
      obtain ⟨us, hc₁, hr⟩ := preFilter?_sound (hc.suggested _) h₂
      cases r with
      | none =>
        cases h
        exact ⟨us, hc₁, hr ▸ .nil⟩
      | some f =>
        obtain ⟨⟨fs, problem⟩, c₃, h₃, h⟩ := run_bind_eq_ok h
        cases h
        obtain ⟨vs, hd, hfs⟩ := ih hc₁ h₃
        exact ⟨vs, hd, .cons hr hfs⟩
    · cases h₁
      cases h

/-- Pre-filters that are written are read, up to where none starts. -/
theorem preFilters_complete {fuel : Nat} {c : Cursor} {filters : List PreFilter}
    {ts us : List Token} (hc : c.At ts) (hn : ts.length < fuel)
    (h : Repeated WritesPreFilter ts filters us) (hus : ¬ StartsFilter us) :
    ∃ d, (preFilters fuel).run c = .ok (filters, none) d ∧ d.At us := by
  induction fuel generalizing c filters ts with
  | zero => omega
  | succ fuel ih =>
    rw [preFilters, run_bind_of_ok (run_suggest _ _)]
    cases h with
    | nil =>
      have hc₁ := hc.suggested .params
      exact ⟨_, by simp [preFilter?_none hc₁ hus], hc₁⟩
    | cons hf hfs =>
      obtain ⟨c₁, h₁, hc₁⟩ := preFilter?_complete (hc.suggested .params) hf
      have hlt := hf.passes.length_lt
      obtain ⟨d, h₂, hd⟩ := ih hc₁ (by omega) hfs
      exact ⟨d, by simp [h₁, h₂], hd⟩

/-! ## Heads -/

/-- A term that starts like a pre-filter is followed by a comparison. -/
theorem WritesSearchFactor.of_startsFilter {ts us : List Token} {s : Search}
    (h : WritesSearchFactor ts s us) (hf : StartsFilter ts) :
    ∃ o vs, us = o :: vs ∧ (filterOp? o.kind).isSome := by
  rcases ts with _ | ⟨k, _ | ⟨o, ts⟩⟩
  · exact hf.elim
  · exact hf.elim
  · obtain ⟨⟨key, hk⟩, ho⟩ := hf
    cases h with
    | parens hl => simp [hk] at hl
    | word => exact ⟨o, ts, rfl, ho⟩
    | number h => simp [hk] at h
    | phrase h => simp [hk] at h

/-- A search starts with no pre-filter: nothing in it continues a word with a comparison. -/
theorem WritesSearch.not_startsFilter {ts : List Token} {s : Search} (h : WritesSearch ts s []) :
    ¬ StartsFilter ts := by
  intro hf
  cases h with
  | single h =>
    obtain ⟨o, vs, hn, -⟩ := WritesSearchFactor.of_startsFilter h hf
    cases hn
  | and h hk | or h hk =>
    obtain ⟨o, vs, ho, hs⟩ := WritesSearchFactor.of_startsFilter h hf
    cases ho
    simp [hk, filterOp?] at hs
  | beside h hr =>
    obtain ⟨o, vs, rfl, hs⟩ := WritesSearchFactor.of_startsFilter h hf
    obtain ⟨t, us, hts, ht⟩ := hr.startsTerm
    cases hts
    revert hs ht
    cases o.kind with
    | symbol s => cases s <;> simp [filterOp?, startsTerm]
    | _ => simp [filterOp?]

/-- What is read as a head is written as pre-filters and a search. -/
theorem head_sound {c d : Cursor} {filters : List PreFilter} {s : Option Search} {ts : List Token}
    (hc : c.At ts) (h : head.run c = .ok ⟨filters, s, none⟩ d) :
    ∃ us vs, Repeated WritesPreFilter ts filters us ∧ Maybe WritesSearch us s vs ∧ d.At vs := by
  simp only [head, run_bind_of_ok (EStateM.run_get _)] at h
  obtain ⟨⟨fs, problem⟩, c₁, h₁, h⟩ := run_bind_eq_ok h
  cases problem with
  | some problem => cases h
  | none =>
    obtain ⟨us, hc₁, hfs⟩ := preFilters_sound hc h₁
    have hlen : us.length ≤ ts.length := by
      obtain ⟨xs, rfl, -⟩ := (hfs.mayPass WritesPreFilter.passes).exists_append
      simp
    simp only [run_bind_of_ok (EStateM.run_get _)] at h
    split at h
    · cases h
      exact ⟨us, us, hfs, .none, hc₁⟩
    · obtain ⟨r, c₂, h₂, h⟩ := run_bind_eq_ok h
      rw [run_attempt] at h₂
      split at h₂
      · next s' c₃ h₃ =>
        cases h₂
        cases h
        rw [hc.rest] at h₃
        obtain ⟨vs, hd, hs⟩ := (reads_search (n := ts.length) (by omega)).sound hc₁ hlen h₃
        exact ⟨us, vs, hfs, .some hs, hd⟩
      · cases h₂
        cases h

/-- Pre-filters and a search that are written to the end are read. -/
theorem head_complete {c : Cursor} {filters : List PreFilter} {s : Option Search}
    {ts us : List Token} (hc : c.At ts) (h : Repeated WritesPreFilter ts filters us)
    (hs : Maybe WritesSearch us s []) :
    ∃ d, head.run c = .ok ⟨filters, s, none⟩ d ∧ d.At [] := by
  have hlen : us.length ≤ ts.length := by
    obtain ⟨xs, rfl, -⟩ := (h.mayPass WritesPreFilter.passes).exists_append
    simp
  have hstart : ¬ StartsFilter us := by
    cases hs with
    | none => exact id
    | some hs => exact WritesSearch.not_startsFilter hs
  have hn : ts.length < c.rest.length + 1 := by simp [hc.rest]
  obtain ⟨c₁, h₁, hc₁⟩ := preFilters_complete hc hn h hstart
  simp only [head, run_bind_of_ok (EStateM.run_get _), run_bind_of_ok h₁]
  cases hs with
  | none =>
    exact ⟨c₁, by simp [hc₁.rest], hc₁⟩
  | some hs =>
    obtain ⟨t, vs, rfl, -⟩ := hs.startsTerm
    have hr : Reads ts.length (search (2 * c.rest.length + 2)) WritesSearch SearchGoesOn :=
      reads_search (by omega)
    obtain ⟨d, h₂, hd⟩ := hr.complete hc₁ hlen hs clear_nil
    exact ⟨d, by simp [hc₁.rest, h₂], hd⟩

end Parser

end LogSearch.Query
