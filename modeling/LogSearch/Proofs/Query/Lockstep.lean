import LogSearch.Proofs.Query.Agreement

/-!
# Readers in lockstep

All readers of segments agree in two runs on tokens that are alike. The fuel of the runs may differ
as long as both have enough for the tokens of the segment.

* `agree_preFilters`, `agree_search`: the parts of a head.
* `agree_expression`: expressions, by the levels of their grammar.
* `agree_stageBody`, `agree_stage`: stages.
* `readHead_agree`, `stageResult_agree`: what a segment gives, and its problem.
-/

namespace LogSearch.Query

namespace Parser

variable {P : Pairing} {ts : List Token} {fuel fuel' : Nat}

/-- Two runs of a loop that takes a token each time, both with more fuel than there are tokens. -/
theorem fuel_induction {motive : Nat → Nat → List Token → Prop}
    (step : ∀ fuel fuel' ts, (∀ us, us.length < ts.length → motive fuel fuel' us) →
      motive (fuel + 1) (fuel' + 1) ts)
    (hfuel : ts.length < fuel) (hfuel' : ts.length < fuel') : motive fuel fuel' ts := by
  induction fuel generalizing fuel' ts with
  | zero => omega
  | succ fuel ih =>
    cases fuel' with
    | zero => omega
    | succ fuel' => exact step fuel fuel' ts fun us hus => ih (by omega) (by omega)

/-! ## Searches -/

/-- A search is read alike, if its factors are and shorter searches. -/
theorem agree_search_succ
    (hf : P.Agree Eq (ts.length - 1) ts (searchFactor fuel) (searchFactor fuel'))
    (hs : ∀ us, us.length < ts.length →
      P.Agree Eq (us.length - 1) us (search fuel) (search fuel')) :
    P.Agree Eq (ts.length - 1) ts (search (fuel + 1)) (search (fuel' + 1)) := by
  rw [search, search]
  refine hf.andThen fun l us hus _ => ?_
  refine .peek fun t t' ht => .ifKind ht (by simp) (by simp) (fun vs hvs => ?_)
    (.ifKind ht (by simp) (by simp) (fun vs hvs => ?_) ?_)
  · subst hvs
    simp only [List.length_cons] at hus
    exact .take ((hs vs (by omega)).ret (by omega))
  · subst hvs
    simp only [List.length_cons] at hus
    exact .take ((hs vs (by omega)).ret (by omega))
  have hterm : startsTerm t.kind = startsTerm t'.kind := ht.congr rfl
  rw [← hterm]
  split
  next hst =>
    obtain ⟨vs, rfl⟩ := ht.eq_cons_of_test hst rfl rfl
    simp only [List.length_cons] at hus
    refine (hs (t :: vs) ?_).ret ?_
    · rw [List.length_cons]
      omega
    · rw [List.length_cons]
      omega
  next => exact .pure rfl hus

/-- A factor of a search is read alike, if shorter searches are. -/
theorem agree_searchFactor_succ
    (hs : ∀ us, us.length < ts.length →
      P.Agree Eq (us.length - 1) us (search fuel) (search fuel')) :
    P.Agree Eq (ts.length - 1) ts (searchFactor (fuel + 1)) (searchFactor (fuel' + 1)) := by
  rw [searchFactor, searchFactor]
  refine .peekInside ["search term"] ?_ fun t t' us hus ht => ?_
  · rintro t (h | h) <;> simp only [h, and_self]
  subst hus
  rw [P.kind_eq ht, P.text_eq ht]
  split
  · refine .advance ((hs us (by simp)).andThen fun s vs hvs _ => ?_)
    refine .expect (by simp) fun r ws hws => .pure rfl ?_
    subst hws
    simp only [List.length_cons] at hvs ⊢
    omega
  · exact .advance (.pure rfl (by simp))
  · exact .take (.pure rfl (by simp))
  · exact .take (.pure rfl (by simp))
  · exact .take (.pure rfl (by simp))
  · exact .unexpected _

/-- With enough fuel in both runs searches agree, as do search terms. -/
theorem agree_search_and_factor (fuel : Nat) : ∀ fuel' ts,
    (2 * ts.length + 2 ≤ fuel → 2 * ts.length + 2 ≤ fuel' →
      P.Agree Eq (ts.length - 1) ts (search fuel) (search fuel')) ∧
    (2 * ts.length + 1 ≤ fuel → 2 * ts.length + 1 ≤ fuel' →
      P.Agree Eq (ts.length - 1) ts (searchFactor fuel) (searchFactor fuel')) := by
  induction fuel with
  | zero => exact fun _ _ => ⟨fun h => by omega, fun h => by omega⟩
  | succ fuel ih =>
    rintro (_ | fuel') ts
    · exact ⟨fun _ h => by omega, fun _ h => by omega⟩
    · exact ⟨fun _ _ => agree_search_succ ((ih _ _).2 (by omega) (by omega)) fun us hus =>
          (ih _ _).1 (by omega) (by omega),
        fun _ _ => agree_searchFactor_succ fun us hus => (ih _ _).1 (by omega) (by omega)⟩

/-- A search is read alike with enough fuel in both runs. -/
theorem agree_search (h : 2 * ts.length + 2 ≤ fuel) (h' : 2 * ts.length + 2 ≤ fuel') :
    P.Agree Eq (ts.length - 1) ts (search fuel) (search fuel') :=
  (agree_search_and_factor fuel fuel' ts).1 h h'

/-! ## Pre-filters -/

/-- What ends a segment is no value of a pre-filter. -/
theorem filterValue?_of_ends {t : Token} (h : EndsSegment t) : filterValue? t = none := by
  rcases h with h | h <;> simp only [filterValue?, h]

/-- Whether a value of a pre-filter comes next is the same in both runs. -/
theorem filterValue?_congr {us : List Token} {t t' : Token} (h : P.Next us t t') :
    filterValue? t = filterValue? t' := by
  cases h with
  | inside h => simp only [filterValue?, P.kind_eq h, P.text_eq h]
  | atEnd => rw [filterValue?_of_ends P.ends, filterValue?_of_ends P.ends']

/-- Where no pre-filter starts, none is read. -/
theorem agree_preFilter?_none (h : ¬ StartsFilter ts) :
    P.Agree (fun a b => a = none ∧ b = none) ts.length ts preFilter? preFilter? := by
  refine .peek fun t t' ht => .peekSecond fun u u' hu => ?_
  have hno {key : String} {op : FilterOp} (hk : t.kind = .word key)
      (ho : filterOp? u.kind = some op) : False := by
    obtain ⟨us, rfl, -⟩ := ht.eq_cons hk (by simp) (by simp)
    obtain ⟨vs, rfl, -⟩ := (hu t us rfl).eq_cons_of_some ho rfl rfl
    exact h ⟨⟨key, hk⟩, by rw [ho]; rfl⟩
  split
  next key op hk ho => exact (hno hk ho).elim
  next =>
  split
  next key op hk' ho' =>
    have hk : t.kind = .word key := by
      have hsame := ht.congr (F := fun k => k = .word key) (by simp)
      rwa [hsame]
    obtain ⟨us, hus, -⟩ := ht.eq_cons hk (by simp) (by simp)
    have ho : filterOp? u.kind = filterOp? u'.kind := (hu t us hus).congr rfl
    exact (hno hk (ho.trans ho')).elim
  next => exact .pure ⟨rfl, rfl⟩ (Nat.le_refl _)

/-- Where a pre-filter starts, one is read. -/
theorem agree_preFilter?_some (h : StartsFilter ts) :
    P.Agree (fun a b => a = b ∧ a.isSome = true) (ts.length - 1) ts preFilter? preFilter? := by
  rcases ts with _ | ⟨k, _ | ⟨o, us⟩⟩
  · exact h.elim
  · exact h.elim
  obtain ⟨⟨key, hk⟩, ho⟩ := h
  obtain ⟨op, ho⟩ := Option.isSome_iff_exists.1 ho
  refine .peek fun t t' ht => .peekSecond fun u u' hu => ?_
  have hu := hu k _ rfl
  cases ht with
  | inside ht =>
  cases hu with
  | inside hu =>
  rw [P.kind_eq ht] at hk
  rw [P.kind_eq hu] at ho
  rw [P.kind_eq ht, P.kind_eq hu, hk, ho]
  refine .take (.take (.suggest (.peek fun v v' hv => ?_)))
  rw [filterValue?_congr hv]
  split
  next => exact .unexpected _
  next value hvalue =>
    cases hv with
    | atEnd =>
      rw [filterValue?_of_ends P.ends'] at hvalue
      simp at hvalue
    | inside => exact .take (.pure ⟨rfl, rfl⟩ (by simp only [List.length_cons]; omega))

/-- Two runs read the same pre-filters up to the same problem, if there is one. -/
theorem agree_preFilters (hfuel : ts.length < fuel) (hfuel' : ts.length < fuel') :
    P.Agree (fun a b => a.1 = b.1 ∧ Option.Rel P.SameProblem a.2 b.2) ts.length ts
      (preFilters fuel) (preFilters fuel') := by
  refine fuel_induction (motive := fun fuel fuel' ts =>
    P.Agree (fun a b => a.1 = b.1 ∧ Option.Rel P.SameProblem a.2 b.2) ts.length ts
      (preFilters fuel) (preFilters fuel')) (fun fuel fuel' ts ih => ?_) hfuel hfuel'
  rw [preFilters, preFilters]
  refine .suggest ?_
  by_cases hstart : StartsFilter ts
  · refine .attempt (agree_preFilter?_some hstart) (fun a b us hab hus _ => ?_)
      fun e e' us he hus => .pure ⟨rfl, .some he⟩ hus
    obtain ⟨rfl, ha⟩ := hab
    obtain ⟨f, rfl⟩ := Option.isSome_iff_exists.1 ha
    have hpos : 0 < ts.length := by
      rcases ts with _ | ⟨k, ts⟩
      · exact hstart.elim
      · simp
    refine (ih us (by omega)).bind fun a b vs hab hvs _ => ?_
    exact .pure ⟨by rw [hab.1], hab.2⟩ (by omega)
  · refine .attempt (agree_preFilter?_none hstart) (fun a b us hab hus _ => ?_)
      fun e e' us he hus => .pure ⟨rfl, .some he⟩ hus
    obtain ⟨rfl, rfl⟩ := hab
    exact .pure ⟨rfl, .none⟩ hus

/-! ## Heads -/

/-- The head of a query, with a test for the end of its segment. -/
def headWith (ends : Parser Bool) : Parser Head := do
  let n := (← get).rest.length
  match ← preFilters (n + 1) with
  | (filters, some problem) => return ⟨filters, none, some problem⟩
  | (filters, none) =>
    if ← ends then return ⟨filters, none, none⟩
    else
      match ← attempt (search (2 * n + 2)) with
      | .error problem => return ⟨filters, none, some problem⟩
      | .ok s => return ⟨filters, some s, none⟩

/-- The head of a query tests for the end by the tokens that are left. -/
theorem head_eq : head = headWith do return (← get).rest.isEmpty := rfl

/-- Heads that have been read alike. -/
structure SameHead (P : Pairing) (h h' : Head) : Prop where
  preFilters : h.preFilters = h'.preFilters
  search : h.search = h'.search
  problem : Option.Rel P.SameProblem h.problem h'.problem

/-- A head is read alike, if the ends of both segments are told alike. -/
theorem agree_headWith {ends ends' : Parser Bool}
    (hends : ∀ us, P.Agree Eq us.length us ends ends') :
    P.Agree (SameHead P) ts.length ts (headWith ends) (headWith ends') := by
  refine .get fun c c' hc => ?_
  -- The second run has fuel for the tokens behind the segment too.
  have hlen := hc.le_length
  dsimp only
  rw [hc.rest]
  refine (agree_preFilters (by omega) (by omega)).bind fun a b us hab hus _ => ?_
  obtain ⟨fs, problem⟩ := a
  obtain ⟨fs', problem'⟩ := b
  obtain ⟨rfl, hproblem⟩ := hab
  cases hproblem with
  | some he => exact .pure ⟨rfl, rfl, .some he⟩ hus
  | none =>
    refine (hends us).bind fun x y vs hxy hvs _ => ?_
    subst hxy
    dsimp only
    split
    next => exact .pure ⟨rfl, rfl, .none⟩ (by omega)
    next =>
      refine (agree_search (by omega) (by omega)).attempt (fun s s' ws hs hws _ => ?_)
        fun e e' ws he hws => .pure ⟨rfl, rfl, .some he⟩ (by omega)
      subst hs
      exact .pure ⟨rfl, rfl, .none⟩ (by omega)

/-! ## Constants -/

/-- A constant of a list is read alike. -/
theorem agree_literal : P.Agree Eq (ts.length - 1) ts literal literal := by
  refine .peek fun t t' ht => ?_
  have hsame : literal? t.kind = literal? t'.kind := ht.congr rfl
  rw [← hsame]
  split
  next value kind hl =>
    obtain ⟨us, rfl, -⟩ := ht.eq_cons_of_some hl rfl rfl
    exact .take (.pure rfl (by simp))
  next hl =>
  refine .peekSecond fun u u' hu => ?_
  rcases ht.is_or_not (k := .symbol .minus) (by simp) (by simp) with ⟨hk, hk', us, rfl⟩ | ⟨hk, hk'⟩
  · rw [hk, hk']
    cases hu t us rfl with
    | inside hu =>
      rw [P.kind_eq hu]
      split
      next => exact .take (.take (.pure rfl (by simp)))
      next => exact .unexpected _
    | atEnd =>
      rcases P.ends with h | h <;> rcases P.ends' with h' | h' <;> simp only [h, h'] <;>
        exact .unexpected _
  · split
    next h _ => exact absurd h hk
    next =>
    split
    next h _ => exact absurd h hk'
    next => exact .unexpected _

/-- Items with commas between them, when the item and the items behind it agree. -/
theorem agree_separated {α : Type} {item item' : Parser α} {more more' : Parser (List α)}
    (hi : P.Agree Eq (ts.length - 1) ts item item')
    (hm : ∀ us, us.length < ts.length → P.Agree Eq (us.length - 1) us more more') :
    P.Agree Eq (ts.length - 1) ts
      (do
        let a ← item
        if ← eatComma then return a :: (← more) else return [a])
      (do
        let a ← item'
        if ← eatComma then return a :: (← more') else return [a]) := by
  refine hi.andThen fun a us hus _ => ?_
  refine .eatComma (fun t vs hvs => ?_) (.pure rfl hus)
  subst hvs
  simp only [List.length_cons] at hus
  exact (hm vs (by omega)).ret (by omega)

/-- Constants of a list are read alike. -/
theorem agree_literals (hfuel : ts.length < fuel) (hfuel' : ts.length < fuel') :
    P.Agree Eq (ts.length - 1) ts (literals fuel) (literals fuel') := by
  refine fuel_induction (motive := fun fuel fuel' ts =>
    P.Agree Eq (ts.length - 1) ts (literals fuel) (literals fuel'))
    (fun fuel fuel' ts ih => ?_) hfuel hfuel'
  rw [literals, literals]
  exact agree_separated agree_literal ih

/-! ## Expressions -/

/-- An expression is read alike, if conditions are and shorter expressions. -/
theorem agree_logical_succ [Regex.Library]
    (hc : P.Agree Eq (ts.length - 1) ts (condition fuel) (condition fuel'))
    (hl : ∀ us, us.length < ts.length →
      P.Agree Eq (us.length - 1) us (logical fuel) (logical fuel')) :
    P.Agree Eq (ts.length - 1) ts (logical (fuel + 1)) (logical (fuel' + 1)) := by
  rw [logical, logical]
  refine hc.andThen fun l us hus _ => ?_
  refine .peek fun t t' ht => ?_
  have hsame : logicalOp? t.kind = logicalOp? t'.kind := ht.congr rfl
  rw [← hsame]
  split
  next op hop =>
    obtain ⟨vs, rfl, -⟩ := ht.eq_cons_of_some hop rfl rfl
    simp only [List.length_cons] at hus
    exact .take ((hl vs (by omega)).ret (by omega))
  next => exact .pure rfl hus

/-- A condition is read alike, if comparisons are and shorter conditions. -/
theorem agree_condition_succ [Regex.Library]
    (hc : ∀ us, us.length < ts.length →
      P.Agree Eq (us.length - 1) us (condition fuel) (condition fuel'))
    (hm : P.Agree Eq (ts.length - 1) ts (comparison fuel) (comparison fuel')) :
    P.Agree Eq (ts.length - 1) ts (condition (fuel + 1)) (condition (fuel' + 1)) := by
  rw [condition, condition]
  refine .isAt (by simp) (fun t us hus _ => ?_) hm
  subst hus
  exact .take ((hc us (by simp)).ret (by simp))

/-- A comparison is read alike, if sums are. -/
theorem agree_comparison_succ [Regex.Library]
    (hs : ∀ us, us.length ≤ ts.length →
      P.Agree Eq (us.length - 1) us (sum fuel) (sum fuel'))
    (hfuel : ts.length < fuel) (hfuel' : ts.length < fuel') :
    P.Agree Eq (ts.length - 1) ts (comparison (fuel + 1)) (comparison (fuel' + 1)) := by
  rw [comparison, comparison]
  refine (hs ts (Nat.le_refl _)).andThen fun l us hus _ => ?_
  refine .peek fun t t' ht => ?_
  have hsame : comparisonOp? t.kind = comparisonOp? t'.kind := ht.congr rfl
  dsimp only
  rw [← hsame]
  split
  next op hop =>
    obtain ⟨vs, rfl, -⟩ := ht.eq_cons_of_some hop rfl rfl
    simp only [List.length_cons] at hus
    exact .take ((hs vs (by omega)).ret (by omega))
  next =>
    refine .ifKind ht (by simp) (by simp) (fun vs hvs => ?_) (.pure rfl hus)
    subst hvs
    simp only [List.length_cons] at hus
    refine .take (.expect (by simp) fun b ws hws => ?_)
    subst hws
    simp only [List.length_cons] at hus
    refine (agree_literals (by omega) (by omega)).andThen fun ls xs hxs _ => ?_
    refine .expect (by simp) fun r ys hys => .pure rfl ?_
    subst hys
    simp only [List.length_cons] at hxs
    omega

/-- Further operands to the left of their operator, one table of operators at a time. -/
theorem agree_further {op? : TokenKind → Option BinaryOp} {l : Expr}
    {operand operand' : Parser Expr} {more more' : Expr → Parser Expr}
    (hp : op? (.symbol .pipe) = none) (he : op? .endOfInput = none)
    (ho : ∀ us, us.length < ts.length → P.Agree Eq (us.length - 1) us operand operand')
    (hm : ∀ us l, us.length < ts.length → P.Agree Eq us.length us (more l) (more' l)) :
    P.Agree Eq ts.length ts
      (do
        match op? (← peek).kind with
        | some op =>
          take .operator
          more (.binary op l (← operand))
        | none => return l)
      (do
        match op? (← peek).kind with
        | some op =>
          take .operator
          more' (.binary op l (← operand'))
        | none => return l) := by
  refine .peek fun t t' ht => ?_
  have hsame : op? t.kind = op? t'.kind := ht.congr (hp.trans he.symm)
  rw [← hsame]
  split
  next op hop =>
    obtain ⟨us, rfl, -⟩ := ht.eq_cons_of_some hop hp he
    refine .take ((ho us (by simp)).andThen fun r vs hvs _ => ?_)
    simp only [List.length_cons]
    exact (hm vs _ (by simp only [List.length_cons]; omega)).mono (by omega)
  next => exact .pure rfl (Nat.le_refl _)

/-- A chain of operands is read alike, if its operands are and what comes after the first. -/
theorem agree_joined {operand operand' : Parser Expr} {more more' : Expr → Parser Expr}
    (ho : P.Agree Eq (ts.length - 1) ts operand operand')
    (hm : ∀ us l, us.length ≤ ts.length → P.Agree Eq us.length us (more l) (more' l)) :
    P.Agree Eq (ts.length - 1) ts (do more (← operand)) (do more' (← operand')) := by
  refine ho.andThen fun l us hus hle => ?_
  exact (hm us l hle).mono hus

/-- A call is checked alike. -/
theorem agree_checkCall [Regex.Library] {t t' : Token} (ht : P.same t t') (f : Function)
    (args : List Expr) {n : Nat} (hn : ts.length ≤ n) :
    P.Agree Eq n ts (checkCall t f args) (checkCall t' f args) := by
  unfold checkCall
  dsimp only
  by_cases htakes : f.takes args.length = true
  · rw [if_neg (by simp [htakes]), if_neg (by simp [htakes])]
    split
    next => exact .fail ht
    next => exact .pure rfl hn
  · rw [if_pos (by simp [htakes]), if_pos (by simp [htakes])]
    exact .bind (R := fun _ _ => False) (m := n) (.fail ht) fun _ _ _ h _ _ => h.elim

/-- A factor is read alike, if shorter factors, expressions and arguments are. -/
theorem agree_factor_succ [Regex.Library]
    (hf : ∀ us, us.length < ts.length → P.Agree Eq (us.length - 1) us (factor fuel) (factor fuel'))
    (hl : ∀ us, us.length < ts.length →
      P.Agree Eq (us.length - 1) us (logical fuel) (logical fuel'))
    (ha : ∀ us, us.length + 2 ≤ ts.length →
      P.Agree Eq (us.length - 1) us (arguments fuel) (arguments fuel')) :
    P.Agree Eq (ts.length - 1) ts (factor (fuel + 1)) (factor (fuel' + 1)) := by
  rw [factor, factor]
  refine .suggest (.suggest (.peekInside ["expression"] ?_ fun t t' us hus ht => ?_))
  · rintro t (h | h) <;> rw [h] <;> exact ⟨rfl, rfl⟩
  subst hus
  rw [P.kind_eq ht]
  split
  next => exact .take ((hf us (by simp)).ret (by simp))
  next =>
    refine .advance ((hl us (by simp)).andThen fun e vs hvs _ => ?_)
    refine .expect (by simp) fun r ws hws => .pure rfl ?_
    subst hws
    simp only [List.length_cons] at hvs ⊢
    omega
  next name hname =>
    refine .peekSecond fun u u' hu => ?_
    rcases (hu t us rfl).is_or_not (k := .symbol .leftParen) (by simp) (by simp) with
      ⟨hk, hk', vs, rfl⟩ | ⟨hk, hk'⟩
    · rw [if_pos hk, if_pos hk']
      split
      next => exact .fail ht
      next f hf =>
      refine .take (.expect (by simp) fun p ws hws => ?_)
      obtain ⟨-, rfl⟩ := List.cons.inj hws
      have hend args xs (hxs : xs.length ≤ vs.length) :
          P.Agree Eq ((t :: u :: vs).length - 1) xs (do expect .rightParen; checkCall t f args)
            (do expect .rightParen; checkCall t' f args) := by
        refine .expect (by simp) fun r ys hys => agree_checkCall ht f args ?_
        subst hys
        simp only [List.length_cons] at hxs ⊢
        omega
      refine .isAt (by simp) (fun _ _ _ _ => ?_) ?_
      -- Without arguments the parenthesis is still to come.
      · exact .andThen (.pure rfl (Nat.le_refl _)) fun args xs hxs _ => hend args xs hxs
      · exact (ha vs (by simp)).andThen fun args xs _ hxs => hend args xs hxs
    · rw [if_neg hk, if_neg hk']
      exact .take (.pure rfl (by simp))
  next =>
    split
    next => exact agree_literal.ret (by simp)
    next => exact .unexpected _

/-- Arguments are read alike, if expressions are and shorter arguments. -/
theorem agree_arguments_succ [Regex.Library]
    (hl : P.Agree Eq (ts.length - 1) ts (logical fuel) (logical fuel'))
    (ha : ∀ us, us.length < ts.length →
      P.Agree Eq (us.length - 1) us (arguments fuel) (arguments fuel')) :
    P.Agree Eq (ts.length - 1) ts (arguments (fuel + 1)) (arguments (fuel' + 1)) := by
  rw [arguments, arguments]
  exact agree_separated hl ha

/-- Every level of an expression is read alike with enough fuel in both runs. A level needs a little
more than the one below it, and arguments more than a whole expression. -/
structure ExpressionsAgree [Regex.Library] (P : Pairing) (fuel fuel' : Nat) : Prop where
  logical : ∀ ts, 8 * ts.length + 8 ≤ min fuel fuel' →
    P.Agree Eq (ts.length - 1) ts (logical fuel) (logical fuel')
  condition : ∀ ts, 8 * ts.length + 7 ≤ min fuel fuel' →
    P.Agree Eq (ts.length - 1) ts (condition fuel) (condition fuel')
  comparison : ∀ ts, 8 * ts.length + 6 ≤ min fuel fuel' →
    P.Agree Eq (ts.length - 1) ts (comparison fuel) (comparison fuel')
  sum : ∀ ts, 8 * ts.length + 5 ≤ min fuel fuel' →
    P.Agree Eq (ts.length - 1) ts (sum fuel) (sum fuel')
  sumRest : ∀ ts l, 8 * ts.length + 4 ≤ min fuel fuel' →
    P.Agree Eq ts.length ts (sumRest fuel l) (sumRest fuel' l)
  product : ∀ ts, 8 * ts.length + 4 ≤ min fuel fuel' →
    P.Agree Eq (ts.length - 1) ts (product fuel) (product fuel')
  productRest : ∀ ts l, 8 * ts.length + 3 ≤ min fuel fuel' →
    P.Agree Eq ts.length ts (productRest fuel l) (productRest fuel' l)
  factor : ∀ ts, 8 * ts.length + 3 ≤ min fuel fuel' →
    P.Agree Eq (ts.length - 1) ts (factor fuel) (factor fuel')
  arguments : ∀ ts, 8 * ts.length + 9 ≤ min fuel fuel' →
    P.Agree Eq (ts.length - 1) ts (arguments fuel) (arguments fuel')

/-- With one more unit of fuel in both runs, all levels of longer expressions are read alike. -/
theorem ExpressionsAgree.succ [Regex.Library] (h : ExpressionsAgree P fuel fuel') :
    ExpressionsAgree P (fuel + 1) (fuel' + 1) where
  logical ts hfuel := agree_logical_succ (h.condition ts (by omega))
    fun us hus => h.logical us (by omega)
  condition ts hfuel := agree_condition_succ (fun us hus => h.condition us (by omega))
    (h.comparison ts (by omega))
  comparison ts hfuel := agree_comparison_succ (fun us hus => h.sum us (by omega)) (by omega)
    (by omega)
  sum ts hfuel := by
    rw [Parser.sum, Parser.sum]
    exact agree_joined (h.product ts (by omega)) fun us l hus => h.sumRest us l (by omega)
  sumRest ts l hfuel := by
    rw [Parser.sumRest, Parser.sumRest]
    exact agree_further rfl rfl (fun us hus => h.product us (by omega))
      fun us l hus => h.sumRest us l (by omega)
  product ts hfuel := by
    rw [Parser.product, Parser.product]
    exact agree_joined (h.factor ts (by omega)) fun us l hus => h.productRest us l (by omega)
  productRest ts l hfuel := by
    rw [Parser.productRest, Parser.productRest]
    exact agree_further rfl rfl (fun us hus => h.factor us (by omega))
      fun us l hus => h.productRest us l (by omega)
  factor ts hfuel := agree_factor_succ (fun us hus => h.factor us (by omega))
    (fun us hus => h.logical us (by omega)) fun us hus => h.arguments us (by omega)
  arguments ts hfuel := agree_arguments_succ (h.logical ts (by omega))
    fun us hus => h.arguments us (by omega)

/-- All levels of an expression are read alike with enough fuel in both runs. -/
theorem agree_expressions [Regex.Library] (P : Pairing) (fuel : Nat) :
    ∀ fuel', ExpressionsAgree P fuel fuel' := by
  induction fuel with
  | zero => exact fun _ => by constructor <;> intros <;> omega
  | succ fuel ih =>
    rintro (_ | fuel')
    · constructor <;> intros <;> omega
    · exact (ih fuel').succ

/-- An expression is read alike. -/
theorem agree_expression [Regex.Library] : P.Agree Eq (ts.length - 1) ts expression expression := by
  refine .get fun c c' hc => (agree_expressions P _ _).logical ts ?_
  have hlen := hc.le_length
  rw [hc.rest, callsPerToken]
  omega

/-! ## Parts of stages -/

/-- A name is read alike. -/
theorem agree_name {kind : HighlightKind} {what : String} :
    P.Agree Eq (ts.length - 1) ts (name kind what) (name kind what) := by
  refine .peekInside [what] ?_ fun t t' us hus ht => ?_
  · rintro t (h | h) <;> simp only [h, and_self]
  subst hus
  rw [P.kind_eq ht]
  split
  · exact .take (.pure rfl (by simp))
  · exact .unexpected _

/-- A column is read alike. -/
theorem agree_column : P.Agree Eq (ts.length - 1) ts column column := agree_name

/-- A new name, or none, is read alike. -/
theorem agree_alias? : P.Agree Eq ts.length ts alias? alias? := by
  refine .isAtKeyword (fun t us hus _ => ?_) (.pure rfl (Nat.le_refl _))
  subst hus
  exact .take (agree_name.ret (by simp only [List.length_cons]; omega))

/-- Items with commas between them are read alike, if each item is. -/
theorem agree_commaSeparated {α : Type} {item item' : Parser α}
    (hi : ∀ us, P.Agree Eq (us.length - 1) us item item') (hfuel : ts.length < fuel)
    (hfuel' : ts.length < fuel') :
    P.Agree Eq (ts.length - 1) ts (commaSeparated item fuel) (commaSeparated item' fuel') := by
  refine fuel_induction (motive := fun fuel fuel' ts =>
    P.Agree Eq (ts.length - 1) ts (commaSeparated item fuel) (commaSeparated item' fuel'))
    (fun fuel fuel' ts ih => ?_) hfuel hfuel'
  rw [commaSeparated, commaSeparated]
  exact agree_separated (hi ts) ih

/-- A list is read alike, if each item is. -/
theorem agree_list {α : Type} {item item' : Parser α}
    (hi : ∀ us, P.Agree Eq (us.length - 1) us item item') :
    P.Agree Eq (ts.length - 1) ts (list item) (list item') := by
  refine .get fun c c' hc => ?_
  have hlen := hc.le_length
  rw [hc.rest]
  exact agree_commaSeparated hi (by omega) (by omega)

/-- A column of a table is read alike. -/
theorem agree_tableColumn : P.Agree Eq (ts.length - 1) ts tableColumn tableColumn := by
  refine .suggest (agree_column.andThen fun name us hus _ => ?_)
  exact agree_alias?.ret hus

/-- A column to group by is read alike. -/
theorem agree_groupColumn : P.Agree Eq (ts.length - 1) ts groupColumn groupColumn :=
  .suggest agree_column

/-- What follows the column of an aggregation that starts at `t`. -/
def aggregateEnd (t : Token) (f : Aggregate) (column : Option String) : Parser AggregateCall := do
  expect .rightParen
  if column.isNone ∧ f ≠ .count then throw ⟨.columnRequired f, t.span, ["column"]⟩
  return ⟨f, column, ← alias?⟩

/-- What follows the column of an aggregation is read alike. -/
theorem agree_aggregateEnd {t t' : Token} (ht : P.same t t') (f : Aggregate)
    (column : Option String) {n : Nat} (hn : ts.length ≤ n) :
    P.Agree Eq n ts (aggregateEnd t f column) (aggregateEnd t' f column) := by
  refine .expect (by simp) fun r us hus => ?_
  subst hus
  simp only [List.length_cons] at hn
  dsimp only
  split
  next => exact .bind (R := fun _ _ => False) (m := n) (.fail ht) fun _ _ _ h _ _ => h.elim
  next => exact agree_alias?.ret (by omega)

/-- An aggregation is read alike. -/
theorem agree_aggregateCall : P.Agree Eq (ts.length - 1) ts aggregateCall aggregateCall := by
  refine .peekInside ["aggregation function"] ?_ fun t t' us hus ht => ?_
  · rintro t (h | h) <;> simp only [h, and_self]
  subst hus
  rw [P.kind_eq ht]
  split
  next name _ =>
    split
    next => exact .fail ht
    next f _ =>
    refine .take (.expect (by simp) fun p vs hvs => .suggest ?_)
    subst hvs
    have hend c us (hus : us.length ≤ vs.length) :
        P.Agree Eq ((t :: p :: vs).length - 1) us (aggregateEnd t f c) (aggregateEnd t' f c) :=
      agree_aggregateEnd ht f c (by simp only [List.length_cons]; omega)
    have hnone : P.Agree Eq ((t :: p :: vs).length - 1) vs (pure none >>= aggregateEnd t f)
        (pure none >>= aggregateEnd t' f) :=
      .andThen (.pure rfl (Nat.le_refl _)) fun c us _ hus => hend c us hus
    refine .peekOrElse ?_ hnone fun u u' ws hws hu => ?_
    · rintro u (h | h) <;> simp only [h] <;> exact ⟨rfl, rfl⟩
    dsimp only
    rw [P.kind_eq hu]
    split
    next => exact agree_column.map.andThen fun c us _ hus => hend c us hus
    next => exact hnone
  next => exact .unexpected _

/-- An aggregation is read alike, whatever marker it is offered by. -/
theorem agree_offeredAggregate (id id' : Nat) :
    P.Agree Eq (ts.length - 1) ts (offeredAggregate id) (offeredAggregate id') := by
  refine .suggest (agree_aggregateCall.andThen fun a us hus _ => ?_)
  exact .marks (.modify _) (.modify _) fun _ _ => .pure rfl hus

/-- Aggregations and their groups are read alike. -/
theorem agree_aggregations : P.Agree Eq ts.length ts aggregations aggregations := by
  refine .marks (.openMarker _) (.openMarker _) fun id id' => ?_
  refine .marks (.modify _) (.modify _) fun _ _ => ?_
  refine (agree_list fun us => agree_offeredAggregate id id').andThen fun calls us _ hus => ?_
  refine .marks (.settle _) (.settle _) fun _ _ => ?_
  refine .isAtKeyword (fun t vs hvs _ => ?_) (.pure rfl hus)
  subst hvs
  simp only [List.length_cons] at hus
  exact .take ((agree_list fun us => agree_groupColumn).ret (by omega))

/-- The column of a pattern, or none, is read alike. -/
theorem agree_regexField? : P.Agree Eq ts.length ts regexField? regexField? := by
  refine .isAtKeyword (fun t us hus _ => ?_) (.pure rfl (Nat.le_refl _))
  subst hus
  refine .take (.expectOperator (by simp) fun o vs hvs => .suggest ?_)
  subst hvs
  exact agree_column.ret (by simp only [List.length_cons]; omega)

/-- A sort key is read alike. -/
theorem agree_sortKey : P.Agree Eq (ts.length - 1) ts sortKey sortKey := by
  refine .suggest (agree_column.andThen fun name us hus _ => .suggest ?_)
  refine .isAtKeyword (fun t vs hvs _ => ?_) (.isAtKeyword (fun t vs hvs _ => ?_) ?_)
  · subst hvs
    simp only [List.length_cons] at hus
    exact .take (.pure rfl (by omega))
  · subst hvs
    simp only [List.length_cons] at hus
    exact .take (.pure rfl (by omega))
  · exact .pure rfl hus

/-- A duration is read alike. -/
theorem agree_duration : P.Agree Eq (ts.length - 1) ts duration duration := by
  refine .peekInside ["duration"] ?_ fun t t' us hus ht => ?_
  · rintro t (h | h) <;> simp only [h, and_self]
  subst hus
  rw [P.kind_eq ht, P.text_eq ht]
  split
  · split
    next => exact .fail ht
    next => exact .take (.pure rfl (by simp))
  · split
    next => exact .fail ht
    next => exact .take (.pure rfl (by simp))
  · exact .unexpected _

/-- A positive integer is read alike. -/
theorem agree_positiveInteger :
    P.Agree Eq (ts.length - 1) ts positiveInteger positiveInteger := by
  refine .peekInside ["number"] ?_ fun t t' us hus ht => ?_
  · rintro t (h | h) <;> simp only [h, and_self]
  subst hus
  rw [P.kind_eq ht, P.text_eq ht]
  split
  · split
    next => exact .fail ht
    next => exact .take (.pure rfl (by simp))
  · exact .unexpected _

/-- Options of a chart are read alike. -/
theorem agree_chartOptions (hfuel : ts.length < fuel) (hfuel' : ts.length < fuel')
    (options : ChartOptions) :
    P.Agree Eq ts.length ts (chartOptions fuel options) (chartOptions fuel' options) := by
  refine fuel_induction (motive := fun fuel fuel' ts => ∀ options,
    P.Agree Eq ts.length ts (chartOptions fuel options) (chartOptions fuel' options))
    (fun fuel fuel' ts ih options => ?_) hfuel hfuel' options
  rw [chartOptions, chartOptions]
  have hmore us o (hus : us.length < ts.length) :
      P.Agree Eq ts.length us (chartOptions fuel o) (chartOptions fuel' o) :=
    (ih us hus o).mono (by omega)
  refine .suggest (.peekOrElse ?_ (.pure (rfl : options = options) (Nat.le_refl _))
    fun t t' us hus ht => ?_)
  · rintro t (h | h) <;> simp only [h, and_self]
  subst hus
  rw [P.kind_eq ht]
  split
  · refine .take (.expectOperator (by simp) fun o vs hvs => ?_)
    subst hvs
    refine agree_duration.andThen fun span ws _ hws => ?_
    exact hmore ws _ (by simp only [List.length_cons]; omega)
  · refine .take (.expectOperator (by simp) fun o vs hvs => .suggest ?_)
    subst hvs
    refine agree_column.andThen fun name ws _ hws => ?_
    exact hmore ws _ (by simp only [List.length_cons]; omega)
  · refine .take (.expectOperator (by simp) fun o vs hvs => ?_)
    subst hvs
    refine agree_positiveInteger.andThen fun k ws _ hws => ?_
    exact hmore ws _ (by simp only [List.length_cons]; omega)
  · exact .pure rfl (Nat.le_refl _)

/-! ## Stages -/

/-- A `regex` stage is read alike. -/
theorem agree_regexStage [Regex.Library] : P.Agree Eq ts.length ts regexStage regexStage := by
  refine .suggest (agree_regexField?.andThen fun field us hus _ => ?_)
  refine .peekInside ["regex pattern"] ?_ fun t t' vs hvs ht => ?_
  · rintro t (h | h) <;> simp only [h, and_self]
  subst hvs
  rw [P.kind_eq ht]
  simp only [List.length_cons] at hus
  split
  · refine .take ?_
    split
    next => exact .fail ht
    next => exact .pure rfl (by omega)
  · refine .take ?_
    split
    next => exact .fail ht
    next => exact .pure rfl (by omega)
  · exact .unexpected _

/-- An `eval` stage is read alike. -/
theorem agree_evalStage [Regex.Library] : P.Agree Eq ts.length ts evalStage evalStage := by
  refine .suggest (agree_column.andThen fun target us _ hus => ?_)
  refine .expectOperator (by simp) fun o vs hvs => ?_
  subst hvs
  simp only [List.length_cons] at hus
  exact agree_expression.ret (by omega)

/-- A `timechart` stage is read alike. -/
theorem agree_chartStage : P.Agree Eq ts.length ts chartStage chartStage := by
  refine .get fun c c' hc => ?_
  have hlen := hc.le_length
  rw [hc.rest]
  refine (agree_chartOptions (by omega) (by omega) _).andThen fun options us hus _ => ?_
  exact agree_aggregations.ret hus

/-- The body of a stage is read alike. -/
theorem agree_stageBody [Regex.Library] (command : Command) :
    P.Agree Eq ts.length ts (stageBody command) (stageBody command) := by
  cases command with
  | table => exact ((agree_list fun us => agree_tableColumn).mono (Nat.sub_le _ _)).map
  | stats => exact agree_aggregations.ret (Nat.le_refl _)
  | regex => exact agree_regexStage
  | sort => exact ((agree_list fun us => agree_sortKey).mono (Nat.sub_le _ _)).map
  | filter => exact (agree_expression.mono (Nat.sub_le _ _)).map
  | timeChart => exact agree_chartStage
  | eval => exact agree_evalStage

/-- A stage is read alike. -/
theorem agree_stage [Regex.Library] : P.Agree Eq ts.length ts stage stage := by
  refine .suggest (.peekInside ["command"] ?_ fun t t' us hus ht => ?_)
  · rintro t (h | h) <;> simp only [h, and_self]
  subst hus
  rw [P.kind_eq ht]
  split
  · exact .take ((agree_stageBody _).mono (by simp))
  · exact .fail ht
  · exact .unexpected _

end Parser

/-! ## Segments -/

open LogSearch.Query.Parser

/-- The stage that is read at a cursor, and the problem there. -/
def stageResult [Regex.Library] (c : Cursor) : Option Stage × Option Problem :=
  match Parser.stage.run c with
  | .ok s d => (some s, leftoverProblem ["'|'", "end of input"] d)
  | .error problem _ => (none, some problem)

/-- The stage of a segment is the one read at its start. -/
theorem readStage_eq_stageResult [Regex.Library] (pipe : Token) (ts : List Token)
    (ends : Token × Token) :
    ((readStage pipe ts ends).value, (readStage pipe ts ends).problem) =
      stageResult (.ofSegment pipe.span.stop ts ends) := by
  rw [readStage, stageResult]
  cases stage.run (.ofSegment pipe.span.stop ts ends) with
  | ok s c => rfl
  | error problem c => rfl

section

variable {P : Pairing} {ts ts' us : List Token} {c c' d d' : Cursor}

/-- What is left over is the same problem in both runs. -/
theorem leftoverProblem_agree (hb : P.behind = []) (hd : P.Sees d d' us) (expected : List String) :
    Option.Rel P.SameProblem (leftoverProblem expected d) (leftoverProblem expected d') := by
  obtain ⟨us', hrest', hsame⟩ := hd.rest'
  rw [hb, List.append_nil] at hrest'
  rw [leftoverProblem, leftoverProblem, hd.rest, hrest']
  cases hsame with
  | nil => exact .none
  | cons ht =>
    refine .some ?_
    dsimp only
    rw [P.kind_eq ht]
    exact .within ht

/-- A stage and its problem are the same in both runs, where the segment is all there is. -/
theorem stageResult_agree [Regex.Library] (hb : P.behind = []) (h : P.Sees c c' ts) :
    (stageResult c).1 = (stageResult c').1 ∧
      Option.Rel P.SameProblem (stageResult c).2 (stageResult c').2 := by
  have hmeets := agree_stage c c' h
  rw [stageResult, stageResult]
  generalize stage.run c = r at hmeets ⊢
  generalize stage.run c' = r' at hmeets ⊢
  cases hmeets with
  | error he => exact ⟨rfl, .some he⟩
  | ok heq hd =>
    subst heq
    exact ⟨rfl, leftoverProblem_agree hb hd _⟩

/-- Whether tokens are left is the same in both runs, where the segment is all there is. -/
theorem agree_isEmpty (hb : P.behind = []) :
    P.Agree Eq us.length us (do return (← get).rest.isEmpty) (do return (← get).rest.isEmpty) := by
  refine .get fun c c' hc => .pure ?_ (Nat.le_refl _)
  obtain ⟨us', hrest', hsame⟩ := hc.rest'
  rw [hc.rest, hrest', hb, List.append_nil]
  cases hsame <;> rfl

/-- A head and its problem are the same in both runs, where the segment is all there is. -/
theorem readHead_agree {ends ends' : Token × Token} (hb : P.behind = [])
    (h : P.Sees (.ofSegment 0 ts ends) (.ofSegment 0 ts' ends') ts) :
    (readHead ts ends).value = (readHead ts' ends').value ∧
      Option.Rel P.SameProblem (readHead ts ends).problem (readHead ts' ends').problem := by
  have hmeets := agree_headWith (fun us => agree_isEmpty hb) _ _ h
  rw [← head_eq] at hmeets
  rw [readHead, readHead]
  generalize head.run (.ofSegment 0 ts ends) = r at hmeets ⊢
  generalize head.run (.ofSegment 0 ts' ends') = r' at hmeets ⊢
  cases hmeets with
  | error he => exact ⟨rfl, .some he⟩
  | @ok a a' d d' us hsame hd =>
    obtain ⟨filters, search, problem⟩ := a
    obtain ⟨filters', search', problem'⟩ := a'
    obtain ⟨hfilters, hsearch, hproblem⟩ := hsame
    dsimp only at hfilters hsearch hproblem ⊢
    subst hfilters hsearch
    refine ⟨rfl, ?_⟩
    cases hproblem with
    | some he => exact .some he
    | none => exact leftoverProblem_agree hb hd _

end

end LogSearch.Query
