import LogSearch.Proofs.Query.Reading

/-!
# Reading expressions

* `reads_literals`: the list after `in`.
* `ExpressionReads`: the readers of all levels of an expression, with the fuel that each needs.
* `reads_expression`: an expression is read as it is written.
-/

namespace LogSearch.Query

namespace Parser

/-! ## Constants -/

/-- A constant of a list is read as it is written, and nothing continues it. -/
theorem reads_literal (n : Nat) : Reads n literal WritesConstant fun _ => False where
  sound {c d l ts} hc hn h := by
    simp only [literal, run_bind_of_ok (run_peek _)] at h
    split at h
    · next value kind hk =>
      rw [run_bind_of_ok (run_take _ _)] at h
      cases h
      obtain ⟨us, rfl⟩ := hc.eq_cons_of_some hk rfl rfl
      exact ⟨us, hc.taken _, .plain hk⟩
    · simp only [run_bind_of_ok (run_peekSecond _)] at h
      split at h
      · next x hk hx =>
        obtain ⟨us, rfl⟩ := hc.eq_cons hk (by simp) (by simp)
        rcases us with _ | ⟨t, us⟩
        · rcases hc.second_single with hs | hs <;> simp [hs] at hx
        · rw [hc.second_eq] at hx
          cases h
          exact ⟨us, (hc.taken _).taken _, .negative hk hx⟩
      · simp at h
  complete {c l ts us} hc hn h _ := by
    cases h with
    | @plain _ kind t ts hk =>
      exact ⟨taken kind c, by simp [literal, hc.next_eq, hk], hc.taken _⟩
    | @negative x m t ts hm ht =>
      refine ⟨taken .number (taken .operator c), ?_, (hc.taken _).taken _⟩
      have hnone : literal? (.symbol .minus) = none := rfl
      simp [literal, hc.next_eq, hm, hnone, hc.second_eq, ht]

/-- Constants of a list are read as they are written, and a comma continues them. -/
theorem reads_literals {n fuel : Nat} (h : n < fuel) :
    Reads n (literals fuel) (Separated WritesConstant)
      fun k => False ∨ k = .symbol .comma := by
  induction fuel generalizing n with
  | zero => omega
  | succ fuel ih =>
    exact .separated WritesConstant.passes id (reads_literal n) fun m hm => ih (by omega)

/-! ## What continues an expression -/

/-- Whether a factor goes on at a token: a name does at its arguments. -/
def FactorGoesOn (k : TokenKind) : Prop := k = .symbol .leftParen

/-- Whether a product goes on at a token. -/
def ProductGoesOn (k : TokenKind) : Prop := FactorGoesOn k ∨ (productOp? k).isSome

/-- Whether a sum goes on at a token. -/
def SumGoesOn (k : TokenKind) : Prop := ProductGoesOn k ∨ (sumOp? k).isSome

/-- Whether a comparison goes on at a token. -/
def ComparisonGoesOn (k : TokenKind) : Prop :=
  SumGoesOn k ∨ (comparisonOp? k).isSome ∨ k = .keyword .memberOf

/-- Whether an expression goes on at a token. -/
def LogicalGoesOn (k : TokenKind) : Prop := ComparisonGoesOn k ∨ (logicalOp? k).isSome

/-- An operator of products does not continue a factor. -/
theorem not_factorGoesOn {k : TokenKind} (h : (productOp? k).isSome) : ¬ FactorGoesOn k := by
  rintro rfl
  cases h

/-- An operator of sums does not continue a product. -/
theorem not_productGoesOn {k : TokenKind} (h : (sumOp? k).isSome) : ¬ ProductGoesOn k := by
  revert h
  cases k with
  | symbol s => cases s <;> simp [sumOp?, ProductGoesOn, FactorGoesOn, productOp?]
  | _ => simp [sumOp?]

/-- A comparison does not continue a sum. -/
theorem not_sumGoesOn {k : TokenKind} (h : (comparisonOp? k).isSome ∨ k = .keyword .memberOf) :
    ¬ SumGoesOn k := by
  revert h
  cases k with
  | symbol s =>
    cases s <;> simp [comparisonOp?, SumGoesOn, sumOp?, ProductGoesOn, FactorGoesOn, productOp?]
  | _ => simp [comparisonOp?, SumGoesOn, sumOp?, ProductGoesOn, FactorGoesOn, productOp?]

/-- A logical operator does not continue a comparison. -/
theorem not_comparisonGoesOn {k : TokenKind} (h : (logicalOp? k).isSome) :
    ¬ ComparisonGoesOn k := by
  revert h
  cases k with
  | symbol s =>
    cases s <;> simp [logicalOp?, ComparisonGoesOn, comparisonOp?, SumGoesOn, sumOp?,
      ProductGoesOn, FactorGoesOn, productOp?]
  | _ => simp [logicalOp?]

/-- An expression ends at a closing bracket, at a comma and at the end of its segment. -/
theorem not_logicalGoesOn {k : TokenKind}
    (h : k ∈ [.symbol .rightParen, .symbol .comma, .symbol .pipe, .endOfInput]) :
    ¬ LogicalGoesOn k := by
  simp only [List.mem_cons, List.not_mem_nil, or_false] at h
  rcases h with rfl | rfl | rfl | rfl <;>
    simp [LogicalGoesOn, logicalOp?, ComparisonGoesOn, comparisonOp?, SumGoesOn, sumOp?,
      ProductGoesOn, FactorGoesOn, productOp?]

/-! ## First tokens -/

/-- Whether an expression can start with a token, apart from `!`. -/
def startsOperand (k : TokenKind) : Prop :=
  k = .symbol .minus ∨ k = .symbol .leftParen ∨ (literal? k).isSome ∨ ∃ s, k = .word s

end Parser

/-- A factor starts with a token of an operand. -/
theorem WritesFactor.starts [Regex.Library] {ts us : List Token} {e : Expr}
    (h : WritesFactor ts e us) :
    ∃ t vs, ts = t :: vs ∧ Parser.startsOperand t.kind := by
  cases h with
  | negate h => exact ⟨_, _, rfl, .inl h⟩
  | parens h => exact ⟨_, _, rfl, .inr (.inl h)⟩
  | literal h => exact ⟨_, _, rfl, .inr (.inr (.inl (by simp [h])))⟩
  | column h => exact ⟨_, _, rfl, .inr (.inr (.inr ⟨_, h⟩))⟩
  | call h => exact ⟨_, _, rfl, .inr (.inr (.inr ⟨_, h⟩))⟩

/-- A sum starts with a token of an operand. -/
theorem WritesSum.starts [Regex.Library] {ts us : List Token} {e : Expr} (h : WritesSum ts e us) :
    ∃ t vs, ts = t :: vs ∧ Parser.startsOperand t.kind := by
  obtain ⟨⟨h, -⟩, -⟩ := h
  exact h.starts

/-- A comparison starts with a token of an operand. -/
theorem WritesComparison.starts [Regex.Library] {ts us : List Token} {e : Expr}
    (h : WritesComparison ts e us) :
    ∃ t vs, ts = t :: vs ∧ Parser.startsOperand t.kind := by
  cases h with
  | single h | compare h | member h => exact WritesSum.starts h

/-- A condition starts with a negation or a token of an operand. -/
theorem WritesCondition.starts [Regex.Library] {ts us : List Token} {e : Expr}
    (h : WritesCondition ts e us) :
    ∃ t vs, ts = t :: vs ∧ (t.kind = .symbol .bang ∨ Parser.startsOperand t.kind) := by
  cases h with
  | not h => exact ⟨_, _, rfl, .inl h⟩
  | comparison h =>
    obtain ⟨t, vs, rfl, ht⟩ := h.starts
    exact ⟨t, vs, rfl, .inr ht⟩

/-- An expression starts with a negation or a token of an operand. -/
theorem WritesLogical.starts [Regex.Library] {ts us : List Token} {e : Expr}
    (h : WritesLogical ts e us) :
    ∃ t vs, ts = t :: vs ∧ (t.kind = .symbol .bang ∨ Parser.startsOperand t.kind) := by
  cases h with
  | single h | join h => exact WritesCondition.starts h

/-- Arguments do not start with the end of the call. -/
theorem not_rightParen_of_arguments [Regex.Library] {ts us : List Token} {args : List Expr}
    (h : Separated WritesLogical ts args us) :
    ∃ t vs, ts = t :: vs ∧ t.kind ≠ .symbol .rightParen := by
  have hstart : ∃ t vs, ts = t :: vs ∧ (t.kind = .symbol .bang ∨ Parser.startsOperand t.kind) := by
    cases h with
    | single h | cons h => exact WritesLogical.starts h
  obtain ⟨t, vs, rfl, ht⟩ := hstart
  refine ⟨t, vs, rfl, fun hk => ?_⟩
  simp [hk, Parser.startsOperand, Parser.literal?] at ht

namespace Parser

/-! ## Levels -/

variable {n fuel : Nat}

/-- An expression is read as it is written, if conditions are and shorter expressions. -/
theorem reads_logical_succ [Regex.Library]
    (hc : Reads n (condition fuel) WritesCondition ComparisonGoesOn)
    (hl : ∀ m < n, Reads m (logical fuel) WritesLogical LogicalGoesOn) :
    Reads n (logical (fuel + 1)) WritesLogical LogicalGoesOn where
  sound {c d e ts} hat hn h := by
    rw [logical] at h
    obtain ⟨l, c₁, h₁, h⟩ := run_bind_eq_ok h
    obtain ⟨us, hc₁, hcond⟩ := hc.sound hat hn h₁
    have hlt := hcond.passes.length_lt
    simp only [run_bind_of_ok (run_peek _)] at h
    split at h
    · next op hk =>
      obtain ⟨vs, rfl⟩ := hc₁.eq_cons_of_some hk rfl rfl
      rw [run_bind_of_ok (run_take _ _), bind_pure_comp] at h
      obtain ⟨r, h₂, rfl⟩ := run_map_eq_ok h
      simp only [List.length_cons] at hlt
      obtain ⟨ws, hd, hr⟩ := (hl vs.length (by omega)).sound (hc₁.taken _) (Nat.le_refl _) h₂
      exact ⟨ws, hd, .join hcond hk hr⟩
    · cases h
      exact ⟨us, hc₁, .single hcond⟩
  complete {c e ts us} hat hn h hus := by
    rw [logical]
    cases h with
    | single h =>
      obtain ⟨d, h₁, hd⟩ := hc.complete hat hn h hus.left
      exact ⟨d, by simp [h₁, hus.right.eq_none hd rfl rfl], hd⟩
    | @join l r op t ts vs us h hk hr =>
      obtain ⟨c₁, h₁, hc₁⟩ := hc.complete hat hn h
        (clear_cons rfl (not_comparisonGoesOn (by simp [hk])))
      have hlt := h.passes.length_lt
      simp only [List.length_cons] at hlt
      obtain ⟨d, h₂, hd⟩ := (hl vs.length (by omega)).complete (hc₁.taken .operator)
        (Nat.le_refl _) hr hus
      exact ⟨d, by simp [h₁, hc₁.next_eq, hk, h₂], hd⟩

/-- A condition is read as it is written, if comparisons are and shorter conditions. -/
theorem reads_condition_succ [Regex.Library]
    (hc : ∀ m < n, Reads m (condition fuel) WritesCondition ComparisonGoesOn)
    (hk : Reads n (comparison fuel) WritesComparison ComparisonGoesOn) :
    Reads n (condition (fuel + 1)) WritesCondition ComparisonGoesOn where
  sound {c d e ts} hat hn h := by
    rw [condition, run_bind_of_ok (run_isAt _ _)] at h
    by_cases hb : c.next.kind = .symbol .bang
    · obtain ⟨us, rfl⟩ := hat.eq_cons hb (by simp) (by simp)
      simp only [hb, decide_true, if_true] at h
      rw [run_bind_of_ok (run_take _ _), bind_pure_comp] at h
      obtain ⟨r, h₂, rfl⟩ := run_map_eq_ok h
      obtain ⟨ws, hd, hr⟩ := (hc us.length hn).sound (hat.taken _) (Nat.le_refl _) h₂
      exact ⟨ws, hd, .not hb hr⟩
    · simp only [hb, decide_false, Bool.false_eq_true, if_false] at h
      obtain ⟨us, hd, he⟩ := hk.sound hat hn h
      exact ⟨us, hd, .comparison he⟩
  complete {c e ts us} hat hn h hus := by
    rw [condition]
    cases h with
    | @not e t ts us hb he =>
      obtain ⟨d, h₁, hd⟩ := (hc ts.length hn).complete (hat.taken .operator) (Nat.le_refl _) he hus
      exact ⟨d, by simp [hat.next_eq, hb, h₁], hd⟩
    | comparison he =>
      obtain ⟨d, h₁, hd⟩ := hk.complete hat hn he hus
      obtain ⟨t, vs, rfl, ht⟩ := he.starts
      have hb : t.kind ≠ .symbol .bang := by
        intro hb
        simp [hb, startsOperand, literal?] at ht
      exact ⟨d, by simp [hat.next_eq, hb, h₁], hd⟩

/-- A comparison is read as it is written, if sums are. -/
theorem reads_comparison_succ [Regex.Library] (hs : Reads n (sum fuel) WritesSum SumGoesOn)
    (hf : n < fuel) :
    Reads n (comparison (fuel + 1)) WritesComparison ComparisonGoesOn where
  sound {c d e ts} hat hn h := by
    rw [comparison] at h
    obtain ⟨l, c₁, h₁, h⟩ := run_bind_eq_ok h
    obtain ⟨us, hc₁, hl⟩ := hs.sound hat hn h₁
    have hlt := (passes_sum hl).length_lt
    simp only [run_bind_of_ok (run_peek _)] at h
    split at h
    · next op hk =>
      obtain ⟨vs, rfl⟩ := hc₁.eq_cons_of_some hk rfl rfl
      rw [run_bind_of_ok (run_take _ _), bind_pure_comp] at h
      obtain ⟨r, h₂, rfl⟩ := run_map_eq_ok h
      simp only [List.length_cons] at hlt
      obtain ⟨ws, hd, hr⟩ := hs.sound (hc₁.taken _) (by omega) h₂
      exact ⟨ws, hd, .compare hl hk hr⟩
    · split at h
      · next hk =>
        obtain ⟨vs, rfl⟩ := hc₁.eq_cons hk (by simp) (by simp)
        rw [run_bind_of_ok (run_take _ _)] at h
        obtain ⟨vs, rfl, hb, hc₂, h⟩ := (hc₁.taken .operator).expect (by simp) h
        obtain ⟨list, c₃, h₃, h⟩ := run_bind_eq_ok h
        simp only [List.length_cons] at hlt
        obtain ⟨ws, hc₃, hlist⟩ := (reads_literals hf).sound hc₂ (by omega) h₃
        obtain ⟨vs, rfl, hr, hd, h⟩ := hc₃.expect (by simp) h
        cases h
        exact ⟨vs, hd, .member hl (.mk hk hb hlist hr)⟩
      · cases h
        exact ⟨us, hc₁, .single hl⟩
  complete {c e ts us} hat hn h hus := by
    rw [comparison]
    cases h with
    | single h =>
      obtain ⟨d, h₁, hd⟩ := hs.complete hat hn h hus.left
      have hk := hus.right.right.next hd (by simp) (by simp)
      exact ⟨d, by simp [h₁, hus.right.left.eq_none hd rfl rfl, hk], hd⟩
    | @compare l r op t ts vs us h hk hr =>
      obtain ⟨c₁, h₁, hc₁⟩ := hs.complete hat hn h
        (clear_cons rfl (not_sumGoesOn (.inl (by simp [hk]))))
      have hlt := (passes_sum h).length_lt
      simp only [List.length_cons] at hlt
      obtain ⟨d, h₂, hd⟩ := hs.complete (hc₁.taken .operator) (by omega) hr hus.left
      exact ⟨d, by simp [h₁, hc₁.next_eq, hk, h₂], hd⟩
    | @member e list ts vs us h hm =>
      obtain @⟨_, i, l, r, ts', _, hi, hl, hlist, hr⟩ := hm
      obtain ⟨c₁, h₁, hc₁⟩ := hs.complete hat hn h (clear_cons hi (not_sumGoesOn (.inr rfl)))
      have hlt := (passes_sum h).length_lt
      simp only [List.length_cons] at hlt
      obtain ⟨c₂, h₂, hc₂⟩ := (reads_literals hf).complete (hc₁.taken .operator).advanced
        (by omega) hlist (clear_cons hr (by simp))
      have hnone : comparisonOp? (.keyword .memberOf) = none := rfl
      exact ⟨c₂.advanced, by simp [h₁, hc₁.next_eq, hi, hnone, (hc₁.taken .operator).next_eq, hl,
        h₂, hc₂.next_eq, hr], hc₂.advanced⟩

/-! ## Factors -/

/-- A call that fulfils what it must is taken. -/
theorem run_checkCall [Regex.Library] {name : Token} {f : Function} {args : List Expr} {c : Cursor}
    (h : CallFits f args) : (checkCall name f args).run c = .ok (.call f args) c := by
  have hcount := h.count
  cases hp : constantPattern? f args with
  | none => simp [checkCall, hcount, hp]
  | some pattern =>
    have hok := h.pattern hp
    cases hr : Regex.compile pattern with
    | error reason => simp [Compiles, hr, Except.isOk, Except.toBool] at hok
    | ok r => simp [checkCall, hcount, hp, hr]

/-- A call that is taken fulfils what it must. -/
theorem checkCall_sound [Regex.Library] {name : Token} {f : Function} {args : List Expr} {e : Expr}
    {c d : Cursor}
    (h : (checkCall name f args).run c = .ok e d) : CallFits f args ∧ e = .call f args ∧ d = c := by
  rw [checkCall] at h
  split at h
  · simp at h
  · next hcount =>
    simp at hcount
    split at h
    · simp at h
    · next hp =>
      cases h
      refine ⟨⟨hcount, fun {pattern} hpattern => ?_⟩, rfl, rfl⟩
      cases hr : Regex.compile pattern with
      | error reason => exact absurd (by simp [hpattern, hr]) (hp reason)
      | ok r => simp [Compiles, hr, Except.isOk, Except.toBool]

/-- A call is closed by a parenthesis and fulfils what it must. -/
theorem closeCall_sound [Regex.Library] {name : Token} {f : Function} {args : List Expr} {e : Expr}
    {c d : Cursor} {ts : List Token} (hc : c.At ts)
    (h : (do expect .rightParen; checkCall name f args : Parser Expr).run c = .ok e d) :
    ∃ r us, ts = r :: us ∧ r.kind = .symbol .rightParen ∧ d.At us ∧ CallFits f args ∧
      e = .call f args := by
  obtain ⟨us, rfl, hr, hd, h⟩ := hc.expect (by simp) h
  obtain ⟨hfits, rfl, rfl⟩ := checkCall_sound h
  exact ⟨c.next, us, rfl, hr, hd, hfits, rfl⟩

/-- The run of a call, from its name on. -/
theorem call_sound [Regex.Library] {name : String} {f : Function} {t : Token} {ts : List Token}
    {c d : Cursor} {e : Expr}
    (ha : ∀ m < n, Reads m (arguments fuel) (Separated WritesLogical)
      fun k => LogicalGoesOn k ∨ k = .symbol .comma)
    (hk : t.kind = .word name) (hname : Function.ofName? name = some f) (hc : c.At (t :: ts))
    (hn : (t :: ts).length ≤ n)
    (h : (do
      take .function
      expect .leftParen
      let args ← if ← isAt .rightParen then pure [] else arguments fuel
      expect .rightParen
      checkCall t f args : Parser Expr).run c = .ok e d) :
    ∃ us, d.At us ∧ WritesFactor (t :: ts) e us := by
  rw [run_bind_of_ok (run_take _ _)] at h
  obtain ⟨us, rfl, hopen, hc₁, h⟩ := (hc.taken .function).expect (by simp) h
  rw [run_bind_of_ok (run_isAt _ _)] at h
  simp only [List.length_cons] at hn
  split at h
  · obtain ⟨r, vs, rfl, hr, hd, hfits, rfl⟩ := closeCall_sound hc₁ h
    exact ⟨vs, hd, .call hk hname hopen .none hr hfits⟩
  · obtain ⟨args, c₂, h₂, h⟩ := run_bind_eq_ok h
    obtain ⟨vs, hc₂, hargs⟩ := (ha us.length (by omega)).sound hc₁ (Nat.le_refl _) h₂
    obtain ⟨r, ws, rfl, hr, hd, hfits, rfl⟩ := closeCall_sound hc₂ h
    exact ⟨ws, hd, .call hk hname hopen (.some hargs) hr hfits⟩

/-- A call that is written is read, if shorter arguments are. -/
theorem call_complete [Regex.Library] {f : Function} {args : List Expr} {t l r : Token}
    {ts us : List Token} {c : Cursor}
    (ha : ∀ m < n, Reads m (arguments fuel) (Separated WritesLogical)
      fun k => LogicalGoesOn k ∨ k = .symbol .comma)
    (hc : c.At (t :: l :: ts)) (hn : (t :: l :: ts).length ≤ n)
    (hopen : l.kind = .symbol .leftParen)
    (hargs : Possibly (Separated WritesLogical) ts args (r :: us))
    (hr : r.kind = .symbol .rightParen) (hfits : CallFits f args) :
    ∃ d, (do
      take .function
      expect .leftParen
      let args ← if ← isAt .rightParen then pure [] else arguments fuel
      expect .rightParen
      checkCall t f args : Parser Expr).run c = .ok (.call f args) d ∧ d.At us := by
  have hc₁ := (hc.taken .function).advanced
  simp only [List.length_cons] at hn
  cases hargs with
  | none =>
    exact ⟨_, by simp [(hc.taken _).next_eq, hopen, hc₁.next_eq, hr, run_checkCall hfits],
      hc₁.advanced⟩
  | some hargs =>
    obtain ⟨c₂, h₂, hc₂⟩ := (ha ts.length (by omega)).complete hc₁ (Nat.le_refl _) hargs
      (clear_cons hr fun hk => not_logicalGoesOn (by simp) (hk.resolve_right (by simp)))
    obtain ⟨t', ts, rfl, ht'⟩ := not_rightParen_of_arguments hargs
    exact ⟨_, by simp [(hc.taken _).next_eq, hopen, hc₁.next_eq, ht', h₂, hc₂.next_eq, hr,
      run_checkCall hfits], hc₂.advanced⟩

/-- A factor is read as it is written, if shorter factors, expressions and arguments are. -/
theorem reads_factor_succ [Regex.Library]
    (hf : ∀ m < n, Reads m (factor fuel) WritesFactor FactorGoesOn)
    (hl : ∀ m < n, Reads m (logical fuel) WritesLogical LogicalGoesOn)
    (ha : ∀ m < n, Reads m (arguments fuel) (Separated WritesLogical)
      fun k => LogicalGoesOn k ∨ k = .symbol .comma) :
    Reads n (factor (fuel + 1)) WritesFactor FactorGoesOn where
  sound {c d e ts} hat hn h := by
    rw [factor, run_bind_of_ok (run_suggest _ _), run_bind_of_ok (run_suggest _ _),
      run_bind_of_ok (run_peek _)] at h
    have hc := (hat.suggested .columns).suggested .functions
    generalize suggested .functions (suggested .columns c) = c' at h hc
    split at h
    · next hk =>
      obtain ⟨us, rfl⟩ := hc.eq_cons hk (by simp) (by simp)
      rw [run_bind_of_ok (run_take _ _), bind_pure_comp] at h
      obtain ⟨r, h₁, rfl⟩ := run_map_eq_ok h
      obtain ⟨vs, hd, hr⟩ := (hf us.length hn).sound (hc.taken _) (Nat.le_refl _) h₁
      exact ⟨vs, hd, .negate hk hr⟩
    · next hk =>
      obtain ⟨us, rfl⟩ := hc.eq_cons hk (by simp) (by simp)
      rw [run_bind_of_ok (run_advance _)] at h
      obtain ⟨e', c₁, h₁, h⟩ := run_bind_eq_ok h
      obtain ⟨vs, hc₁, he⟩ := (hl us.length hn).sound hc.advanced (Nat.le_refl _) h₁
      obtain ⟨ws, rfl, hr, hd, h⟩ := hc₁.expect (by simp) h
      cases h
      exact ⟨ws, hd, .parens hk he hr⟩
    · next name hk =>
      obtain ⟨us, rfl⟩ := hc.eq_cons hk (by simp) (by simp)
      rw [run_bind_of_ok (run_peekSecond _)] at h
      split at h
      · next hp =>
        split at h
        · simp at h
        · next f hname => exact call_sound ha hk hname hc hn h
      · rw [run_bind_of_ok (run_take _ _)] at h
        cases h
        exact ⟨us, hc.taken _, .column hk⟩
    · split at h
      · next hlit =>
        rw [bind_pure_comp] at h
        obtain ⟨l, h₁, rfl⟩ := run_map_eq_ok h
        obtain ⟨us, hd, hconst⟩ := (reads_literal n).sound hc hn h₁
        cases hconst with
        | plain hk => exact ⟨us, hd, .literal hk⟩
        | negative hm => simp [hc.next_eq, hm, literal?] at hlit
      · simp at h
  complete {c e ts us} hat hn h hus := by
    have hc := (hat.suggested .columns).suggested .functions
    rw [factor, run_bind_of_ok (run_suggest _ _), run_bind_of_ok (run_suggest _ _),
      run_bind_of_ok (run_peek _)]
    generalize suggested .functions (suggested .columns c) = c' at hc ⊢
    cases h with
    | @negate e t ts us hk he =>
      obtain ⟨d, h₁, hd⟩ := (hf ts.length hn).complete (hc.taken .operator) (Nat.le_refl _) he hus
      exact ⟨d, by simp [hc.next_eq, hk, h₁], hd⟩
    | @parens e l r ts us hk he hr =>
      obtain ⟨c₁, h₁, hc₁⟩ := (hl ts.length hn).complete hc.advanced (Nat.le_refl _) he
        (clear_cons hr (not_logicalGoesOn (by simp)))
      exact ⟨c₁.advanced, by simp [hc.next_eq, hk, h₁, hc₁.next_eq, hr], hc₁.advanced⟩
    | @literal l kind t ts hk =>
      obtain ⟨d, h₁, hd⟩ := (reads_literal n).complete hc hn (.plain hk) clear_false
      refine ⟨d, ?_, hd⟩
      split
      · next hm => simp [hc.next_eq ▸ hm, literal?] at hk
      · next hm => simp [hc.next_eq ▸ hm, literal?] at hk
      · next hm => simp [hc.next_eq ▸ hm, literal?] at hk
      · simp [hc.next_eq, hk, h₁]
    | column hk =>
      have hp : (second c').kind ≠ .symbol .leftParen := by
        rcases us with _ | ⟨t', us⟩
        · rcases hc.second_single with hs | hs <;> simp [hs]
        · rw [hc.second_eq]
          exact hus t' rfl
      exact ⟨taken .column c', by simp [hc.next_eq, hk, hp], hc.taken _⟩
    | call hk hname hopen hargs hr hfits =>
      obtain ⟨d, h₁, hd⟩ := call_complete ha hc hn hopen hargs hr hfits
      exact ⟨d, by simpa [hc.next_eq, hk, hc.second_eq, hopen, hname] using h₁, hd⟩

/-- Arguments are read as they are written, if expressions are and shorter arguments. -/
theorem reads_arguments_succ [Regex.Library]
    (hl : Reads n (logical fuel) WritesLogical LogicalGoesOn)
    (ha : ∀ m < n, Reads m (arguments fuel) (Separated WritesLogical)
      fun k => LogicalGoesOn k ∨ k = .symbol .comma) :
    Reads n (arguments (fuel + 1)) (Separated WritesLogical)
      fun k => LogicalGoesOn k ∨ k = .symbol .comma :=
  .separated WritesLogical.passes (not_logicalGoesOn (by simp)) hl ha

/-! ## All levels -/

/-- The readers of all levels of an expression read their productions, each with fuel for every
token ahead and for the levels below its own. -/
structure ExpressionReads [Regex.Library] (fuel : Nat) : Prop where
  logical {n : Nat} : 8 * n + 8 ≤ fuel → Reads n (logical fuel) WritesLogical LogicalGoesOn
  condition {n : Nat} : 8 * n + 7 ≤ fuel →
    Reads n (condition fuel) WritesCondition ComparisonGoesOn
  comparison {n : Nat} : 8 * n + 6 ≤ fuel →
    Reads n (comparison fuel) WritesComparison ComparisonGoesOn
  sum {n : Nat} : 8 * n + 5 ≤ fuel → Reads n (sum fuel) WritesSum SumGoesOn
  sumRest {n : Nat} : 8 * n + 4 ≤ fuel → ∀ l,
    Reads n (sumRest fuel l) (Further sumOp? WritesProduct l) SumGoesOn
  product {n : Nat} : 8 * n + 4 ≤ fuel → Reads n (product fuel) WritesProduct ProductGoesOn
  productRest {n : Nat} : 8 * n + 3 ≤ fuel → ∀ l,
    Reads n (productRest fuel l) (Further productOp? WritesFactor l) ProductGoesOn
  factor {n : Nat} : 8 * n + 3 ≤ fuel → Reads n (factor fuel) WritesFactor FactorGoesOn
  arguments {n : Nat} : 8 * n + 9 ≤ fuel →
    Reads n (arguments fuel) (Separated WritesLogical)
      fun k => LogicalGoesOn k ∨ k = .symbol .comma

/-- With one more unit of fuel all levels read longer tokens. -/
theorem ExpressionReads.succ [Regex.Library] (h : ExpressionReads fuel) : ExpressionReads
    (fuel + 1) where
  logical hn := reads_logical_succ (h.condition (by omega)) fun m hm => h.logical (by omega)
  condition hn := reads_condition_succ (fun m hm => h.condition (by omega))
    (h.comparison (by omega))
  comparison hn := reads_comparison_succ (h.sum (by omega)) (by omega)
  sum hn := .joined passes_product (fun _ => not_productGoesOn) (h.product (by omega))
    fun m hm => h.sumRest (by omega)
  sumRest hn l := .further passes_product (fun _ => not_productGoesOn) rfl rfl
    (fun m hm => h.product (by omega)) fun m hm => h.sumRest (by omega)
  product hn := .joined WritesFactor.passes (fun _ => not_factorGoesOn) (h.factor (by omega))
    fun m hm => h.productRest (by omega)
  productRest hn l := .further WritesFactor.passes (fun _ => not_factorGoesOn) rfl rfl
    (fun m hm => h.factor (by omega)) fun m hm => h.productRest (by omega)
  factor hn := reads_factor_succ (fun m hm => h.factor (by omega))
    (fun m hm => h.logical (by omega)) fun m hm => h.arguments (by omega)
  arguments hn := reads_arguments_succ (h.logical (by omega)) fun m hm => h.arguments (by omega)

/-- All levels read their productions. -/
theorem expressionReads [Regex.Library] (fuel : Nat) : ExpressionReads fuel := by
  induction fuel with
  | zero => constructor <;> intros <;> omega
  | succ fuel ih => exact ih.succ

/-- An expression is read as it is written, whatever the tokens ahead. -/
theorem reads_expression [Regex.Library] (n : Nat) :
    Reads n expression WritesLogical LogicalGoesOn where
  sound {c d e ts} hc hn h := by
    simp only [expression, run_bind_of_ok (EStateM.run_get _)] at h
    rw [hc.rest] at h
    exact ((expressionReads _).logical (by simp [callsPerToken]; omega)).sound hc (Nat.le_refl _) h
  complete {c e ts us} hc hn h hus := by
    simp only [expression, run_bind_of_ok (EStateM.run_get _)]
    rw [hc.rest]
    exact ((expressionReads _).logical (by simp [callsPerToken]; omega)).complete hc
      (Nat.le_refl _) h hus

end Parser

end LogSearch.Query
