import LogSearch.Proofs.Query.Expression

/-!
# Reading stages

* `reads_list`: items with commas between them.
* `reads_aggregations`: aggregations and the columns that they are grouped by.
* `reads_chartOptions`: the options of a `timechart` stage, the last of a kind counting.
* `reads_stage`: a stage is read as it is written.
-/

namespace LogSearch.Query

namespace Parser

variable {α β : Type} {n : Nat}

/-! ## Parts -/

/-- A name is read as it is written, and nothing continues it. -/
theorem reads_name (kind : HighlightKind) (what : String) (n : Nat) :
    Reads n (name kind what) WritesName fun _ => False where
  sound {c d s ts} hc _ h := by
    rw [name, run_bind_of_ok (run_peek _)] at h
    split at h
    · next hk =>
      obtain ⟨us, rfl⟩ := hc.eq_cons hk (by simp) (by simp)
      cases h
      exact ⟨us, hc.taken _, .mk hk⟩
    · simp at h
  complete {c s ts us} hc _ h _ := by
    obtain ⟨hk⟩ := h
    exact ⟨taken kind c, by simp [name, hc.next_eq, hk], hc.taken _⟩

/-- A column is read as it is written, and nothing continues it. -/
theorem reads_column (n : Nat) : Reads n column WritesName fun _ => False := reads_name _ _ n

/-- A column to group by is read as it is written, and nothing continues it. -/
theorem reads_groupColumn (n : Nat) : Reads n groupColumn WritesName fun _ => False where
  sound hc hn h := by
    rw [groupColumn, run_bind_of_ok (run_suggest _ _)] at h
    exact (reads_column n).sound (hc.suggested _) hn h
  complete hc hn h hus := by
    rw [groupColumn, run_bind_of_ok (run_suggest _ _)]
    exact (reads_column n).complete (hc.suggested _) hn h hus

/-- Where no new name is read, no `as` comes next. -/
theorem alias_sound {c d : Cursor} {newName : Option String} {ts : List Token} (hc : c.At ts)
    (h : alias?.run c = .ok newName d) :
    ∃ us, d.At us ∧ Maybe (Under .as WritesName) ts newName us ∧
      (newName = none → Clear (· = .keyword .as) us) := by
  rw [alias?, run_bind_of_ok (run_isAtKeyword _ _)] at h
  by_cases hk : c.next.kind = .keyword .as
  · obtain ⟨us, rfl⟩ := hc.eq_cons hk (by simp) (by simp)
    simp only [hk, decide_true, if_true, run_bind_of_ok (run_take _ _), bind_pure_comp] at h
    obtain ⟨s, h₁, rfl⟩ := run_map_eq_ok h
    obtain ⟨vs, hd, hs⟩ := (reads_name _ _ us.length).sound (hc.taken _) (Nat.le_refl _) h₁
    exact ⟨vs, hd, .some (.mk hk hs), nofun⟩
  · simp only [hk, decide_false, Bool.false_eq_true, if_false] at h
    cases h
    exact ⟨ts, hc, .none, fun _ => hc.clear hk⟩

/-- A new name that is written is read, and none where no `as` is ahead. -/
theorem alias_complete {c : Cursor} {newName : Option String} {ts us : List Token} (hc : c.At ts)
    (h : Maybe (Under .as WritesName) ts newName us)
    (hus : newName = none → Clear (· = .keyword .as) us) :
    ∃ d, alias?.run c = .ok newName d ∧ d.At us := by
  cases h with
  | none => exact ⟨c, by simp [alias?, (hus rfl).next hc (by simp) (by simp)], hc⟩
  | some h =>
    obtain @⟨s, t, ts, us, hk, hs⟩ := h
    obtain ⟨d, h₁, hd⟩ := (reads_name .column "alias" ts.length).complete (hc.taken .keyword)
      (Nat.le_refl _) hs clear_false
    exact ⟨d, by simp [alias?, hc.next_eq, hk, h₁], hd⟩

/-- A new name is read as it is written, and only `as` continues it. -/
theorem reads_alias (n : Nat) :
    Reads n alias? (Maybe (Under .as WritesName)) fun k => k = .keyword .as where
  sound hc _ h := by
    obtain ⟨us, hd, ha, -⟩ := alias_sound hc h
    exact ⟨us, hd, ha⟩
  complete hc _ h hus := alias_complete hc h fun _ => hus

/-! ## Lists -/

variable {Item : List Token → α → List Token → Prop} {K : TokenKind → Prop} {item : Parser α}

/-- Items with commas between them are read as they are written, if each item is. -/
theorem reads_commaSeparated {fuel : Nat} (hpass : ∀ {ts a us}, Item ts a us → Passes ts us)
    (hcomma : ¬ K (.symbol .comma)) (hi : ∀ n, Reads n item Item K) (hn : n < fuel) :
    Reads n (commaSeparated item fuel) (Separated Item) fun k => K k ∨ k = .symbol .comma := by
  induction fuel generalizing n with
  | zero => omega
  | succ fuel ih => exact .separated hpass hcomma (hi n) fun m hm => ih (by omega)

/-- A list is read as it is written, if each item is. -/
theorem reads_list (hpass : ∀ {ts a us}, Item ts a us → Passes ts us)
    (hcomma : ¬ K (.symbol .comma)) (hi : ∀ n, Reads n item Item K) (n : Nat) :
    Reads n (list item) (Separated Item) fun k => K k ∨ k = .symbol .comma where
  sound {c d as ts} hc hn h := by
    simp only [list, run_bind_of_ok (EStateM.run_get _)] at h
    rw [hc.rest] at h
    exact (reads_commaSeparated hpass hcomma hi (Nat.lt_succ_self _)).sound hc (Nat.le_refl _) h
  complete {c as ts us} hc hn h hus := by
    simp only [list, run_bind_of_ok (EStateM.run_get _)]
    rw [hc.rest]
    exact (reads_commaSeparated hpass hcomma hi (Nat.lt_succ_self _)).complete hc (Nat.le_refl _) h
      hus

/-- A column of a table is read as it is written, and only `as` continues it. -/
theorem reads_tableColumn (n : Nat) :
    Reads n tableColumn WritesTableColumn fun k => k = .keyword .as where
  sound {c d a ts} hc hn h := by
    rw [tableColumn, run_bind_of_ok (run_suggest _ _)] at h
    obtain ⟨s, c₁, h₁, h⟩ := run_bind_eq_ok h
    obtain ⟨us, hc₁, hs⟩ := (reads_column n).sound (hc.suggested _) hn h₁
    rw [bind_pure_comp] at h
    obtain ⟨newName, h₂, rfl⟩ := run_map_eq_ok h
    obtain ⟨vs, hd, ha⟩ := (reads_alias us.length).sound hc₁ (Nat.le_refl _) h₂
    exact ⟨vs, hd, .mk hs ha⟩
  complete {c a ts us} hc hn h hus := by
    obtain @⟨s, newName, ts, vs, us, hs, ha⟩ := h
    obtain ⟨c₁, h₁, hc₁⟩ := (reads_column n).complete (hc.suggested .columns) hn hs clear_false
    obtain ⟨d, h₂, hd⟩ := (reads_alias vs.length).complete hc₁ (Nat.le_refl _) ha hus
    exact ⟨d, by simp [tableColumn, h₁, h₂], hd⟩

/-- A sort key is read as it is written, and only a direction continues it. -/
theorem reads_sortKey (n : Nat) :
    Reads n sortKey WritesSortKey fun k => k = .keyword .asc ∨ k = .keyword .desc where
  sound {c d a ts} hc hn h := by
    rw [sortKey, run_bind_of_ok (run_suggest _ _)] at h
    obtain ⟨s, c₁, h₁, h⟩ := run_bind_eq_ok h
    obtain ⟨us, hc₁, hs⟩ := (reads_column n).sound (hc.suggested _) hn h₁
    rw [run_bind_of_ok (run_suggest _ _), run_bind_of_ok (run_isAtKeyword _ _)] at h
    have hc₂ := hc₁.suggested (.keywords ["asc", "desc"])
    generalize suggested (.keywords ["asc", "desc"]) c₁ = c₂ at h hc₂
    by_cases hdesc : c₂.next.kind = .keyword .desc
    · obtain ⟨vs, rfl⟩ := hc₂.eq_cons hdesc (by simp) (by simp)
      simp only [hdesc, decide_true, if_true, run_bind_of_ok (run_take _ _)] at h
      cases h
      exact ⟨vs, hc₂.taken _, .desc hs hdesc⟩
    · simp only [hdesc, decide_false, Bool.false_eq_true, if_false] at h
      rw [run_bind_of_ok (run_isAtKeyword _ _)] at h
      by_cases hasc : c₂.next.kind = .keyword .asc
      · obtain ⟨vs, rfl⟩ := hc₂.eq_cons hasc (by simp) (by simp)
        simp only [hasc, decide_true, if_true] at h
        cases h
        exact ⟨vs, hc₂.taken _, .asc hs hasc⟩
      · simp only [hasc, decide_false, Bool.false_eq_true, if_false] at h
        cases h
        exact ⟨us, hc₂, .plain hs⟩
  complete {c a ts us} hc hn h hus := by
    have hc₀ := hc.suggested .columns
    cases h with
    | plain hs =>
      obtain ⟨c₁, h₁, hc₁⟩ := (reads_column n).complete hc₀ hn hs clear_false
      have hk := hus.next hc₁ (by simp) (by simp)
      rw [not_or] at hk
      exact ⟨_, by simp [sortKey, h₁, hk], hc₁.suggested (.keywords ["asc", "desc"])⟩
    | asc hs hk =>
      obtain ⟨c₁, h₁, hc₁⟩ := (reads_column n).complete hc₀ hn hs clear_false
      have hc₂ := hc₁.suggested (.keywords ["asc", "desc"])
      exact ⟨_, by simp [sortKey, h₁, hc₁.next_eq, hk], hc₂.taken .keyword⟩
    | desc hs hk =>
      obtain ⟨c₁, h₁, hc₁⟩ := (reads_column n).complete hc₀ hn hs clear_false
      have hc₂ := hc₁.suggested (.keywords ["asc", "desc"])
      exact ⟨_, by simp [sortKey, h₁, hc₁.next_eq, hk], hc₂.taken .keyword⟩

/-! ## Aggregations -/

/-- The end of an aggregation, after its column. -/
theorem closeAggregate_sound {f : Aggregate} {column : Option String} {problem : Problem}
    {a : AggregateCall} {c d : Cursor} {ts : List Token} (hc : c.At ts)
    (h : (do
      expect .rightParen
      if column.isNone ∧ f ≠ .count then throw problem
      return ⟨f, column, ← alias?⟩ : Parser AggregateCall).run c = .ok a d) :
    ∃ r us vs newName, ts = r :: us ∧ r.kind = .symbol .rightParen ∧ (column = none → f = .count) ∧
      Maybe (Under .as WritesName) us newName vs ∧ (newName = none → Clear (· = .keyword .as) vs) ∧
      d.At vs ∧ a = ⟨f, column, newName⟩ := by
  obtain ⟨us, rfl, hr, hc₁, h⟩ := hc.expect (by simp) h
  split at h
  · simp at h
  · next hcolumn =>
    rw [not_and, not_not, Option.isNone_iff_eq_none] at hcolumn
    rw [bind_pure_comp] at h
    obtain ⟨newName, h₁, rfl⟩ := run_map_eq_ok h
    obtain ⟨vs, hd, ha, hclear⟩ := alias_sound hc₁ h₁
    exact ⟨c.next, us, vs, newName, rfl, hr, hcolumn, ha, hclear, hd, rfl⟩

/-- An aggregation that is read without a new name has no `as` behind it. -/
theorem aggregateCall_sound {c d : Cursor} {a : AggregateCall} {ts : List Token} (hc : c.At ts)
    (h : aggregateCall.run c = .ok a d) :
    ∃ us, d.At us ∧ WritesAggregateCall ts a us ∧
      (a.newName = none → Clear (· = .keyword .as) us) := by
  rw [aggregateCall, run_bind_of_ok (run_peek _)] at h
  split at h
  · next name hk =>
    obtain ⟨us, rfl⟩ := hc.eq_cons hk (by simp) (by simp)
    split at h
    · simp at h
    · next f hname =>
      rw [run_bind_of_ok (run_take _ _)] at h
      obtain ⟨us, rfl, hopen, hc₁, h⟩ := (hc.taken .function).expect (by simp) h
      rw [run_bind_of_ok (run_suggest _ _), run_bind_of_ok (run_peek _)] at h
      have hc₂ := hc₁.suggested .columns
      split at h
      · obtain ⟨column, c₃, h₃, h⟩ := run_bind_eq_ok h
        obtain ⟨s, hs, rfl⟩ := run_map_eq_ok h₃
        obtain ⟨vs, hc₃, hs⟩ := (reads_column us.length).sound hc₂ (Nat.le_refl _) hs
        obtain ⟨r, vs, ws, newName, rfl, hr, hcolumn, ha, hclear, hd, rfl⟩ :=
          closeAggregate_sound hc₃ h
        exact ⟨ws, hd, .mk hk hname hopen (.some hs) hr hcolumn ha, hclear⟩
      · rw [pure_bind] at h
        obtain ⟨r, vs, ws, newName, rfl, hr, hcolumn, ha, hclear, hd, rfl⟩ :=
          closeAggregate_sound hc₂ h
        exact ⟨ws, hd, .mk hk hname hopen .none hr hcolumn ha, hclear⟩
  · simp at h

/-- An aggregation that is written is read, unless a new name is ahead of one without. -/
theorem aggregateCall_complete {c : Cursor} {a : AggregateCall} {ts us : List Token} (hc : c.At ts)
    (h : WritesAggregateCall ts a us) (hus : a.newName = none → Clear (· = .keyword .as) us) :
    ∃ d, aggregateCall.run c = .ok a d ∧ d.At us := by
  obtain @⟨name, f, column, newName, t, l, r, ts, vs, us, hk, hname, hopen, hcol, hr, hcolumn,
    ha⟩ := h
  have hc₁ := (hc.taken .function).advanced
  have hc₂ := hc₁.suggested .columns
  cases hcol with
  | none =>
    obtain ⟨d, h₁, hd⟩ := alias_complete hc₂.advanced ha hus
    exact ⟨d, by simp [aggregateCall, hc.next_eq, hk, hname, (hc.taken _).next_eq, hopen,
      hc₁.next_eq, hr, hcolumn, h₁], hd⟩
  | some hs =>
    obtain ⟨c₃, h₃, hc₃⟩ := (reads_column ts.length).complete hc₂ (Nat.le_refl _) hs clear_false
    obtain ⟨d, h₁, hd⟩ := alias_complete hc₃.advanced ha hus
    obtain @⟨s, u, ts, hu⟩ := hs
    exact ⟨d, by simp [aggregateCall, hc.next_eq, hk, hname, (hc.taken _).next_eq, hopen,
      hc₁.next_eq, hu, h₃, hc₃.next_eq, hr, h₁], hd⟩

/-- An aggregation is read as it is written, and only `as` continues it. -/
theorem reads_aggregateCall (n : Nat) :
    Reads n aggregateCall WritesAggregateCall fun k => k = .keyword .as where
  sound hc _ h := by
    obtain ⟨us, hd, ha, -⟩ := aggregateCall_sound hc h
    exact ⟨us, hd, ha⟩
  complete hc _ h hus := aggregateCall_complete hc h fun _ => hus

/-- An aggregation is read as it is written, whatever marker it is offered by. -/
theorem reads_offeredAggregate (marker n : Nat) :
    Reads n (offeredAggregate marker) WritesAggregateCall fun k => k = .keyword .as where
  sound {c d a ts} hc hn h := by
    rw [offeredAggregate, run_bind_of_ok (run_suggest _ _)] at h
    obtain ⟨a, c₁, h₁, h⟩ := run_bind_eq_ok h
    obtain ⟨us, hc₁, ha⟩ := (reads_aggregateCall n).sound (hc.suggested _) hn h₁
    cases h
    exact ⟨us, hc₁.marked _, ha⟩
  complete {c a ts us} hc hn h hus := by
    obtain ⟨d, h₁, hd⟩ := (reads_aggregateCall n).complete (hc.suggested .aggregations) hn h hus
    refine ⟨d.marked ((d.marks.enable marker).restart marker d.lastStop), ?_, hd.marked _⟩
    simp only [offeredAggregate, run_bind_of_ok (run_suggest _ _), run_bind_of_ok h₁]
    rfl

/-- Disabling a marker moves nothing. -/
theorem run_disable (id : Nat) (c : Cursor) :
    (modify fun c => { c with marks := c.marks.disable id } : Parser Unit).run c =
      .ok () (c.marked (c.marks.disable id)) := rfl

/-- Aggregations are read where a segment ends after them. -/
theorem reads_aggregations (n : Nat) :
    Reads n aggregations WritesAggregations fun _ => True where
  sound {c d a ts} hc hn h := by
    rw [aggregations, run_bind_of_ok (run_openMarker _ _), run_bind_of_ok (run_disable _ _)] at h
    obtain ⟨calls, c₁, h₁, h⟩ := run_bind_eq_ok h
    obtain ⟨us, hc₁, hcalls⟩ := (reads_list WritesAggregateCall.passes (by simp)
      (reads_offeredAggregate _) n).sound ((hc.marked _).marked _) hn h₁
    rw [run_bind_of_ok (run_settle _ _), run_bind_of_ok (run_isAtKeyword _ _)] at h
    have hc₂ := hc₁.settled c.marks.markers.length
    generalize settled c.marks.markers.length c₁ = c₂ at h hc₂
    by_cases hk : c₂.next.kind = .keyword .by
    · obtain ⟨us, rfl⟩ := hc₂.eq_cons hk (by simp) (by simp)
      simp only [hk, decide_true, if_true, run_bind_of_ok (run_take _ _), bind_pure_comp] at h
      obtain ⟨groupBy, h₂, rfl⟩ := run_map_eq_ok h
      obtain ⟨vs, hd, hg⟩ := (reads_list WritesName.passes id reads_groupColumn us.length).sound
        (hc₂.taken _) (Nat.le_refl _) h₂
      exact ⟨vs, hd, .mk hcalls (.some (.mk hk hg))⟩
    · simp only [hk, decide_false, Bool.false_eq_true, if_false] at h
      cases h
      exact ⟨us, hc₂, .mk hcalls .none⟩
  complete {c a ts us} hc hn h hus := by
    obtain @⟨calls, groupBy, ts, vs, us, hcalls, hg⟩ := h
    have hclear : Clear (fun k => k = .keyword .as ∨ k = .symbol .comma) vs := by
      cases hg with
      | none => exact hus.mono fun _ _ => trivial
      | some hg =>
        obtain ⟨hk, -⟩ := hg
        exact clear_cons hk (by simp)
    have hc₀ := (hc.opened (.keywords ["by"])).marked
      ((opened (.keywords ["by"]) c).marks.disable c.marks.markers.length)
    obtain ⟨c₁, h₁, hc₁⟩ := (reads_list WritesAggregateCall.passes (by simp)
      (reads_offeredAggregate c.marks.markers.length) n).complete hc₀ hn hcalls hclear
    have hc₂ := hc₁.settled c.marks.markers.length
    rw [aggregations, run_bind_of_ok (run_openMarker _ _), run_bind_of_ok (run_disable _ _),
      run_bind_of_ok h₁, run_bind_of_ok (run_settle _ _), run_bind_of_ok (run_isAtKeyword _ _)]
    cases hg with
    | none =>
      have hk : (settled c.marks.markers.length c₁).next.kind ≠ .keyword .by :=
        (hus.mono fun _ _ => trivial : Clear (fun k => k = .keyword .by) us).next hc₂ (by simp)
          (by simp)
      exact ⟨_, by simp [hk], hc₂⟩
    | some hg =>
      obtain ⟨hk, hg⟩ := hg
      obtain ⟨d, h₂, hd⟩ := (reads_list WritesName.passes id reads_groupColumn _).complete
        (hc₂.taken .keyword) (Nat.le_refl _) hg (hus.mono fun _ _ => trivial)
      exact ⟨d, by simp [hc₂.next_eq, hk, h₂], hd⟩

/-! ## Settings -/

/-- At its keyword a setting is read before what comes after it. -/
theorem setting_sound {k : Keyword} {f : α → Parser β} {b : β} {c d : Cursor} {ts : List Token}
    (hi : ∀ n, Reads n item Item K) (hc : c.At ts) (hk : c.next.kind = .keyword k)
    (h : (do take .keyword; expectOperator .equal; item >>= f : Parser β).run c = .ok b d) :
    ∃ a us c', Setting k Item ts a us ∧ c'.At us ∧ (f a).run c' = .ok b d := by
  obtain ⟨us, rfl⟩ := hc.eq_cons hk (by simp) (by simp)
  have hc₁ := hc.taken .keyword
  rw [run_bind_of_ok (run_take _ _), EStateM.run_bind, run_expectOperator] at h
  by_cases he : (taken .keyword c).next.kind = .symbol .equal
  · obtain ⟨vs, rfl⟩ := hc₁.eq_cons he (by simp) (by simp)
    rw [if_pos he] at h
    obtain ⟨a, c', h', h⟩ := run_bind_eq_ok h
    obtain ⟨ws, hc', ha⟩ := (hi _).sound (hc₁.taken _) (Nat.le_refl _) h'
    exact ⟨a, ws, c', .mk hk he ha, hc', h⟩
  · simp [he] at h

/-- An option that is written is read up to its value, and then goes on with it. -/
theorem setting_complete {k : Keyword} {a : α} {c : Cursor} {ts us : List Token}
    (hi : ∀ n, Reads n item Item fun _ => False) (hc : c.At ts) (h : Setting k Item ts a us) :
    c.next.kind = .keyword k ∧ ∃ c', c'.At us ∧ ∀ f : α → Parser β,
      (do take .keyword; expectOperator .equal; item >>= f : Parser β).run c = (f a).run c' := by
  obtain ⟨hk, he, ha⟩ := h
  have hc₁ := hc.taken .keyword
  obtain ⟨c', h', hc'⟩ := (hi _).complete (hc₁.taken .operator) (Nat.le_refl _) ha clear_false
  refine ⟨hc.next_eq ▸ hk, c', hc', fun f => ?_⟩
  rw [run_bind_of_ok (run_take _ _), EStateM.run_bind, run_expectOperator, hc₁.next_eq, if_pos he]
  exact run_bind_of_ok h'

/-- A duration is read as it is written, and nothing continues it. -/
theorem reads_duration (n : Nat) : Reads n duration WritesDuration fun _ => False where
  sound {c d s ts} hc _ h := by
    rw [duration, run_bind_of_ok (run_peek _)] at h
    split at h
    · next w hk =>
      obtain ⟨us, rfl⟩ := hc.eq_cons hk (by simp) (by simp)
      split at h
      · simp at h
      · next hs =>
        cases h
        exact ⟨us, hc.taken _, .mk (.inl ⟨w, hk⟩) hs⟩
    · next x hk =>
      obtain ⟨us, rfl⟩ := hc.eq_cons hk (by simp) (by simp)
      split at h
      · simp at h
      · next hs =>
        cases h
        exact ⟨us, hc.taken _, .mk (.inr ⟨x, hk⟩) hs⟩
    · simp at h
  complete {c s ts us} hc _ h _ := by
    obtain ⟨⟨w, hk⟩ | ⟨x, hk⟩, hs⟩ := h <;>
      exact ⟨taken .number c, by simp [duration, hc.next_eq, hk, hs], hc.taken _⟩

/-- A positive integer is read as it is written, and nothing continues it. -/
theorem reads_positiveInteger (n : Nat) :
    Reads n positiveInteger WritesPositive fun _ => False where
  sound {c d m ts} hc _ h := by
    rw [positiveInteger, run_bind_of_ok (run_peek _)] at h
    split at h
    · next x hk =>
      obtain ⟨us, rfl⟩ := hc.eq_cons hk (by simp) (by simp)
      split at h
      · simp at h
      · next hm =>
        cases h
        exact ⟨us, hc.taken _, .mk hk hm⟩
    · simp at h
  complete {c m ts us} hc _ h _ := by
    obtain ⟨hk, hm⟩ := h
    exact ⟨taken .number c, by simp [positiveInteger, hc.next_eq, hk, hm], hc.taken _⟩

/-- Whether the options of a `timechart` stage go on at a token. -/
def ChartGoesOn (k : TokenKind) : Prop :=
  k = .keyword .span ∨ k = .keyword .timeColumn ∨ k = .keyword .maxGroups

/-- Options, added to those that have been read. -/
def WritesChartOptions (options : ChartOptions) (ts : List Token) (result : ChartOptions)
    (us : List Token) : Prop :=
  ∃ list, Repeated WritesChartOption ts list us ∧ list.foldl ChartOption.set options = result

/-- An option before others is one of them. -/
theorem WritesChartOptions.cons {options result : ChartOptions} {o : ChartOption}
    {ts us vs : List Token} (ho : WritesChartOption ts o us)
    (h : WritesChartOptions (ChartOption.set options o) us result vs) :
    WritesChartOptions options ts result vs := by
  obtain ⟨list, hlist, hr⟩ := h
  exact ⟨o :: list, .cons ho hlist, hr⟩

/-- The option of the column goes on with the others once its value is read. -/
theorem chartOptions_column (fuel : Nat) (options : ChartOptions) :
    (do
      take .keyword
      expectOperator .equal
      suggest .columns
      let name ← column
      chartOptions fuel { options with timeColumn := some name } : Parser ChartOptions) = (do
      take .keyword
      expectOperator .equal
      groupColumn >>= fun name => chartOptions fuel { options with timeColumn := some name }) := by
  simp only [groupColumn, bind_assoc]

/-- The options of a chart are read as they are written, and only options continue them. -/
theorem reads_chartOptions {fuel : Nat} (hn : n < fuel) (options : ChartOptions) :
    Reads n (chartOptions fuel options) (WritesChartOptions options) ChartGoesOn := by
  induction fuel generalizing n options with
  | zero => omega
  | succ fuel ih =>
    constructor
    · intro c d result ts hc hlen h
      rw [chartOptions, run_bind_of_ok (run_suggest _ _), run_bind_of_ok (run_peek _)] at h
      have hc₁ := hc.suggested (.keywords ["span", "timeCol", "maxGroups"])
      generalize suggested (.keywords ["span", "timeCol", "maxGroups"]) c = c₁ at h hc₁
      split at h
      · next hk =>
        obtain ⟨s, us, c₂, hs, hc₂, h⟩ := setting_sound reads_duration hc₁ hk h
        have hlt := (hs.passes WritesDuration.passes).length_lt
        obtain ⟨vs, hd, hr⟩ := (ih (by omega) _).sound hc₂ (Nat.le_refl _) h
        exact ⟨vs, hd, .cons (.span hs) hr⟩
      · next hk =>
        rw [chartOptions_column] at h
        obtain ⟨s, us, c₂, hs, hc₂, h⟩ := setting_sound reads_groupColumn hc₁ hk h
        have hlt := (hs.passes WritesName.passes).length_lt
        obtain ⟨vs, hd, hr⟩ := (ih (by omega) _).sound hc₂ (Nat.le_refl _) h
        exact ⟨vs, hd, .cons (.timeColumn hs) hr⟩
      · next hk =>
        obtain ⟨m, us, c₂, hm, hc₂, h⟩ := setting_sound reads_positiveInteger hc₁ hk h
        have hlt := (hm.passes WritesPositive.passes).length_lt
        obtain ⟨vs, hd, hr⟩ := (ih (by omega) _).sound hc₂ (Nat.le_refl _) h
        exact ⟨vs, hd, .cons (.maxGroups hm) hr⟩
      · cases h
        exact ⟨ts, hc₁, [], .nil, rfl⟩
    · intro c result ts us hc hlen h hus
      obtain ⟨list, hlist, hr⟩ := h
      have hc₁ := hc.suggested (.keywords ["span", "timeCol", "maxGroups"])
      rw [chartOptions, run_bind_of_ok (run_suggest _ _), run_bind_of_ok (run_peek _)]
      generalize suggested (.keywords ["span", "timeCol", "maxGroups"]) c = c₁ at hc₁ ⊢
      cases hlist with
      | nil =>
        have hk := hus.next hc₁ (by simp [ChartGoesOn]) (by simp [ChartGoesOn])
        simp only [ChartGoesOn, not_or] at hk
        refine ⟨c₁, ?_, hc₁⟩
        split
        · next hs => exact absurd hs hk.1
        · next hs => exact absurd hs hk.2.1
        · next hs => exact absurd hs hk.2.2
        · exact hr ▸ rfl
      | cons ho hlist =>
        have hlt := ho.passes.length_lt
        cases ho with
        | span hs =>
          obtain ⟨hk, c₂, hc₂, hrun⟩ := setting_complete reads_duration hc₁ hs
          obtain ⟨d, h₂, hd⟩ := (ih (by omega) _).complete hc₂ (Nat.le_refl _) ⟨_, hlist, hr⟩ hus
          refine ⟨d, ?_, hd⟩
          simp only [hk]
          exact (hrun _).trans h₂
        | timeColumn hs =>
          obtain ⟨hk, c₂, hc₂, hrun⟩ := setting_complete reads_groupColumn hc₁ hs
          obtain ⟨d, h₂, hd⟩ := (ih (by omega) _).complete hc₂ (Nat.le_refl _) ⟨_, hlist, hr⟩ hus
          refine ⟨d, ?_, hd⟩
          simp only [hk]
          rw [chartOptions_column]
          exact (hrun _).trans h₂
        | maxGroups hm =>
          obtain ⟨hk, c₂, hc₂, hrun⟩ := setting_complete reads_positiveInteger hc₁ hm
          obtain ⟨d, h₂, hd⟩ := (ih (by omega) _).complete hc₂ (Nat.le_refl _) ⟨_, hlist, hr⟩ hus
          refine ⟨d, ?_, hd⟩
          simp only [hk]
          exact (hrun _).trans h₂

/-- The column of a pattern, or none, is read as it is written. -/
theorem reads_regexField (n : Nat) :
    Reads n regexField? (Maybe (Setting .field WritesName)) fun k => k = .keyword .field where
  sound {c d a ts} hc hn h := by
    rw [regexField?, run_bind_of_ok (run_isAtKeyword _ _)] at h
    by_cases hk : c.next.kind = .keyword .field
    · simp only [hk, decide_true, if_true] at h
      have h : (do take .keyword; expectOperator .equal
                   groupColumn >>= fun s => pure (some s) : Parser (Option String)).run c =
          .ok a d := by
        simpa only [groupColumn, bind_assoc] using h
      obtain ⟨s, us, c₁, hs, hc₁, h⟩ := setting_sound reads_groupColumn hc hk h
      cases h
      exact ⟨us, hc₁, .some hs⟩
    · simp only [hk, decide_false, Bool.false_eq_true, if_false] at h
      cases h
      exact ⟨ts, hc, .none⟩
  complete {c a ts us} hc hn h hus := by
    cases h with
    | none => exact ⟨c, by simp [regexField?, hus.next hc (by simp) (by simp)], hc⟩
    | @some s _ _ hs =>
      obtain ⟨hk, c₁, hc₁, hrun⟩ := setting_complete reads_groupColumn hc hs
      refine ⟨c₁, ?_, hc₁⟩
      rw [regexField?, run_bind_of_ok (run_isAtKeyword _ _)]
      simp only [hk, decide_true, if_true]
      have h := hrun fun s => pure (some s)
      simp only [groupColumn, bind_assoc] at h
      exact h

/-! ## Stages -/

/-- A pattern compiles if the library takes it. -/
theorem compiles_iff [Regex.Library] {pattern : String} :
    Compiles pattern ↔ ∃ r, Regex.compile pattern = .ok r := by
  cases h : Regex.compile pattern <;>
    simp [Compiles, h, Except.isOk, Except.toBool]

/-- A `regex` stage is read as it is written. -/
theorem reads_regexStage [Regex.Library] (n : Nat) : Reads n regexStage
    (WritesBody .regex) fun _ => True where
  sound {c d s ts} hc hn h := by
    rw [regexStage, run_bind_of_ok (run_suggest _ _)] at h
    obtain ⟨field, c₁, h₁, h⟩ := run_bind_eq_ok h
    obtain ⟨us, hc₁, hf⟩ := (reads_regexField n).sound (hc.suggested _) hn h₁
    rw [run_bind_of_ok (run_peek _)] at h
    split at h
    · next pattern hk =>
      obtain ⟨us, rfl⟩ := hc₁.eq_cons hk (by simp) (by simp)
      rw [run_bind_of_ok (run_take _ _)] at h
      split at h
      · simp at h
      · next r hr =>
        cases h
        exact ⟨us, hc₁.taken _, .regex hf (.mk (.inl hk) (compiles_iff.2 ⟨r, hr⟩))⟩
    · next pattern hk =>
      obtain ⟨us, rfl⟩ := hc₁.eq_cons hk (by simp) (by simp)
      rw [run_bind_of_ok (run_take _ _)] at h
      split at h
      · simp at h
      · next r hr =>
        cases h
        exact ⟨us, hc₁.taken _, .regex hf (.mk (.inr hk) (compiles_iff.2 ⟨r, hr⟩))⟩
    · simp at h
  complete {c s ts us} hc hn h hus := by
    cases h with
    | @regex field pattern ts vs us hf hp =>
      have hclear : Clear (fun k => k = .keyword .field) vs := by
        obtain ⟨hk | hk, -⟩ := hp <;> exact clear_cons hk (by simp)
      obtain ⟨c₁, h₁, hc₁⟩ := (reads_regexField n).complete (hc.suggested (.keywords ["field"]))
        hn hf hclear
      obtain ⟨hk, hcompiles⟩ := hp
      obtain ⟨r, hr⟩ := compiles_iff.1 hcompiles
      refine ⟨taken .regex c₁, ?_, hc₁.taken _⟩
      rcases hk with hk | hk <;> simp [regexStage, h₁, hc₁.next_eq, hk, hr]

/-- An `eval` stage is read as it is written. -/
theorem reads_evalStage [Regex.Library] (n : Nat) :
    Reads n evalStage (WritesBody .eval) LogicalGoesOn where
  sound {c d s ts} hc hn h := by
    rw [evalStage, run_bind_of_ok (run_suggest _ _)] at h
    obtain ⟨target, c₁, h₁, h⟩ := run_bind_eq_ok h
    obtain ⟨us, hc₁, ht⟩ := (reads_column n).sound (hc.suggested _) hn h₁
    rw [EStateM.run_bind, run_expectOperator] at h
    by_cases he : c₁.next.kind = .symbol .equal
    · obtain ⟨vs, rfl⟩ := hc₁.eq_cons he (by simp) (by simp)
      simp only [he, if_true, bind_pure_comp] at h
      obtain ⟨e, h₂, rfl⟩ := run_map_eq_ok h
      obtain ⟨ws, hd, hv⟩ := (reads_expression _).sound (hc₁.taken _) (Nat.le_refl _) h₂
      exact ⟨ws, hd, .eval ht he hv⟩
    · simp [he] at h
  complete {c s ts us} hc hn h hus := by
    cases h with
    | eval ht he hv =>
      obtain ⟨c₁, h₁, hc₁⟩ := (reads_column n).complete (hc.suggested .columns) hn ht clear_false
      obtain ⟨d, h₂, hd⟩ := (reads_expression _).complete (hc₁.taken .operator) (Nat.le_refl _) hv
        hus
      exact ⟨d, by simp [evalStage, h₁, hc₁.next_eq, he, h₂], hd⟩

/-- A `timechart` stage is read as it is written. -/
theorem reads_chartStage [Regex.Library] (n : Nat) :
    Reads n chartStage (WritesBody .timeChart) fun _ => True where
  sound {c d s ts} hc hn h := by
    simp only [chartStage, run_bind_of_ok (EStateM.run_get _)] at h
    rw [hc.rest] at h
    obtain ⟨options, c₁, h₁, h⟩ := run_bind_eq_ok h
    obtain ⟨us, hc₁, list, hlist, ho⟩ :=
      (reads_chartOptions (Nat.lt_succ_self ts.length) _).sound hc (Nat.le_refl _) h₁
    obtain ⟨⟨calls, groupBy⟩, c₂, h₂, h⟩ := run_bind_eq_ok h
    obtain ⟨vs, hd, ha⟩ := (reads_aggregations _).sound hc₁ (Nat.le_refl _) h₂
    cases h
    exact ⟨vs, hd, .timeChart hlist ho ha⟩
  complete {c s ts us} hc hn h hus := by
    cases h with
    | @timeChart list options calls groupBy ts vs us hlist ho ha =>
      have hclear : Clear ChartGoesOn vs := by
        obtain ⟨hcalls, -⟩ := ha
        cases hcalls with
        | single h | cons h =>
          obtain ⟨hk⟩ := h
          exact clear_cons hk (by simp [ChartGoesOn])
      obtain ⟨c₁, h₁, hc₁⟩ := (reads_chartOptions (Nat.lt_succ_self ts.length) _).complete hc
        (Nat.le_refl _) ⟨list, hlist, ho⟩ hclear
      obtain ⟨d, h₂, hd⟩ := (reads_aggregations _).complete hc₁ (Nat.le_refl _) ha hus
      refine ⟨d, ?_, hd⟩
      simp only [chartStage, run_bind_of_ok (EStateM.run_get _)]
      rw [hc.rest, run_bind_of_ok h₁, run_bind_of_ok h₂]
      rfl

/-- The body of a stage is read as it is written. -/
theorem reads_stageBody [Regex.Library] (command : Command) (n : Nat) :
    Reads n (stageBody command) (WritesBody command) fun _ => True := by
  cases command with
  | table =>
    refine (reads_list WritesTableColumn.passes (by simp) reads_tableColumn n).map ?_
      fun _ _ => trivial
    exact ⟨fun h => by cases h with | table h => exact ⟨_, h, rfl⟩, fun ⟨_, h, he⟩ => he ▸ .table h⟩
  | stats =>
    have h : stageBody .stats = (fun a => .stats a.1 a.2) <$> aggregations := by
      simp only [stageBody, bind_pure_comp]
    rw [h]
    refine (reads_aggregations n).map ?_ fun _ _ => trivial
    exact ⟨fun h => by cases h with | stats h => exact ⟨_, h, rfl⟩, fun ⟨_, h, he⟩ => he ▸ .stats h⟩
  | regex => exact reads_regexStage n
  | sort =>
    refine (reads_list WritesSortKey.passes (by simp) reads_sortKey n).map ?_ fun _ _ => trivial
    exact ⟨fun h => by cases h with | sort h => exact ⟨_, h, rfl⟩, fun ⟨_, h, he⟩ => he ▸ .sort h⟩
  | filter =>
    refine (reads_expression n).map ?_ fun _ _ => trivial
    exact ⟨fun h => by cases h with | filter h => exact ⟨_, h, rfl⟩,
      fun ⟨_, h, he⟩ => he ▸ .filter h⟩
  | timeChart => exact reads_chartStage n
  | eval =>
    have h := reads_evalStage n
    exact ⟨h.sound, fun hc hn hi hus => h.complete hc hn hi (hus.mono fun _ _ => trivial)⟩

/-- A stage is read as it is written where its segment ends after it. -/
theorem reads_stage [Regex.Library] (n : Nat) : Reads n stage WritesStage fun _ => True where
  sound {c d s ts} hc hn h := by
    rw [stage, run_bind_of_ok (run_suggest _ _), run_bind_of_ok (run_peek _)] at h
    have hc₁ := hc.suggested .commands
    split at h
    · next command hk =>
      obtain ⟨us, rfl⟩ := hc₁.eq_cons hk (by simp) (by simp)
      rw [run_bind_of_ok (run_take _ _)] at h
      obtain ⟨vs, hd, hs⟩ := (reads_stageBody command _).sound (hc₁.taken _) (Nat.le_refl _) h
      exact ⟨vs, hd, .mk hk hs⟩
    · simp at h
    · simp at h
  complete {c s ts us} hc hn h hus := by
    obtain ⟨hk, hs⟩ := h
    have hc₁ := hc.suggested .commands
    obtain ⟨d, h₁, hd⟩ := (reads_stageBody _ _).complete (hc₁.taken .command) (Nat.le_refl _) hs hus
    exact ⟨d, by simp [stage, hc.next_eq, hk, h₁], hd⟩

end Parser

end LogSearch.Query
