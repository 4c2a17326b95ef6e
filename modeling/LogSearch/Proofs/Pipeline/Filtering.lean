import LogSearch.Proofs.Pipeline.RowOrder

/-!
# Where a filter may stand

A filter looks at one row at a time, so it does not matter whether rows are left out before they are
sorted or afterwards. It looks at the events as well as at the rows of the table, while a sort puts
only the rows in order that the next stage reads. Two filters in a row are one whose condition is both.

* `sortRows_filter`, `Results.keep_sorted`: a filter and a sort, in either order.
* `Expr.holds_and`, `Results.keep_keep`: two filters in a row.
* `filters_move_and_fuse`: the stages.
-/

namespace LogSearch

/-- Sorting what is left is leaving out of what is sorted. -/
theorem sortRows_filter (keys : List SortKey) (keep : Record → Bool) (rows : List Record) :
    sortRows keys (rows.filter keep) = (sortRows keys rows).filter keep :=
  mergeSort_filter (notAfter_trans keys) (notAfter_total keys) keep rows

/-- A conjunction holds for a record if both of its sides hold; where the first one does not, the
second one does not count. -/
theorem Expr.holds_and [Regex.Library] [Machine] (p q : Expr) (r : Record) :
    (Expr.binary .and p q).holds r = (p.holds r && q.holds r) := by
  unfold holds
  rw [eval]
  rfl

namespace Results

/-- Where there is a table, the events stay as they are under a sort, and are filtered in either case. -/
theorem keep_sorted (r : Results) (keys : List SortKey) (test : Record → Bool) :
    (r.sorted keys).keep test = (r.keep test).sorted keys := by
  obtain ⟨events, table, chart⟩ := r
  cases table with
  | none =>
    show (⟨(sortRows keys events).filter test, none, none⟩ : Results) =
      ⟨sortRows keys (events.filter test), none, none⟩
    rw [sortRows_filter]
  | some t =>
    show (⟨events.filter test, some ⟨t.columns, (sortRows keys t.rows).filter test⟩, none⟩ : Results) =
      ⟨events.filter test, some ⟨t.columns, sortRows keys (t.rows.filter test)⟩, none⟩
    rw [sortRows_filter]

/-- Keeping rows twice keeps those that both conditions accept. -/
theorem keep_keep (r : Results) (first second : Record → Bool) :
    (r.keep first).keep second = r.keep fun row => first row && second row := by
  have hrows : ∀ rows : List Record,
      (rows.filter first).filter second = rows.filter fun row => first row && second row := by
    intro rows
    rw [List.filter_filter]
    apply List.filter_congr
    intro row _
    exact Bool.and_comm _ _
  obtain ⟨events, table, chart⟩ := r
  cases table with
  | none =>
    show (⟨(events.filter first).filter second, none, none⟩ : Results) = _
    rw [hrows]
    rfl
  | some t =>
    show (⟨(events.filter first).filter second,
      some ⟨t.columns, (t.rows.filter first).filter second⟩, none⟩ : Results) = _
    rw [hrows, hrows]
    rfl

end Results

/-- A filter stage keeps just the events and the rows of the table for which its condition is true, in
their order. A sort before it may stand behind it as well, and a second filter behind it may be joined
to it by a conjunction, which is true where both conditions are. -/
theorem filters_move_and_fuse [Regex.Library] [Machine] (p q : Expr) (keys : List SortKey)
    (range : TimeRange) (before : Results) :
    let kept (condition : Expr) : Results :=
      ⟨before.events.filter fun r => (condition.eval r).asBool,
        before.table.map fun t => ⟨t.columns, t.rows.filter fun r => (condition.eval r).asBool⟩, none⟩
    let run (stages : List Stage) := stages.foldlM (Stage.apply range) before
    run [.filter p] = .ok (kept p) ∧
    (∃ after, run [.sort keys, .filter p] = .ok after ∧ run [.filter p, .sort keys] = .ok after) ∧
    run [.filter p, .filter q] = .ok (kept (.binary .and p q)) ∧
    run [.filter (.binary .and p q)] = .ok (kept (.binary .and p q)) ∧
    ∀ r, ((Expr.binary .and p q).eval r).asBool = true ↔
      (p.eval r).asBool = true ∧ (q.eval r).asBool = true := by
  intro kept run
  have hkept : ∀ condition : Expr, before.keep condition.holds = kept condition := by
    intro condition
    rfl
  have hboth : (before.keep p.holds).keep q.holds = kept (.binary .and p q) := by
    have hholds : (Expr.binary .and p q).holds = fun r => p.holds r && q.holds r := by
      funext r
      exact Expr.holds_and p q r
    rw [Results.keep_keep, ← hkept, hholds]
  refine ⟨rfl, ⟨(before.sorted keys).keep p.holds, rfl, ?_⟩, ?_, rfl, ?_⟩
  · rw [Results.keep_sorted]
    rfl
  · rw [← hboth]
    rfl
  · intro r
    show (Expr.binary .and p q).holds r = true ↔ p.holds r = true ∧ q.holds r = true
    rw [Expr.holds_and, Bool.and_eq_true]

end LogSearch
