import LogSearch.Proofs.Pipeline.NonNumeric

/-!
# Which pipelines are broken off

Arithmetic breaks off a pipeline where a chart cannot choose or count its buckets. It does this from the
range and the span alone, so that the rows have no part in it: a pipeline that gives results for some
rows is broken off over none.

* `stops_eq_false_of_apply`: a stage that gives results for some rows.
* `stops_eq_false_of_runPipeline`: a pipeline that does.
-/

namespace LogSearch

variable [Regex.Library] [Machine] {range : TimeRange} {stage : Stage} {stages : List Stage}
  {before after other : Results} {fault : StageFault}

/-- A chart that is drawn of some rows has its buckets counted, and then has them for all rows. -/
theorem stops_eq_false_of_timeChart {span : Option TimeSpan} {timeColumn : Option String}
    {maxGroups : Option ℕ} {calls : List AggregateCall} {groupBy : List String}
    (hafter : (Stage.timeChart span timeColumn maxGroups calls groupBy).apply range before = .ok after)
    (h : (Stage.timeChart span timeColumn maxGroups calls groupBy).apply range other = .error fault) :
    fault.stops = false := by
  obtain ⟨width, hwidth, t, c, hdraw, -⟩ := apply_timeChart_eq_ok_iff.1 hafter
  obtain ⟨count, hcount, -⟩ := bind_eq_ok.1 hdraw
  rcases apply_timeChart_eq_error_iff.1 h with hnone | ⟨width', hwidth', hfault⟩
  · cases hwidth.symm.trans hnone
  · obtain rfl := Except.ok.inj (hwidth.symm.trans hwidth')
    rcases TimeChart.Plan.fault_of_draw hfault with hcount' | ⟨column, text, rfl⟩
    · cases hcount.symm.trans hcount'
    · rfl

/-- A stage that gives results for some rows is not broken off over others. -/
theorem stops_eq_false_of_apply (hafter : stage.apply range before = .ok after)
    (h : stage.apply range other = .error fault) : fault.stops = false := by
  cases stage with
  | timeChart => exact stops_eq_false_of_timeChart hafter h
  | stats calls columns =>
    obtain ⟨m, -, rfl⟩ := (failsFirst_stats calls columns range other).eq_error_iff.1 h
    rfl
  | regex field pattern =>
    rw [Stage.apply] at h
    split at h
    · cases h
      rfl
    · cases h
  | table | sort | filter | eval => cases h

/-- Stages that give results one after another are not broken off over other rows. -/
theorem stops_eq_false_of_foldlM (hafter : stages.foldlM (Stage.apply range) before = .ok after)
    (h : stages.foldlM (Stage.apply range) other = .error fault) : fault.stops = false := by
  induction stages generalizing before other with
  | nil => cases h
  | cons stage stages ih =>
    rw [List.foldlM_cons] at hafter h
    obtain ⟨next, hnext, hafter⟩ := bind_eq_ok.1 hafter
    rcases bind_eq_error.1 h with h | ⟨next', -, h⟩
    · exact stops_eq_false_of_apply hnext h
    · exact ih hafter h

/-- A pipeline that gives results for some events is not broken off over others. -/
theorem stops_eq_false_of_runPipeline {events others : List Record}
    (hafter : runPipeline range stages events = .ok after)
    (h : runPipeline range stages others = .error fault) : fault.stops = false :=
  stops_eq_false_of_foldlM hafter h

end LogSearch
