import LogSearch.Pipeline.Aggregation
import LogSearch.Proofs.Failing

/-!
# Values that no number is made of

A sum, an average and the two extremes need numbers. A row without a value in their column, or with a
null there, does not matter to them; any other value that does not count as a number is a misfit, and
the first one met is the fault of the aggregation.

* `Misfit`, `AggregateCall.Meets`: a value that an aggregation cannot count with.
* `misfits`: all of them, in the order in which groups, aggregations and rows are gone through.
* `failsFirst_compute`, `failsFirst_groupRow`: the first of them is the fault.
-/

namespace LogSearch

/-- Whether an aggregation computes with numbers. -/
def Aggregate.isNumeric : Aggregate → Bool
  | .sum | .avg | .min | .max => true
  | .first | .last | .count => false

/-- A value that does not count as a number, and its column. -/
structure Misfit where
  column : String
  value : Field

/-- The fault of a stage that meets a misfit. -/
def Misfit.fault (stage : String) (m : Misfit) : StageFault :=
  .nonNumeric stage m.column m.value.display

/-- The aggregation needs numbers and meets this value in the row. -/
structure AggregateCall.Meets (a : AggregateCall) (r : Record) (m : Misfit) : Prop where
  function : a.function ∈ [.sum, .avg, .min, .max]
  column : a.column = some m.column
  value : r.get? m.column = some m.value
  isNull : m.value.isNull = false
  asNumber? : m.value.asNumber? = none

/-- The misfit of a column in a row. -/
def misfitOf? (column : String) (r : Record) : Option Misfit :=
  ((r.get? column).filter fun f => !f.isNull && f.asNumber?.isNone).map (Misfit.mk column)

/-- The misfit that an aggregation meets in a row. -/
def AggregateCall.misfit? (a : AggregateCall) (r : Record) : Option Misfit :=
  if a.function.isNumeric then a.column.bind fun column => misfitOf? column r else none

/-- The misfits in groups: group by group, in each of them aggregation by aggregation, and for each of
these row by row. -/
def misfits (calls : List AggregateCall) (groups : List (List Record)) : List Misfit :=
  groups.flatMap fun members => calls.flatMap fun a => members.filterMap a.misfit?

/-- A row has a misfit in a column if its value there is neither null nor a number. -/
theorem misfitOf?_eq_some_iff {column : String} {r : Record} {m : Misfit} :
    misfitOf? column r = some m ↔ column = m.column ∧ r.get? m.column = some m.value ∧
      m.value.isNull = false ∧ m.value.asNumber? = none := by
  unfold misfitOf?
  rw [Option.map_eq_some_iff]
  simp only [Option.filter_eq_some_iff, Bool.and_eq_true, Bool.not_eq_true', Option.isNone_iff_eq_none]
  constructor
  · rintro ⟨f, ⟨hf, hpresent, hnumber⟩, rfl⟩
    exact ⟨rfl, hf, hpresent, hnumber⟩
  · rintro ⟨rfl, hf, hpresent, hnumber⟩
    exact ⟨m.value, ⟨hf, hpresent, hnumber⟩, rfl⟩

/-- The misfit of an aggregation in a row is the one that it meets. -/
theorem AggregateCall.misfit?_eq_some_iff {a : AggregateCall} {r : Record} {m : Misfit} :
    a.misfit? r = some m ↔ a.Meets r m := by
  have hnumeric : a.function.isNumeric = true ↔ a.function ∈ [.sum, .avg, .min, .max] := by
    cases a.function <;> decide
  unfold misfit?
  constructor
  · intro h
    split at h
    · next hfunction =>
      obtain ⟨column, hcolumn, h⟩ := Option.bind_eq_some_iff.1 h
      obtain ⟨rfl, hvalue, hpresent, hnumber⟩ := misfitOf?_eq_some_iff.1 h
      exact ⟨hnumeric.1 hfunction, hcolumn, hvalue, hpresent, hnumber⟩
    · cases h
  · rintro ⟨hfunction, hcolumn, hvalue, hpresent, hnumber⟩
    rw [if_pos (hnumeric.2 hfunction), hcolumn]
    exact misfitOf?_eq_some_iff.2 ⟨rfl, hvalue, hpresent, hnumber⟩

/-- The misfits in groups of groups are those in each of them, in turn. -/
theorem misfits_flatMap {α : Type} (calls : List AggregateCall) (groups : α → List (List Record))
    (as : List α) : misfits calls (as.flatMap groups) = as.flatMap fun a => misfits calls (groups a) :=
  List.flatMap_assoc

/-- The misfits in groups are those that some aggregation meets in some member. -/
theorem mem_misfits_iff {calls : List AggregateCall} {groups : List (List Record)} {m : Misfit} :
    m ∈ misfits calls groups ↔
      ∃ members ∈ groups, ∃ a ∈ calls, ∃ r ∈ members, a.Meets r m := by
  unfold misfits
  simp only [List.mem_flatMap, List.mem_filterMap, AggregateCall.misfit?_eq_some_iff]

/-! ## Faults -/

section

variable {α : Type} {stage : String} {x : Except StageFault α} {ms : List Misfit}

/-- What fails with the first misfit fails with nothing else. -/
theorem FailsFirst.eq_error_iff (h : FailsFirst x (ms.map (Misfit.fault stage))) {e : StageFault} :
    x = .error e ↔ ∃ m, ms.head? = some m ∧ e = m.fault stage := by
  rw [h e, List.head?_map, Option.map_eq_some_iff]
  simp only [eq_comm]

/-- What fails with the first misfit fails if there is one. -/
theorem FailsFirst.exists_error_iff (h : FailsFirst x (ms.map (Misfit.fault stage))) :
    (∃ e, x = .error e) ↔ ∃ m, m ∈ ms := by
  constructor
  · rintro ⟨e, he⟩
    obtain ⟨m, hm, -⟩ := h.eq_error_iff.1 he
    exact ⟨m, List.mem_of_head? hm⟩
  · rintro ⟨m, hm⟩
    obtain ⟨first, hfirst⟩ := Option.isSome_iff_exists.1
      (List.isSome_head?.2 (List.ne_nil_of_mem hm))
    exact ⟨_, h.eq_error_iff.2 ⟨first, hfirst, rfl⟩⟩

/-- All faults are values that no number is made of. -/
theorem FailsFirst.exists_nonNumeric_iff (h : FailsFirst x (ms.map (Misfit.fault stage))) :
    (∃ column text, x = .error (.nonNumeric stage column text)) ↔ ∃ m, m ∈ ms := by
  rw [← h.exists_error_iff]
  constructor
  · rintro ⟨column, text, he⟩
    exact ⟨_, he⟩
  · rintro ⟨e, he⟩
    obtain ⟨m, -, rfl⟩ := h.eq_error_iff.1 he
    exact ⟨m.column, m.value.display, he⟩

end

/-- The numbers of a column can be read if there is no misfit in it. -/
theorem failsFirst_columnNumbers (stage column : String) (rows : List Record) :
    FailsFirst (columnNumbers stage column (presentValues column rows))
      ((rows.filterMap (misfitOf? column)).map (Misfit.fault stage)) := by
  have hvalues : (rows.filterMap (misfitOf? column)).map (Misfit.fault stage) =
      (presentValues column rows).filterMap fun f =>
        if f.asNumber?.isNone then some (Misfit.fault stage ⟨column, f⟩) else none := by
    unfold presentValues
    rw [List.map_filterMap, List.filterMap_filterMap]
    apply List.filterMap_congr
    intro r _
    unfold misfitOf?
    cases r.get? column with
    | none => rfl
    | some f =>
      cases hnull : f.isNull <;> cases hnumber : f.asNumber? <;>
        simp [Option.filter_some, hnull, hnumber]
  rw [hvalues, List.filterMap_eq_flatMap_toList]
  apply FailsFirst.mapM
  intro f _
  cases f.asNumber? with
  | none => exact .error _
  | some x => exact .ok x

section

variable {a : AggregateCall} {stage column : String} {rows : List Record}

/-- An aggregation that needs numbers computes with those of its column. -/
theorem compute_of_isNumeric [Machine] (h : a.function.isNumeric = true)
    (hcolumn : a.column = some column) :
    a.compute stage rows =
      columnNumbers stage column (presentValues column rows) >>= fun xs =>
        .ok (numericAggregate a.function xs) := by
  obtain ⟨function, read, newName⟩ := a
  obtain rfl : read = some column := hcolumn
  unfold AggregateCall.compute
  cases function with
  | first | last | count => cases h
  | sum | avg | min | max =>
    dsimp only
    cases columnNumbers stage column (presentValues column rows) <;> rfl

/-- An aggregation without numbers never fails. -/
theorem exists_compute [Machine] (h : a.function.isNumeric = false ∨ a.column = none)
    (stage : String) (rows : List Record) : ∃ f, a.compute stage rows = .ok f := by
  obtain ⟨function, read, newName⟩ := a
  unfold AggregateCall.compute
  cases read with
  | none => cases function <;> exact ⟨_, rfl⟩
  | some column =>
    have hfunction : function.isNumeric = false := by simpa using h
    cases function with
    | first | last | count => exact ⟨_, rfl⟩
    | sum | avg | min | max => cases hfunction

end

/-- An aggregation fails at the first misfit that it meets. -/
theorem failsFirst_compute [Machine] (a : AggregateCall) (stage : String) (rows : List Record) :
    FailsFirst (a.compute stage rows) ((rows.filterMap a.misfit?).map (Misfit.fault stage)) := by
  by_cases hfunction : a.function.isNumeric = true
  · cases hcolumn : a.column with
    | none =>
      have hnone : rows.filterMap a.misfit? = [] := by
        apply List.filterMap_eq_nil_iff.2
        intro r _
        rw [AggregateCall.misfit?, if_pos hfunction, hcolumn]
        rfl
      obtain ⟨f, hf⟩ := exists_compute (.inr hcolumn) stage rows
      rw [hnone, hf]
      exact .ok f
    | some column =>
      have hmisfit : a.misfit? = misfitOf? column := by
        funext r
        rw [AggregateCall.misfit?, if_pos hfunction, hcolumn]
        rfl
      rw [compute_of_isNumeric hfunction hcolumn, hmisfit]
      exact (failsFirst_columnNumbers stage column rows).map (numericAggregate a.function)
  · have hnone : rows.filterMap a.misfit? = [] := by
      apply List.filterMap_eq_nil_iff.2
      intro r _
      exact if_neg hfunction
    obtain ⟨f, hf⟩ := exists_compute (.inl (Bool.eq_false_iff.2 hfunction)) stage rows
    rw [hnone, hf]
    exact .ok f

/-- The row of a group cannot be made if an aggregation meets a misfit. -/
theorem failsFirst_groupRow [Machine] (stage : String) (calls : List AggregateCall)
    (columns : List String) (members : List Record) :
    FailsFirst (groupRow stage calls columns members)
      ((misfits calls [members]).map (Misfit.fault stage)) := by
  unfold groupRow misfits
  rw [List.flatMap_singleton, List.map_flatMap]
  apply FailsFirst.foldlM
  intro a _ r
  exact (failsFirst_compute a stage members).map fun f => r.set a.outputName f

end LogSearch
