import LogSearch.Pipeline.Run
import LogSearch.Proofs.Pipeline.ChartPlans
import LogSearch.Proofs.Pipeline.Drafts
import LogSearch.Regex.Program
import LogSearch.View.Export

/-!
# Tables show all that their rows hold

Each stage puts together rows and columns apart from each other. Yet no row of a table has a field
that is not among the columns, whatever the stages and their order.

* `Record.Within`, `Table.Covers`: rows with fields under the columns only.
* `Stage.apply_covered`: each stage keeps this; `runPipeline_covered`: so does a run.
* `table_shows_all_fields`: what that means for the columns and for both formats of export.
-/

namespace LogSearch

/-! ## Records within columns -/

/-- All fields of the record stand under one of the names. -/
def Record.Within (r : Record) (names : List String) : Prop :=
  ∀ name f, r.get? name = some f → name ∈ names

namespace Record

/-- A field that is set is seen under its name and nowhere else. -/
theorem get?_set (r : Record) (name : String) (f : Field) (other : String) :
    (r.set name f).get? other = if name = other then some f else r.get? other :=
  Dict.get?_insert name f r.fields other

namespace Within

variable {r : Record} {names : List String}

/-- A message alone has no fields. -/
theorem ofMessage (message : String) (names : List String) : (ofMessage message).Within names :=
  fun _ _ h => nomatch h

/-- A field under one of the names stays among them. -/
theorem set (h : r.Within names) {name : String} (hname : name ∈ names) (f : Field) :
    (r.set name f).Within names := by
  intro other g hg
  rw [get?_set] at hg
  split at hg
  · next heq => exact heq ▸ hname
  · exact h other g hg

/-- More names cover as much. -/
theorem mono (h : r.Within names) {more : List String} (hmore : names ⊆ more) : r.Within more :=
  fun name f hf => hmore (h name f hf)

/-- Fields under some of the names stay among them. -/
theorem setAll (h : r.Within names) {writes : List (String × Field)}
    (hwrites : ∀ w ∈ writes, w.1 ∈ names) : (r.setAll writes).Within names := by
  unfold Record.setAll
  exact List.foldlRecOn (motive := fun s => Within s names) writes _ h fun s hr w hw =>
    hr.set (hwrites w hw) w.2

end Within

end Record

/-- No row has a field that is not among the columns. -/
def Table.Covers (t : Table) : Prop := ∀ row ∈ t.rows, row.Within t.columns

/-- The table, if there is one, shows all fields of its rows. -/
def Results.Covered (r : Results) : Prop := ∀ t ∈ r.table, t.Covers

/-! ## Rows that stages make -/

/-- A row of a table with chosen columns has fields in these columns alone. -/
theorem within_projectRow (columns : List TableColumn) (r : Record) :
    (projectRow columns r).Within (columns.map TableColumn.outputName) := by
  unfold projectRow
  refine List.foldlRecOn
    (motive := fun out => Record.Within out (columns.map TableColumn.outputName)) columns _
    (Record.Within.ofMessage r.message _) fun out hout c hc => ?_
  cases r.get? c.column with
  | none => exact hout
  | some f => exact hout.set (List.mem_map_of_mem hc) f

/-- The row of a group has fields in the columns and under the names of the aggregations alone. -/
theorem within_groupRow [Machine] {stage : String} {calls : List AggregateCall}
    {columns : List String}
    {members : List Record} {row : Record} (h : groupRow stage calls columns members = .ok row) :
    row.Within (columns ++ calls.map AggregateCall.outputName) := by
  unfold groupRow at h
  dsimp only at h
  refine foldlM_invariant (P := fun r => r.Within (columns ++ calls.map AggregateCall.outputName))
    (fun a ha r s hr hs => ?_) ?_ h
  · obtain ⟨value, -, hs⟩ := bind_eq_ok.1 hs
    cases hs
    exact hr.set (List.mem_append_right _ (List.mem_map_of_mem ha)) value
  · cases members with
    | nil => exact .ofMessage "" _
    | cons first rest =>
      have hnames : columns ⊆ columns ++ calls.map AggregateCall.outputName :=
        List.subset_append_left _ _
      exact List.foldlRecOn (motive := fun r => Record.Within r _) columns _
        (Record.Within.ofMessage "" _) fun r hr c hc => hr.set (hnames hc) _

/-- A table of groups shows all fields of its rows. -/
theorem covers_aggregate [Machine] {stage : String} {calls : List AggregateCall}
    {columns : List String}
    {rows : List Record} {t : Table} (h : aggregate stage calls columns rows = .ok t) :
    t.Covers := by
  unfold aggregate at h
  obtain ⟨made, hmade, h⟩ := bind_eq_ok.1 h
  cases h
  intro row hrow
  obtain ⟨members, -, hmembers⟩ := exists_of_mapM hmade hrow
  exact within_groupRow hmembers

namespace TimeChart.Plan

/-- The values of a bucket stand under the names of the series. -/
theorem name_of_bucketValues [Machine] {series : List (String × AggregateCall × String)}
    {members : List Placed} {values : List (String × Field)}
    (h : bucketValues series members = .ok values) :
    ∀ v ∈ values, v.1 ∈ series.map fun s => s.2.2 := by
  intro v hv
  obtain ⟨s, hs, hv⟩ := exists_of_mapM h hv
  obtain ⟨f, -, hv⟩ := bind_eq_ok.1 hv
  cases hv
  exact List.mem_map_of_mem hs

/-- The row of a bucket has an instant and the values, and nothing else. -/
theorem within_bucketRow (start : Int) {values : List (String × Field)} {names : List String}
    (h : ∀ v ∈ values, v.1 ∈ names) : (bucketRow start values).Within (timeField :: names) := by
  have hstart : ((Record.ofMessage "").withTime start).Within (timeField :: names) :=
    (Record.Within.ofMessage "" _).set List.mem_cons_self _
  refine hstart.setAll fun v hv => ?_
  exact List.mem_cons_of_mem _ (h v (List.mem_filter.1 hv).1)

/-- The table of a chart shows all fields of its rows. -/
theorem covers_draw [Machine] {p : Plan} {rows : List Record} {t : Table} {c : Chart}
    (h : p.draw rows = .ok (t, c)) : t.Covers := by
  obtain ⟨count, -, h⟩ := bind_eq_ok.1 h
  obtain ⟨drawn, hdrawn, h⟩ := bind_eq_ok.1 h
  cases h
  intro row hrow
  obtain ⟨d, hd, rfl⟩ := List.mem_map.1 hrow
  obtain ⟨bucket, -, hbucket⟩ := exists_of_mapM hdrawn hd
  obtain ⟨values, hvalues, hbucket⟩ := bind_eq_ok.1 hbucket
  cases hbucket
  exact within_bucketRow _ (name_of_bucketValues hvalues)

end TimeChart.Plan

/-- Captured fields stand under the names of the groups. -/
theorem name_of_capturedFields {r : Regex} {text : String} :
    ∀ w ∈ capturedFields r text, w.1 ∈ r.names := by
  intro w hw
  obtain ⟨part, -, hw⟩ := List.mem_flatMap.1 hw
  obtain ⟨name, hname, hw⟩ := List.mem_filterMap.1 hw
  obtain ⟨s, -, rfl⟩ := Option.map_eq_some_iff.1 hw
  exact hname

/-! ## Editing and choosing rows -/

/-- Columns that are added come to those that are there. -/
theorem mem_addColumns {columns names : List String} {c : String} :
    c ∈ addColumns columns names ↔ c ∈ columns ∨ c ∈ names := by
  unfold addColumns
  induction names generalizing columns with
  | nil => simp
  | cons name names ih =>
    rw [List.foldl_cons, ih, List.mem_cons]
    split
    · next hmem =>
      constructor
      · exact Or.imp_right .inr
      · rintro (hc | rfl | hc)
        · exact .inl hc
        · exact .inl hmem
        · exact .inr hc
    · rw [List.mem_append, List.mem_singleton, or_assoc]

namespace Results

variable {r : Results}

/-- Results with a table that shows all fields of its rows are covered. -/
theorem covered_of_table {events : List Record} {t : Table} {chart : Option Chart} (h : t.Covers) :
    Covered ⟨events, some t, chart⟩ := fun _ ht => Option.some.inj ht ▸ h

/-- An edit adds columns for all that it writes. -/
theorem Covered.edit (h : r.Covered) {names : List String} {change : Record → List (String × Field)}
    (hchange : ∀ row, ∀ w ∈ change row, w.1 ∈ names) : (r.edit names change).Covered := by
  obtain ⟨events, table, chart⟩ := r
  cases table with
  | none => exact fun _ ht => nomatch ht
  | some t =>
    refine covered_of_table fun row hrow => ?_
    rw [editRows_eq_map] at hrow
    obtain ⟨before, hbefore, rfl⟩ := List.mem_map.1 hrow
    refine Record.Within.setAll ?_ fun w hw => mem_addColumns.2 (.inr (hchange before w hw))
    exact (h t rfl before hbefore).mono fun c hc => mem_addColumns.2 (.inl hc)

/-- Rows may be left out. -/
theorem Covered.keep (h : r.Covered) (test : Record → Bool) : (r.keep test).Covered := by
  intro t ht
  obtain ⟨before, hbefore, rfl⟩ := Option.map_eq_some_iff.1 ht
  exact fun row hrow => h before hbefore row (List.mem_filter.1 hrow).1

/-- Rows may be put in another order. -/
theorem Covered.withRows (h : r.Covered) {rows : List Record} (hrows : ∀ row ∈ rows, row ∈ r.rows)
    (chart : Option Chart) : Covered { r.withRows rows with chart } := by
  obtain ⟨events, table, before⟩ := r
  cases table with
  | none => exact fun _ ht => nomatch ht
  | some t => exact covered_of_table fun row hrow => h t rfl row (hrows row hrow)

end Results

/-! ## Stages -/

/-- Each stage keeps all fields of the table among its columns. -/
theorem Stage.apply_covered [Regex.Library] [Machine] {range : TimeRange} {stage : Stage}
    {r s : Results} (h : r.Covered) (hs : stage.apply range r = .ok s) : s.Covered := by
  cases stage with
  | table columns =>
    cases hs
    refine Results.covered_of_table fun row hrow => ?_
    obtain ⟨before, -, rfl⟩ := List.mem_map.1 hrow
    exact within_projectRow columns before
  | stats calls groupBy =>
    simp only [apply] at hs
    obtain ⟨t, ht, hs⟩ := bind_eq_ok.1 hs
    cases hs
    exact Results.covered_of_table (covers_aggregate ht)
  | regex field pattern =>
    simp only [apply] at hs
    cases hc : Regex.compile pattern with
    | error e =>
      rw [hc] at hs
      cases hs
    | ok compiled =>
      rw [hc] at hs
      cases hs
      exact h.edit fun row => name_of_capturedFields
  | sort keys =>
    cases hs
    exact h.withRows (fun row hrow => List.mem_mergeSort.1 hrow) none
  | filter condition =>
    cases hs
    exact h.keep condition.holds
  | timeChart span timeColumn maxGroups calls groupBy =>
    obtain ⟨width, -, t, c, hdraw, rfl⟩ := apply_timeChart_eq_ok_iff.1 hs
    exact Results.covered_of_table (TimeChart.Plan.covers_draw hdraw)
  | eval target value =>
    cases hs
    exact h.edit fun row w hw => by rw [List.mem_singleton.1 hw]; exact List.mem_singleton.2 rfl

/-- Whatever stages are run, the table shows all fields of its rows. -/
theorem runPipeline_covered [Regex.Library] [Machine] {range : TimeRange} {stages : List Stage}
    {events : List Record}
    {r : Results} (h : runPipeline range stages events = .ok r) : r.Covered :=
  foldlM_invariant (P := Results.Covered) (fun _ _ _ _ hr hs => Stage.apply_covered hr hs)
    (fun _ ht => absurd ht (Option.not_mem_none _)) h

/-! ## What is shown of a table -/

/-- A map of values computed from their names holds each of them. -/
theorem Dict.get?_ofList_map {α : Type} (f : String → α) {names : List String} {name : String}
    (h : name ∈ names) : get? name (ofList (names.map fun n => (n, f n))) = some (f name) := by
  have hfold : ∀ (d : Dict α), (name ∈ names ∨ get? name d = some (f name)) →
      get? name ((names.map fun n => (n, f n)).foldl (fun d p => insert p.1 p.2 d) d) =
        some (f name) := by
    clear h
    induction names with
    | nil =>
      rintro d (h | h)
      · exact absurd h List.not_mem_nil
      · exact h
    | cons n names ih =>
      intro d h
      refine ih _ ?_
      by_cases hn : n = name
      · exact .inr (by rw [get?_insert, if_pos hn, hn])
      · refine h.imp (fun hmem => ?_) fun hd => by rw [get?_insert, if_neg hn, hd]
        exact (List.mem_cons.1 hmem).resolve_left fun heq => hn heq.symm
  exact hfold [] (.inl h)

/-- Every field of every row of a table that a run gives stands under a column. So its text is in
the row's line of comma-separated values at the place of that column, and its value is in the row's
object under its name. -/
theorem table_shows_all_fields [Regex.Library] [Machine] {range : TimeRange} {stages : List Stage}
    {events : List Record}
    {r : Results} {t : Table} (hrun : runPipeline range stages events = .ok r)
    (htable : r.table = some t) :
    ∀ row ∈ t.rows, ∀ name f, row.get? name = some f →
      name ∈ t.columns ∧ (name, f.display) ∈ t.columns.zip (t.cells row) ∧
        ∃ members, t.rowJson row = .object members ∧
          Dict.get? name members = some f.toPlainJson := by
  intro row hrow name f hf
  have hname : name ∈ t.columns := runPipeline_covered hrun t htable row hrow name f hf
  have hdisplay : row.display name = f.display := by rw [Record.display, hf]; rfl
  have hvalue : row.getD name = f := by rw [Record.getD, hf]; rfl
  refine ⟨hname, ?_, _, rfl, ?_⟩
  · have hzip : t.columns.zip (t.cells row) = t.columns.map fun c => (c, row.display c) := by
      rw [Table.cells, List.zip_map_right, List.zip, List.zipWith_self, List.map_map]
      rfl
    rw [hzip, ← hdisplay]
    exact List.mem_map_of_mem hname
  · rw [Dict.get?_ofList_map (fun c => (row.getD c).toPlainJson) hname, hvalue]

attribute [local instance] Regex.standard Machine.stopping

/-- An event of one field, under a new name in a table and then copied. -/
theorem table_shows_copied_field :
    let event : Record := ⟨[("host", .string "a")], "started"⟩
    let stages : List Stage := [.table [⟨"host", some "node"⟩], .eval "copy" (.column "node")]
    let row : Record := ⟨[("copy", .string "a"), ("node", .string "a")], "started"⟩
    let t : Table := ⟨["node", "copy"], [row]⟩
    runPipeline ⟨0, 1000⟩ stages [event] = .ok ⟨[event], some t, none⟩ ∧
      "copy" ∈ t.columns ∧ ("copy", "a") ∈ t.columns.zip (t.cells row) := by
  intro event stages row t
  have hrun : runPipeline ⟨0, 1000⟩ stages [event] = .ok ⟨[event], some t, none⟩ := by
    simp only [runPipeline, stages, List.foldlM_cons, Stage.apply, Results.edit, editRows_eq_map]
    rfl
  have hshown := table_shows_all_fields hrun rfl row List.mem_cons_self "copy" (.string "a") rfl
  exact ⟨hrun, hshown.1, hshown.2.1⟩

end LogSearch
