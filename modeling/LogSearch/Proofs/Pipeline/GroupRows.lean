import LogSearch.Pipeline.Run
import LogSearch.Proofs.Number.Double
import LogSearch.Proofs.Pipeline.Groups
import LogSearch.Regex.Program

/-!
# What the row of a group shows

The row of a group gets the columns that the rows are grouped by from the first member, and then the
aggregations over all members, all into one map of names. An aggregation with the name of a column
takes the place of that column's value.

* `groupsOf`, `aggregate_eq_ok_iff`: a row for each group.
* `HoldsValues`, `holdsValues_of_groupRow`: what the row of a group has under which name.
* `ShowsGroup`: what one would read from it: the texts of the columns and the aggregations.
* `AggregateCall.Picks`: the aggregations that may have the name of a column.
* `rows_show_groups_iff`: the stages whose rows show their groups wherever keys tell texts.
-/

namespace LogSearch

/-! ## Groups -/

/-- The groups that rows are made for; without columns to group by, all rows are one group. -/
def groupsOf (columns : List String) (rows : List Record) : List (List Record) :=
  if columns.isEmpty then [rows] else (groupRows columns rows).map Prod.snd

/-- A table of groups has a row for each group, and the columns before the names of the
aggregations. -/
theorem aggregate_eq_ok_iff [Machine] {stage : String} {calls : List AggregateCall}
    {columns : List String} {rows : List Record} {t : Table} :
    aggregate stage calls columns rows = .ok t ↔ ∃ made,
      (groupsOf columns rows).mapM (groupRow stage calls columns) = .ok made ∧
      t = ⟨columns ++ calls.map AggregateCall.outputName, made⟩ := by
  have hbind : aggregate stage calls columns rows =
      (groupsOf columns rows).mapM (groupRow stage calls columns) >>= fun made =>
        .ok ⟨columns ++ calls.map AggregateCall.outputName, made⟩ := rfl
  rw [hbind, bind_eq_ok]
  simp only [Except.ok.injEq, eq_comm]

/-- Rows that share a key have the same texts. -/
def KeysTell (columns : List String) (rows : List Record) : Prop :=
  ∀ r ∈ rows, ∀ s ∈ rows, groupKey columns r = groupKey columns s → r.SameTexts columns s

section

variable {columns : List String} {rows : List Record}

/-- Where there are columns to group by, the groups are those of the rows. -/
theorem groupsOf_of_ne_nil (h : columns ≠ []) :
    groupsOf columns rows = (groupRows columns rows).map Prod.snd := by
  unfold groupsOf
  rw [if_neg fun hempty => h (List.isEmpty_iff.1 hempty)]

/-- A group by columns has members. -/
theorem ne_nil_of_mem_groupsOf (hcolumns : columns ≠ []) {members : List Record}
    (h : members ∈ groupsOf columns rows) : members ≠ [] := by
  rw [groupsOf_of_ne_nil hcolumns] at h
  obtain ⟨g, hg, rfl⟩ := List.mem_map.1 h
  exact ((rowsParted_groupRows columns rows).members g hg).1

/-- Keys tell texts if the members of each group have the same ones. -/
theorem keysTell_iff : KeysTell columns rows ↔
    ∀ members ∈ groupsOf columns rows, ∀ r ∈ members, ∀ s ∈ members, r.SameTexts columns s := by
  by_cases hcolumns : columns = []
  · subst hcolumns
    exact iff_of_true (fun _ _ _ _ _ _ hc => absurd hc List.not_mem_nil)
      (fun _ _ _ _ _ _ _ hc => absurd hc List.not_mem_nil)
  rw [groupsOf_of_ne_nil hcolumns]
  constructor
  · intro h members hmembers r hr s hs
    obtain ⟨g, hg, rfl⟩ := List.mem_map.1 hmembers
    obtain ⟨hrow, hkey⟩ := (mem_members_iff hg).1 hr
    obtain ⟨hrow', hkey'⟩ := (mem_members_iff hg).1 hs
    exact h r hrow s hrow' (hkey.trans hkey'.symm)
  · intro h r hr s hs hkey
    obtain ⟨g, hg, hrg, hsg⟩ := (together_iff hr hs).2 hkey
    exact h g.2 (List.mem_map_of_mem hg) r hrg s hsg

end

/-! ## Writing the row of a group -/

/-- The row of a group has the aggregations over its members, and for columns with another name the
values of the first member. -/
structure HoldsValues [Machine] (calls : List AggregateCall) (columns : List String)
    (members : List Record) (row : Record) : Prop where
  aggregated : ∀ a ∈ calls, ∃ f, a.compute "stats" members = .ok f ∧ row.get? a.outputName = some f
  grouped : ∀ c ∈ columns, c ∉ calls.map AggregateCall.outputName →
    ∃ first ∈ members.head?, row.get? c = some (first.getD c)

/-- Columns that are written are seen under their names, and nothing else changes. -/
theorem get?_writeColumns (value : String → Field) (columns : List String) (r : Record)
    (name : String) :
    (columns.foldl (fun r c => r.set c (value c)) r).get? name =
      if name ∈ columns then some (value name) else r.get? name := by
  induction columns generalizing r with
  | nil => rfl
  | cons c columns ih =>
    rw [List.foldl_cons, ih, Record.get?_set]
    by_cases hname : name ∈ columns
    · rw [if_pos hname, if_pos (List.mem_cons_of_mem _ hname)]
    · rw [if_neg hname]
      by_cases heq : c = name
      · rw [if_pos heq, heq, if_pos List.mem_cons_self]
      · rw [if_neg heq, if_neg fun hmem => hname (List.mem_of_ne_of_mem (Ne.symm heq) hmem)]

section

variable {stage : String} {calls : List AggregateCall} {members : List Record}

/-- Aggregations with different names are all there in the end, and nothing else is touched. -/
theorem get?_writeCalls [Machine] (hnames : (calls.map AggregateCall.outputName).Nodup)
    {start row : Record}
    (h : calls.foldlM (fun r a => do return r.set a.outputName (← a.compute stage members)) start =
      .ok row) :
    (∀ a ∈ calls, ∃ f, a.compute stage members = .ok f ∧ row.get? a.outputName = some f) ∧
    ∀ name, name ∉ calls.map AggregateCall.outputName → row.get? name = start.get? name := by
  induction calls generalizing start with
  | nil =>
    cases h
    exact ⟨fun _ ha => absurd ha List.not_mem_nil, fun _ _ => rfl⟩
  | cons a calls ih =>
    obtain ⟨hnew, hrest⟩ := List.nodup_cons.1 hnames
    rw [List.foldlM_cons] at h
    obtain ⟨next, hnext, h⟩ := bind_eq_ok.1 h
    obtain ⟨f, hf, hnext⟩ := bind_eq_ok.1 hnext
    cases hnext
    obtain ⟨hcalls, hothers⟩ := ih hrest h
    constructor
    · intro b hb
      rcases List.mem_cons.1 hb with rfl | hb
      · refine ⟨f, hf, ?_⟩
        rw [hothers _ hnew, Record.get?_set, if_pos rfl]
      · exact hcalls b hb
    · intro name hname
      rw [List.map_cons, List.mem_cons, not_or] at hname
      rw [hothers name hname.2, Record.get?_set, if_neg (Ne.symm hname.1)]

/-- The row of a group holds the values of its first member and the aggregations over all. -/
theorem holdsValues_of_groupRow [Machine] (hnames : (calls.map AggregateCall.outputName).Nodup)
    {columns : List String} (hmembers : columns ≠ [] → members ≠ []) {row : Record}
    (h : groupRow "stats" calls columns members = .ok row) :
    HoldsValues calls columns members row := by
  unfold groupRow at h
  obtain ⟨hcalls, hothers⟩ := get?_writeCalls hnames h
  refine ⟨hcalls, fun c hc hname => ?_⟩
  rw [hothers c hname]
  match members, hmembers (List.ne_nil_of_mem hc) with
  | first :: rest, _ =>
    exact ⟨first, rfl, (get?_writeColumns first.getD columns _ c).trans (if_pos hc)⟩

/-- A row can be made of members over which all aggregations have values. -/
theorem exists_groupRow [Machine] (h : ∀ a ∈ calls, ∃ f, a.compute stage members = .ok f)
    (columns : List String) : ∃ row, groupRow stage calls columns members = .ok row := by
  unfold groupRow
  apply exists_foldlM
  intro a ha r
  obtain ⟨f, hf⟩ := h a ha
  rw [hf]
  exact ⟨_, rfl⟩

end

/-! ## Reading the row of a group -/

/-- The row of a group has the aggregations over its members, and in the columns the texts that all
members have there. -/
structure ShowsGroup [Machine] (calls : List AggregateCall) (columns : List String)
    (members : List Record) (row : Record) : Prop where
  aggregated : ∀ a ∈ calls, ∃ f, a.compute "stats" members = .ok f ∧ row.get? a.outputName = some f
  grouped : ∀ c ∈ columns, ∃ f, row.get? c = some f ∧ ∀ r ∈ members, f.display = r.display c

/-- The aggregation is one of the values of the column. -/
def AggregateCall.Picks (a : AggregateCall) (column : String) : Prop :=
  a.column = some column ∧ (a.function = .first ∨ a.function = .last)

/-- A field that is not there is displayed like an empty one. -/
theorem display_getD (r : Record) (column : String) : (r.getD column).display = r.display column := by
  unfold Record.getD Record.display
  cases r.get? column <;> rfl

/-- What is null is displayed as nothing. -/
theorem display_of_isNull {f : Field} (h : f.isNull = true) : f.display = "" := by
  obtain ⟨value, errors⟩ := f
  cases value with
  | null => rfl
  | _ => cases h

/-- A column without values is displayed as nothing in every row. -/
theorem display_eq_empty_of_presentValues_eq_nil {column : String} {members : List Record}
    (h : presentValues column members = []) {r : Record} (hr : r ∈ members) :
    r.display column = "" := by
  have hnone := List.filterMap_eq_nil_iff.1 h r hr
  unfold Record.display
  cases hf : r.get? column with
  | none => rfl
  | some f =>
    rw [hf, Option.filter_some] at hnone
    have hnull : f.isNull = true := by
      by_contra hpresent
      rw [Bool.not_eq_true] at hpresent
      rw [hpresent] at hnone
      exact nomatch hnone
    exact display_of_isNull hnull

/-- What is picked is there, unless nothing is. -/
theorem mem_presentValues_of_picks [Machine] {a : AggregateCall} {column : String}
    (ha : a.Picks column)
    {stage : String} {members : List Record} {f : Field} (h : a.compute stage members = .ok f) :
    f ∈ presentValues column members ∨ presentValues column members = [] ∧ f = .null := by
  obtain ⟨hcolumn, hfunction⟩ := ha
  unfold AggregateCall.compute at h
  simp only [hcolumn] at h
  cases hpresent : presentValues column members with
  | nil =>
    right
    rw [hpresent] at h
    rcases hfunction with hfirst | hlast
    · rw [hfirst] at h
      exact ⟨rfl, (Except.ok.inj h).symm⟩
    · rw [hlast] at h
      exact ⟨rfl, (Except.ok.inj h).symm⟩
  | cons g rest =>
    left
    rw [hpresent] at h
    rcases hfunction with hfirst | hlast
    · rw [hfirst] at h
      rw [← Except.ok.inj h]
      exact List.mem_cons_self
    · rw [hlast] at h
      rw [← Except.ok.inj h]
      rw [List.getLastD_cons]
      exact List.getLastD_mem_cons

/-- Where all members have one text in a column, a value that is picked has it too. -/
theorem display_of_picks [Machine] {a : AggregateCall} {column : String} (ha : a.Picks column)
    {stage : String}
    {members : List Record} {text : String} (htext : ∀ r ∈ members, r.display column = text)
    {f : Field} (h : a.compute stage members = .ok f) : ∀ r ∈ members, f.display = r.display column := by
  intro r hr
  rcases mem_presentValues_of_picks ha h with hmem | ⟨hempty, rfl⟩
  · obtain ⟨s, hs, hf⟩ := List.mem_filterMap.1 hmem
    have hget := Option.eq_some_of_filter_eq_some hf
    have hdisplay : s.display column = f.display := by rw [Record.display, hget]; rfl
    rw [← hdisplay, htext s hs, htext r hr]
  · exact (display_eq_empty_of_presentValues_eq_nil hempty hr).symm

/-- The row of members with the same texts shows them if aggregations with names of columns pick. -/
theorem HoldsValues.showsGroup [Machine] {calls : List AggregateCall} {columns : List String}
    {members : List Record} {row : Record} (h : HoldsValues calls columns members row)
    (hsame : ∀ r ∈ members, ∀ s ∈ members, r.SameTexts columns s)
    (hpicks : ∀ c ∈ columns, ∀ a ∈ calls, a.outputName = c → a.Picks c) :
    ShowsGroup calls columns members row := by
  refine ⟨h.aggregated, fun c hc => ?_⟩
  by_cases hname : c ∈ calls.map AggregateCall.outputName
  · obtain ⟨a, ha, rfl⟩ := List.mem_map.1 hname
    obtain ⟨f, hf, hget⟩ := h.aggregated a ha
    refine ⟨f, hget, fun r hr => ?_⟩
    exact display_of_picks (hpicks _ hc a ha rfl) (fun s hs => hsame s hs r hr _ hc) hf r hr
  · obtain ⟨first, hfirst, hget⟩ := h.grouped c hc hname
    refine ⟨_, hget, fun r hr => ?_⟩
    rw [display_getD]
    exact hsame first (List.mem_of_mem_head? hfirst) r hr c hc

/-- All members of a group that is shown have the same texts. -/
theorem ShowsGroup.sameTexts [Machine] {calls : List AggregateCall} {columns : List String}
    {members : List Record} {row : Record} (h : ShowsGroup calls columns members row) {r s : Record}
    (hr : r ∈ members) (hs : s ∈ members) : r.SameTexts columns s := by
  intro c hc
  obtain ⟨f, -, htexts⟩ := h.grouped c hc
  rw [← htexts r hr, ← htexts s hs]

/-! ## One row with a truth value -/

/-- A row that is true in one column and has nothing else. -/
def flagRow (column : String) : Record := (Record.ofMessage "").set column (.boolean true)

/-- A row with one true column has a value there and nowhere else. -/
theorem presentValues_flagRow (column other : String) :
    presentValues other [flagRow column] = if column = other then [.boolean true] else [] := by
  unfold presentValues
  rw [List.filterMap_cons, List.filterMap_nil, flagRow, Record.get?_set]
  by_cases h : column = other
  · rw [if_pos h, if_pos h]
    rfl
  · rw [if_neg h, if_neg h]
    rfl

/-- The sum of one alone. -/
theorem sumOf_one [Machine] : sumOf [.ofFloat 1.0] = .ofFloat 1.0 := by
  show Double.add (.ofFloat (-0.0)) (.ofFloat 1.0) = _
  rw [Double.add, Double.result_of_number (by decide +kernel)]
  decide +kernel

/-- Over this row each aggregation has a value, and only what is picked reads as the truth value. -/
theorem compute_flagRow [Machine] (a : AggregateCall) (column : String) :
    ∃ f, a.compute "stats" [flagRow column] = .ok f ∧ (f.display = "true" → a.Picks column) := by
  obtain ⟨function, read, newName⟩ := a
  unfold AggregateCall.compute
  cases read with
  | none =>
    simp only [List.length_singleton]
    cases function <;> exact ⟨_, rfl, fun h => absurd h (by decide)⟩
  | some other =>
    simp only [presentValues_flagRow]
    by_cases heq : column = other
    · rw [if_pos heq, ← heq]
      cases function with
      | first => exact ⟨_, rfl, fun _ => ⟨rfl, .inl rfl⟩⟩
      | last => exact ⟨_, rfl, fun _ => ⟨rfl, .inr rfl⟩⟩
      | count => exact ⟨.number (.ofInt 1), rfl, fun h => absurd h (by decide +kernel)⟩
      | sum =>
        refine ⟨.number (sumOf [.ofFloat 1.0]), rfl, fun h => ?_⟩
        rw [sumOf_one] at h
        exact absurd h (by decide +kernel)
      | avg =>
        refine ⟨.number ((sumOf [.ofFloat 1.0]).div (.ofInt 1)), rfl, fun h => ?_⟩
        rw [sumOf_one, Double.div, Double.result_of_number (by decide +kernel)] at h
        exact absurd h (by decide +kernel)
      | min =>
        exact ⟨.number ([Double.ofFloat 1.0].foldl lesser (.ofFloat infinity)), rfl,
          fun h => absurd h (by decide +kernel)⟩
      | max =>
        exact ⟨.number ([Double.ofFloat 1.0].foldl greater (.ofFloat (-infinity))), rfl,
          fun h => absurd h (by decide +kernel)⟩
    · rw [if_neg heq]
      cases function with
      | count => exact ⟨.number (.ofInt 0), rfl, fun h => absurd h (by decide +kernel)⟩
      | sum => exact ⟨.number (.ofFloat 0.0), rfl, fun h => absurd h (by decide +kernel)⟩
      | first | last | avg | min | max => exact ⟨.null, rfl, fun h => absurd h (by decide)⟩

/-- A row with one true column is a group of its own. -/
theorem groupsOf_flagRow {columns : List String} {column : String} (h : column ∈ columns) :
    groupsOf columns [flagRow column] = [[flagRow column]] := by
  rw [groupsOf_of_ne_nil (List.ne_nil_of_mem h), groupRows_eq]
  simp [List.eraseDups_cons]

/-! ## The rows of a stage -/

section

variable {calls : List AggregateCall} {columns : List String} {range : TimeRange}

/-- A stage gives a table if it can make a row of each group. -/
theorem apply_stats_eq_ok_iff [Regex.Library] [Machine] {before after : Results} :
    (Stage.stats calls columns).apply range before = .ok after ↔ ∃ made,
      (groupsOf columns before.rows).mapM (groupRow "stats" calls columns) = .ok made ∧
      after = ⟨before.events, some ⟨columns ++ calls.map AggregateCall.outputName, made⟩, none⟩ := by
  have hbind : (Stage.stats calls columns).apply range before =
      aggregate "stats" calls columns before.rows >>= fun t =>
        .ok ⟨before.events, some t, none⟩ := rfl
  rw [hbind, bind_eq_ok]
  constructor
  · rintro ⟨t, ht, h⟩
    obtain ⟨made, hmade, rfl⟩ := aggregate_eq_ok_iff.1 ht
    exact ⟨made, hmade, (Except.ok.inj h).symm⟩
  · rintro ⟨made, hmade, rfl⟩
    exact ⟨_, aggregate_eq_ok_iff.2 ⟨made, hmade, rfl⟩, rfl⟩

/-- Each row that is made holds the values of its group. -/
theorem holdsValues_of_mapM [Machine] (hnames : (calls.map AggregateCall.outputName).Nodup)
    {rows made : List Record}
    (h : (groupsOf columns rows).mapM (groupRow "stats" calls columns) = .ok made) :
    List.Forall₂ (HoldsValues calls columns) (groupsOf columns rows) made := by
  have hrows := (List.forall₂_and_left _ _).2
    ⟨fun members hmembers (hcolumns : columns ≠ []) => ne_nil_of_mem_groupsOf hcolumns hmembers,
      forall₂_of_mapM h⟩
  exact hrows.imp fun members row hrow => holdsValues_of_groupRow hnames hrow.1 hrow.2

/-- If no value of a column is replaced by another one, rows show their groups where keys tell texts. -/
theorem showsGroups_iff_keysTell [Machine] {rows made : List Record}
    (hpicks : ∀ c ∈ columns, ∀ a ∈ calls, a.outputName = c → a.Picks c)
    (h : List.Forall₂ (HoldsValues calls columns) (groupsOf columns rows) made) :
    List.Forall₂ (ShowsGroup calls columns) (groupsOf columns rows) made ↔ KeysTell columns rows := by
  rw [keysTell_iff]
  constructor
  · intro hshow members hmembers r hr s hs
    obtain ⟨row, -, hrow⟩ := exists_of_forall₂ hshow hmembers
    exact hrow.sameTexts hr hs
  · intro hsame
    exact ((List.forall₂_and_left _ _).2 ⟨hsame, h⟩).imp fun members row hrow =>
      hrow.2.showsGroup hrow.1 hpicks

/-- What replaces a truth value without being picked reads otherwise. -/
theorem picks_of_showsGroup [Machine] {a : AggregateCall} (ha : a ∈ calls)
    (hname : a.outputName ∈ columns)
    {row : Record} (h : ShowsGroup calls columns [flagRow a.outputName] row) : a.Picks a.outputName := by
  obtain ⟨f, hf, hget⟩ := h.aggregated a ha
  obtain ⟨g, hg, hpicks⟩ := compute_flagRow a a.outputName
  obtain ⟨shown, hshown, htext⟩ := h.grouped _ hname
  apply hpicks
  rw [hget] at hshown
  rw [hf] at hg
  rw [← Except.ok.inj hg, Option.some.inj hshown, htext _ List.mem_cons_self]
  unfold Record.display flagRow
  rw [Record.get?_set, if_pos rfl]
  rfl

end

/-- Each row has the values that it is given. Rows show their groups, wherever keys tell texts and only
there, for the stages whose aggregations have no names of columns unless they pick from these. -/
theorem rows_show_groups_iff [Regex.Library] [Machine] {calls : List AggregateCall}
    (hnames : (calls.map AggregateCall.outputName).Nodup) (columns : List String) (range : TimeRange) :
    (∀ before after, (Stage.stats calls columns).apply range before = .ok after →
      ∃ t, after.table = some t ∧
        List.Forall₂ (HoldsValues calls columns) (groupsOf columns before.rows) t.rows) ∧
    ((∀ before after t, (Stage.stats calls columns).apply range before = .ok after →
        after.table = some t →
        (List.Forall₂ (ShowsGroup calls columns) (groupsOf columns before.rows) t.rows ↔
          KeysTell columns before.rows)) ↔
      ∀ c ∈ columns, ∀ a ∈ calls, a.outputName = c → a.Picks c) := by
  refine ⟨fun before after h => ?_, fun h c hc a ha hname => ?_, fun hpicks before after t h ht => ?_⟩
  · obtain ⟨made, hmade, rfl⟩ := apply_stats_eq_ok_iff.1 h
    exact ⟨_, rfl, holdsValues_of_mapM hnames hmade⟩
  · -- One row is a group whose key tells its texts, and only what is picked reads as they do.
    subst hname
    let before := Results.ofEvents [flagRow a.outputName]
    have hgroups : groupsOf columns before.rows = [[flagRow a.outputName]] := groupsOf_flagRow hc
    have hvalues : ∀ b ∈ calls, ∃ f, b.compute "stats" [flagRow a.outputName] = .ok f :=
      fun b _ => (compute_flagRow b a.outputName).imp fun _ hf => hf.1
    obtain ⟨row, hrow⟩ := exists_groupRow hvalues columns
    have hmade : (groupsOf columns before.rows).mapM (groupRow "stats" calls columns) = .ok [row] := by
      rw [hgroups, List.mapM_cons, hrow]
      rfl
    have hkeys : KeysTell columns before.rows := by
      intro r hr s hs _
      rw [List.mem_singleton.1 hr, List.mem_singleton.1 hs]
      exact fun _ _ => rfl
    have hshow := (h before _ _ (apply_stats_eq_ok_iff.2 ⟨_, hmade, rfl⟩) rfl).2 hkeys
    rw [hgroups] at hshow
    exact picks_of_showsGroup ha hc (List.forall₂_cons.1 hshow).1
  · obtain ⟨made, hmade, rfl⟩ := apply_stats_eq_ok_iff.1 h
    cases ht
    exact showsGroups_iff_keysTell hpicks (holdsValues_of_mapM hnames hmade)

attribute [local instance] Regex.standard Machine.stopping

/-- The number of rows of each host is shown beside the host. -/
theorem count_by_host_shows_hosts :
    let calls : List AggregateCall := [⟨.count, none, none⟩]
    let host (name : String) : Record := (Record.ofMessage "").set "host" (.string name)
    let before := Results.ofEvents [host "a", host "b", host "a"]
    (calls.map AggregateCall.outputName).Nodup ∧
    ∃ after t, (Stage.stats calls ["host"]).apply ⟨0, 1000⟩ before = .ok after ∧ after.table = some t ∧
      List.Forall₂ (ShowsGroup calls ["host"]) [[host "a", host "a"], [host "b"]] t.rows := by
  intro calls host before
  have hnames : (calls.map AggregateCall.outputName).Nodup := by decide
  refine ⟨hnames, _, _, rfl, rfl, ?_⟩
  have hpicks : ∀ c ∈ ["host"], ∀ a ∈ calls, a.outputName = c → a.Picks c := by
    intro c hc a ha hname
    rw [List.mem_singleton.1 hc, List.mem_singleton.1 ha] at hname
    exact absurd hname (by decide)
  have hkeys : KeysTell ["host"] before.rows := by
    intro r _ s _ hkey c hc
    rw [List.mem_singleton.1 hc]
    exact hkey
  exact ((rows_show_groups_iff hnames ["host"] ⟨0, 1000⟩).2.2 hpicks before _ _ rfl rfl).2 hkeys

/-- The number of rows for each value of a column that is itself named `count` hides that value. -/
theorem count_by_count_hides_value :
    let calls : List AggregateCall := [⟨.count, none, none⟩]
    let r : Record := (Record.ofMessage "").set "count" (.string "2")
    let row : Record := (Record.ofMessage "").set "count" (.number (.ofInt 1))
    (calls.map AggregateCall.outputName).Nodup ∧
    (Stage.stats calls ["count"]).apply ⟨0, 1000⟩ (Results.ofEvents [r]) =
      .ok ⟨[r], some ⟨["count", "count"], [row]⟩, none⟩ ∧
    r.display "count" = "2" ∧ row.display "count" = "1" ∧ ¬ ShowsGroup calls ["count"] [r] row := by
  intro calls r row
  refine ⟨by decide, rfl, rfl, by decide, fun h => ?_⟩
  obtain ⟨f, hf, htext⟩ := h.grouped "count" List.mem_cons_self
  cases hf
  exact absurd (htext r List.mem_cons_self) (by decide)

end LogSearch
