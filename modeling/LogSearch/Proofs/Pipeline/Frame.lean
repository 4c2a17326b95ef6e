import LogSearch.Proofs.Pipeline.Columns
import LogSearch.Regex.Program

/-!
# What a pipeline may touch

Each stage decides on its own between the events and the table. Once there is a table, the events
only serve to be counted and paged through, and no stage may write to them.

* `Stage.isTabular`, `Stage.filtered`, `Stage.written?`: what a stage may touch.
* `Record.AgreesOff`: records with the same message, and the same fields but for some names.
* `Stage.Frame`: what results have to do with those before a stage; `Stage.frame_of_apply`.
* `runPipeline_frame`: what holds of a run of any stages, and of each stage in it.
-/

namespace LogSearch

/-! ## What a stage may touch -/

namespace Stage

/-- Whether the stage makes a table, in the place of the rows that it reads. -/
def isTabular : Stage → Bool
  | table .. | stats .. | timeChart .. => true
  | regex .. | sort .. | filter .. | eval .. => false

/-- Whether the stage draws a chart. -/
def isChart : Stage → Bool
  | timeChart .. => true
  | table .. | stats .. | regex .. | sort .. | filter .. | eval .. => false

/-- The events that are left where the stage reads a table: only a condition takes some out. -/
def filtered [Regex.Library] [Machine] (events : List Record) : Stage → List Record
  | filter condition => events.filter condition.holds
  | table .. | stats .. | regex .. | sort .. | timeChart .. | eval .. => events

/-- The names under which a stage writes to the rows that it edits: its target, or the named groups
of its pattern. Other stages edit no rows. -/
def written? [Regex.Library] : Stage → Option (List String)
  | eval target _ => some [target]
  | regex _ pattern => (Regex.compile pattern).toOption.map Regex.names
  | table .. | stats .. | sort .. | filter .. | timeChart .. => none

/-- The events that a stage leaves stand in the order they had. -/
theorem filtered_sublist [Regex.Library] [Machine] (stage : Stage) (events : List Record) :
    (stage.filtered events).Sublist events := by
  cases stage with
  | filter condition => exact List.filter_sublist
  | table | stats | regex | sort | timeChart | eval => exact List.Sublist.refl events

end Stage

/-- The records have the same message, and the same fields under all names but the given ones. -/
structure Record.AgreesOff (names : List String) (r s : Record) : Prop where
  message : s.message = r.message
  get? : ∀ name, name ∉ names → s.get? name = r.get? name

namespace Record.AgreesOff

variable {names : List String}

/-- A field under one of the names changes nothing else. -/
theorem set {r s : Record} (h : AgreesOff names r s) {name : String} (hname : name ∈ names)
    (f : Field) : AgreesOff names r (s.set name f) := by
  constructor
  · exact h.message
  · intro other hother
    have hne : name ≠ other := fun heq => hother (heq ▸ hname)
    rw [get?_set, if_neg hne]
    exact h.get? other hother

/-- Fields under some of the names change nothing else. -/
theorem setAll (r : Record) {writes : List (String × Field)} (h : ∀ w ∈ writes, w.1 ∈ names) :
    AgreesOff names r (r.setAll writes) := by
  unfold Record.setAll
  refine List.foldlRecOn (motive := fun s => AgreesOff names r s) writes _ ?_ fun s hs w hw => ?_
  · exact ⟨rfl, fun _ _ => rfl⟩
  · exact hs.set (h w hw) w.2

/-- Edited rows agree one by one with those before. -/
theorem editRows {edit : Record → List (String × Field)}
    (h : ∀ row, ∀ w ∈ edit row, w.1 ∈ names) (rows : List Record) :
    List.Forall₂ (AgreesOff names) rows (editRows edit rows) := by
  rw [editRows_eq_map, List.forall₂_map_right_iff, List.forall₂_same]
  intro row _
  exact setAll row (h row)

end Record.AgreesOff

/-! ## One stage -/

/-- What the results after a stage have to do with those before it. -/
structure Stage.Frame [Regex.Library] [Machine] (stage : Stage) (b a : Results) : Prop where
  chart : a.chart.isSome = stage.isChart
  table : a.table.isSome = (b.table.isSome || stage.isTabular)
  length : a.events.length ≤ b.events.length
  events : b.table.isSome ∨ stage.isTabular → a.events = stage.filtered b.events
  rows : ∀ names, stage.written? = some names → List.Forall₂ (Record.AgreesOff names) b.rows a.rows

namespace Stage.Frame

variable {stage : Stage} {b : Results}

/-- The stage makes a table, and perhaps a chart. -/
theorem ofTable [Regex.Library] [Machine] {t : Table} {chart : Option Chart}
    (htabular : stage.isTabular)
    (hchart : chart.isSome = stage.isChart) : stage.Frame b ⟨b.events, some t, chart⟩ := by
  have hevents : stage.filtered b.events = b.events := by
    cases stage with
    | filter => cases htabular
    | table | stats | regex | sort | timeChart | eval => rfl
  have hwritten : stage.written? = none := by
    cases stage with
    | eval | regex => cases htabular
    | table | stats | sort | filter | timeChart => rfl
  constructor
  · exact hchart
  · rw [htabular, Bool.or_true]
    rfl
  · exact Nat.le_refl _
  · exact fun _ => hevents.symm
  · intro names hnames
    rw [hwritten] at hnames
    cases hnames

/-- The stage edits the rows. -/
theorem ofEdit [Regex.Library] [Machine] {names : List String}
    {change : Record → List (String × Field)} (hwritten : stage.written? = some names)
    (hchange : ∀ row, ∀ w ∈ change row, w.1 ∈ names) : stage.Frame b (b.edit names change) := by
  have hstage : stage.isChart = false ∧ stage.isTabular = false ∧
      stage.filtered b.events = b.events := by
    cases stage with
    | eval | regex => exact ⟨rfl, rfl, rfl⟩
    | table | stats | sort | filter | timeChart => cases hwritten
  obtain ⟨hchart, htabular, hevents⟩ := hstage
  have hedited : (b.edit names change).rows = editRows change b.rows := by
    obtain ⟨events, table | t, chart⟩ := b <;> rfl
  have hrows : ∀ other, stage.written? = some other →
      List.Forall₂ (Record.AgreesOff other) b.rows (b.edit names change).rows := by
    intro other hother
    obtain rfl : names = other := Option.some.inj (hwritten.symm.trans hother)
    rw [hedited]
    exact Record.AgreesOff.editRows hchange b.rows
  obtain ⟨events, table, chart⟩ := b
  have htable : ∀ c : Results, c.table.isSome = (c.table.isSome || stage.isTabular) := by
    intro c
    rw [htabular, Bool.or_false]
  cases table with
  | none =>
    -- the events are the rows that are edited
    refine ⟨hchart.symm, htable ⟨events, none, chart⟩, ?_, ?_, hrows⟩
    · exact Nat.le_of_eq (hrows names hwritten).length_eq.symm
    · rintro (hb | hstage)
      · cases hb
      · exact absurd hstage (by rw [htabular]; exact Bool.false_ne_true)
  | some t => exact ⟨hchart.symm, htable ⟨events, some t, chart⟩, Nat.le_refl _,
      fun _ => hevents.symm, hrows⟩

/-- The stage puts the rows in another order. -/
theorem ofSort [Regex.Library] [Machine] (keys : List SortKey) :
    (Stage.sort keys).Frame b { b.withRows (sortRows keys b.rows) with chart := none } := by
  obtain ⟨events, table, chart⟩ := b
  cases table with
  | none =>
    constructor
    · rfl
    · rfl
    · exact Nat.le_of_eq (List.length_mergeSort events)
    · rintro (hb | hstage)
      · cases hb
      · cases hstage
    · exact fun _ hnames => nomatch hnames
  | some t =>
    constructor
    · rfl
    · rfl
    · exact Nat.le_refl _
    · exact fun _ => rfl
    · exact fun _ hnames => nomatch hnames

/-- The stage takes out the rows that fail a condition, and the events that do. -/
theorem ofFilter [Regex.Library] [Machine] (condition : Expr) :
    (Stage.filter condition).Frame b (b.keep condition.holds) := by
  constructor
  · rfl
  · show (b.table.map _).isSome = _
    rw [Option.isSome_map]
    exact (Bool.or_false _).symm
  · exact List.length_filter_le _ _
  · exact fun _ => rfl
  · exact fun _ hnames => nomatch hnames

end Stage.Frame

/-- A stage touches nothing but what is its own. -/
theorem Stage.frame_of_apply [Regex.Library] [Machine] {range : TimeRange} {stage : Stage}
    {b a : Results} (h : stage.apply range b = .ok a) : stage.Frame b a := by
  cases stage with
  | table columns =>
    cases h
    exact .ofTable rfl rfl
  | stats calls groupBy =>
    simp only [apply] at h
    obtain ⟨t, -, h⟩ := bind_eq_ok.1 h
    cases h
    exact .ofTable rfl rfl
  | regex field pattern =>
    simp only [apply] at h
    cases hc : Regex.compile pattern with
    | error e =>
      rw [hc] at h
      cases h
    | ok compiled =>
      rw [hc] at h
      cases h
      refine .ofEdit ?_ fun row => name_of_capturedFields
      rw [written?, hc]
      rfl
  | sort keys =>
    cases h
    exact .ofSort keys
  | filter condition =>
    cases h
    exact .ofFilter condition
  | timeChart span timeColumn maxGroups calls groupBy =>
    obtain ⟨_, -, t, c, -, rfl⟩ := apply_timeChart_eq_ok_iff.1 h
    exact .ofTable rfl rfl
  | eval target value =>
    cases h
    refine .ofEdit rfl fun row w hw => ?_
    rw [List.mem_singleton.1 hw]
    exact List.mem_singleton.2 rfl

/-! ## Runs of stages -/

section Runs

variable {range : TimeRange} {stages : List Stage} {events : List Record} {r : Results}

/-- A run goes through the results before and after each of its stages. -/
theorem exists_of_runPipeline [Regex.Library] [Machine] {front behind : List Stage} {stage : Stage}
    (h : runPipeline range (front ++ stage :: behind) events = .ok r) :
    ∃ b a, runPipeline range front events = .ok b ∧ stage.apply range b = .ok a ∧
      behind.foldlM (Stage.apply range) a = .ok r := by
  rw [runPipeline, List.foldlM_append] at h
  obtain ⟨b, hb, h⟩ := bind_eq_ok.1 h
  rw [List.foldlM_cons] at h
  obtain ⟨a, ha, h⟩ := bind_eq_ok.1 h
  exact ⟨b, a, hb, ha, h⟩

/-- There is a chart exactly if the last stage draws one. -/
theorem isSome_chart_runPipeline [Regex.Library] [Machine]
    (h : runPipeline range stages events = .ok r) :
    r.chart.isSome ↔ ∃ stage ∈ stages.getLast?, stage.isChart := by
  rcases List.eq_nil_or_concat stages with rfl | ⟨front, last, rfl⟩
  · cases h
    simp [Results.ofEvents]
  · rw [List.concat_eq_append] at h ⊢
    obtain ⟨b, a, -, ha, hr⟩ := exists_of_runPipeline h
    cases hr
    rw [(Stage.frame_of_apply ha).chart]
    simp

/-- What a run of stages keeps of the table and of the number of events. -/
theorem table_and_length_foldlM [Regex.Library] [Machine] {b : Results}
    (h : stages.foldlM (Stage.apply range) b = .ok r) :
    r.table.isSome = (b.table.isSome || stages.any Stage.isTabular) ∧
      r.events.length ≤ b.events.length := by
  induction stages generalizing b with
  | nil =>
    cases h
    exact ⟨(Bool.or_false _).symm, Nat.le_refl _⟩
  | cons stage stages ih =>
    rw [List.foldlM_cons] at h
    obtain ⟨a, ha, h⟩ := bind_eq_ok.1 h
    have hframe := Stage.frame_of_apply ha
    obtain ⟨htable, hlength⟩ := ih h
    constructor
    · rw [htable, hframe.table, List.any_cons, Bool.or_assoc]
    · exact Nat.le_trans hlength hframe.length

/-- There is a table exactly if some stage makes one. -/
theorem isSome_table_runPipeline [Regex.Library] [Machine]
    (h : runPipeline range stages events = .ok r) :
    r.table.isSome ↔ ∃ stage ∈ stages, stage.isTabular := by
  rw [(table_and_length_foldlM h).1]
  simp [Results.ofEvents]

/-- Behind a table the conditions are all that the events go through. -/
theorem events_foldlM [Regex.Library] [Machine] {b : Results} (hb : b.table.isSome)
    (h : stages.foldlM (Stage.apply range) b = .ok r) :
    r.events = stages.foldl Stage.filtered b.events := by
  induction stages generalizing b with
  | nil =>
    cases h
    rfl
  | cons stage stages ih =>
    rw [List.foldlM_cons] at h
    obtain ⟨a, ha, h⟩ := bind_eq_ok.1 h
    have hframe := Stage.frame_of_apply ha
    have ha' : a.table.isSome := by rw [hframe.table, hb, Bool.true_or]
    rw [ih ha' h, hframe.events (.inl hb)]
    rfl

/-- There is a chart just if the last stage draws one, and a table just if some stage makes one. No
stage adds to the events. From the first stage that makes a table on, only a condition changes the
events, and it takes some out; so the run ends with the events that are left by the conditions.
Stages that edit rows keep their number, order and messages, and all fields that are not theirs to
write. -/
theorem runPipeline_frame [Regex.Library] [Machine] (h : runPipeline range stages events = .ok r) :
    (r.chart.isSome ↔ ∃ stage ∈ stages.getLast?, stage.isChart) ∧
    (r.table.isSome ↔ ∃ stage ∈ stages, stage.isTabular) ∧
    r.events.length ≤ events.length ∧
    ∀ front stage behind, stages = front ++ stage :: behind →
      ∃ b a, runPipeline range front events = .ok b ∧ stage.apply range b = .ok a ∧
        a.events.length ≤ b.events.length ∧
        ((∃ s ∈ front ++ [stage], s.isTabular) →
          a.events = stage.filtered b.events ∧ (stage.filtered b.events).Sublist b.events ∧
          r.events = behind.foldl Stage.filtered a.events) ∧
        ∀ names, stage.written? = some names →
          List.Forall₂ (Record.AgreesOff names) b.rows a.rows := by
  refine ⟨isSome_chart_runPipeline h, isSome_table_runPipeline h, (table_and_length_foldlM h).2, ?_⟩
  rintro front stage behind rfl
  obtain ⟨b, a, hb, ha, hr⟩ := exists_of_runPipeline h
  have hframe := Stage.frame_of_apply ha
  refine ⟨b, a, hb, ha, hframe.length, fun hfront => ?_, hframe.rows⟩
  have htable : b.table.isSome ∨ stage.isTabular := by
    obtain ⟨s, hs, htabular⟩ := hfront
    rcases List.mem_append.1 hs with hs | hs
    · exact .inl ((isSome_table_runPipeline hb).2 ⟨s, hs, htabular⟩)
    · exact .inr (List.mem_singleton.1 hs ▸ htabular)
  refine ⟨hframe.events htable, stage.filtered_sublist _, events_foldlM ?_ hr⟩
  rw [hframe.table, Bool.or_eq_true]
  exact htable

end Runs

attribute [local instance] Regex.standard Machine.stopping

/-- Both events are copied a field and shown in a table, and then one of them is taken out. -/
theorem events_behind_table :
    let a : Record := ⟨[("up", .boolean true)], "started"⟩
    let b : Record := ⟨[("up", .boolean false)], "stopped"⟩
    let edit : Stage := .eval "copy" (.column "up")
    let behind : List Stage := [.table [⟨"up", none⟩], .filter (.column "up")]
    let r : Results := ⟨[a.set "copy" (.boolean true)], some ⟨["up"], [a]⟩, none⟩
    runPipeline ⟨0, 1000⟩ (edit :: behind) [a, b] = .ok r ∧
      (∃ stage ∈ edit :: behind, stage.isTabular) ∧
      (¬ ∃ stage ∈ (edit :: behind).getLast?, stage.isChart) ∧
      ∃ c, edit.apply ⟨0, 1000⟩ (.ofEvents [a, b]) = .ok c ∧
        List.Forall₂ (Record.AgreesOff ["copy"]) [a, b] c.rows := by
  intro a b edit behind r
  have hrun : runPipeline ⟨0, 1000⟩ (edit :: behind) [a, b] = .ok r := by
    simp only [runPipeline, edit, behind, List.foldlM_cons, Stage.apply, Results.edit,
      editRows_eq_map]
    rfl
  obtain ⟨hchart, htable, -, hstages⟩ := runPipeline_frame hrun
  obtain ⟨before, c, hbefore, hc, -, -, hrows⟩ := hstages [] edit behind rfl
  obtain rfl : Results.ofEvents [a, b] = before := Except.ok.inj hbefore
  refine ⟨hrun, htable.1 rfl, fun hlast => ?_, c, hc, hrows ["copy"] rfl⟩
  exact absurd (hchart.2 hlast) (by decide)

end LogSearch
