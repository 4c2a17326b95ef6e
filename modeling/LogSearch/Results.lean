import LogSearch.Field.Wire

/-!
# Results of a pipeline

* `Table`: columns and rows.
* `Chart`: a chart over time, with a series for each name and a point for each bucket.
* `Results`: the events, with a table and a chart where stages made them.
* `Results.rows`: the rows that the next stage reads.
-/

namespace LogSearch

/-- Columns and rows. -/
structure Table where
  columns : List String
  rows : List Record

/-- One line of a chart. -/
structure Series where
  name : String
  color : String
deriving DecidableEq, Repr

/-- The values of the series at an instant; a series without a value is absent. -/
structure ChartPoint where
  timestamp : Int
  values : Dict Double

/-- A chart over time. -/
structure Chart where
  axis : String
  series : List Series
  points : List ChartPoint

/-- What a run of a pipeline gives. -/
structure Results where
  events : List Record
  table : Option Table
  chart : Option Chart

namespace Results

/-- Results that hold events only. -/
def ofEvents (events : List Record) : Results := ⟨events, none, none⟩

/-- The rows that the next stage reads: those of the table if there is one, else the events. -/
def rows (r : Results) : List Record :=
  match r.table with
  | some t => t.rows
  | none => r.events

/-- The results with other rows in the place of those that the next stage reads. -/
def withRows (r : Results) (rows : List Record) : Results :=
  match r.table with
  | some t => { r with table := some { t with rows := rows } }
  | none => { r with events := rows }

end Results

/-! ## JSON -/

/-- A table as JSON. -/
def Table.toJson (t : Table) : Json :=
  .object [("columns", Json.ofTexts t.columns), ("rows", Json.ofList Record.toJson t.rows)]

/-- A table from JSON. -/
def Table.ofJson? (j : Json) : Option Table := do
  let f ← Json.fields? ["columns", "rows"] j
  return ⟨← f.required "columns" (Json.list? Json.text?),
    ← f.required "rows" (Json.list? Record.ofJson?)⟩

/-- A series as JSON. -/
def Series.toJson (s : Series) : Json :=
  .object [("name", .string s.name), ("color", .string s.color)]

/-- A series from JSON. -/
def Series.ofJson? (j : Json) : Option Series := do
  let f ← Json.fields? ["name", "color"] j
  return ⟨← f.required "name" Json.text?, ← f.required "color" Json.text?⟩

/-- A point as JSON. -/
def ChartPoint.toJson (p : ChartPoint) : Json :=
  .object [("timestamp", .integer p.timestamp), ("values", Json.ofDict Json.ofDouble p.values)]

/-- A point from JSON. -/
def ChartPoint.ofJson? (j : Json) : Option ChartPoint := do
  let f ← Json.fields? ["timestamp", "values"] j
  return ⟨← f.required "timestamp" Json.int64?, ← f.required "values" (Json.dict? Json.double?)⟩

/-- A chart as JSON. -/
def Chart.toJson (c : Chart) : Json :=
  .object [("x_axis", .string c.axis), ("series", Json.ofList Series.toJson c.series),
    ("points", Json.ofList ChartPoint.toJson c.points)]

/-- A chart from JSON. -/
def Chart.ofJson? (j : Json) : Option Chart := do
  let f ← Json.fields? ["x_axis", "series", "points"] j
  return ⟨← f.required "x_axis" Json.text?, ← f.required "series" (Json.list? Series.ofJson?),
    ← f.required "points" (Json.list? ChartPoint.ofJson?)⟩

/-- Results as JSON. -/
def Results.toJson (r : Results) : Json :=
  .object [("events", Json.ofList Record.toJson r.events),
    ("table", Json.ofOption Table.toJson r.table), ("view", Json.ofOption Chart.toJson r.chart)]

/-- Results from JSON. -/
def Results.ofJson? (j : Json) : Option Results := do
  let f ← Json.fields? ["events", "table", "view"] j
  return ⟨← f.required "events" (Json.list? Record.ofJson?), ← f.optional "table" Table.ofJson?,
    ← f.optional "view" Chart.ofJson?⟩

end LogSearch
