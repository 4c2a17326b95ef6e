import LogSearch.Pipeline.Aggregation
import LogSearch.Time.Range

/-!
# Charts over time

Rows are put into buckets of equal length and aggregated in each bucket, for each of the largest
groups.

* `autoSpan`: the length of a bucket where the query gives none.
* `TimeChart.Plan`: what a chart is made of.
* `TimeChart.Plan.draw`: the table and the chart.
-/

namespace LogSearch

/-- The length of the bucket that is taken if no other does. -/
def longestSpan : Int := 604800000

/-- The lengths of buckets to choose from. -/
def spanChoices : List Int :=
  [1000, 5000, 10000, 30000, 60000, 300000, 600000, 1800000, 3600000, 10800000, 21600000, 43200000,
    86400000, longestSpan]

/-- How many buckets a chosen length may give. -/
def mostAutoBuckets : Nat := 100

/-- The least length that covers the range with a moderate number of buckets. -/
def autoSpan (length : Int) : Int :=
  (spanChoices.find? fun span => TimeRange.parts length span ≤ mostAutoBuckets).getD longestSpan

/-- The same as a machine chooses it; nothing if that stops the program. -/
def autoSpan? [Machine] (length : Int) : Option Int := do
  let found ← spanChoices.findM? fun span => do
    return (← TimeRange.parts? length span) ≤ mostAutoBuckets
  return found.getD longestSpan

namespace TimeChart

/-- How many buckets a chart may have. -/
def mostBuckets : Nat := 10000

/-- How many groups a chart has where the query does not say. -/
def defaultGroups : Nat := 10

/-- The colours of the series, in turn. -/
def palette : List String :=
  ["#4e79a7", "#f28e2b", "#e15759", "#76b7b2", "#59a14f", "#edc948", "#b07aa1", "#ff9da7",
    "#9c755f", "#bab0ac"]

/-- The name of the stage in faults. -/
def stageName : String := "timechart"

/-- How many bytes the list of the cells of a bucket takes, apart from the cells. -/
def cellsSize : Nat := 24

/-- A row and where it belongs: its bucket and the key of its group. -/
structure Placed where
  bucket : Nat
  key : String
  row : Record

/-- What a chart is made of. -/
structure Plan where
  range : TimeRange
  /-- The length of a bucket, at least one. -/
  span : Int
  timeColumn : String
  maxGroups : Nat
  calls : List AggregateCall
  groupBy : List String

namespace Plan

/-- How many buckets cover the range. -/
def buckets (p : Plan) : Nat := TimeRange.parts p.range.length p.span

/-- How many buckets are drawn. -/
def drawnBuckets [Machine] (p : Plan) : Except StageFault Nat := do
  let some counted := p.range.counted? p.span | throw (.brokenOff stageName)
  if mostBuckets < counted then
    throw (.tooManyBuckets stageName p.span counted.toNat mostBuckets)
  let some count := Machine.capacity cellsSize counted | throw (.brokenOff stageName)
  return count

/-- The instant at which a bucket starts. -/
def bucketStart (p : Plan) (bucket : Nat) : Int := p.range.start + bucket * p.span

/-- The rows with an instant in the range, each with its place. -/
def place (p : Plan) (rows : List Record) : List Placed :=
  rows.filterMap fun r => do
    let t ← (r.get? p.timeColumn).bind Field.asDate?
    if p.range.contains t then
      some ⟨((t - p.range.start) / p.span).toNat, groupKey p.groupBy r, r⟩
    else none

/-- The keys of the largest groups; of equal ones the first to appear comes first. Rows that are not
split are one group. -/
def groups (p : Plan) (placed : List Placed) : List String :=
  if p.groupBy.isEmpty then [""]
  else
    let sizes := (groupByKey (placed.map fun q => (q.key, ()))).map fun (key, members) =>
      (key, members.length)
    ((sizes.mergeSort fun a b => b.2 ≤ a.2).take p.maxGroups).map Prod.fst

/-- The name of a series. Where rows are split it has the group in it, else the aggregation. -/
def seriesName (p : Plan) (key : String) (a : AggregateCall) : String :=
  if p.groupBy.isEmpty then a.outputName
  else if 1 < p.calls.length then key ++ ": " ++ a.outputName
  else key

/-- The series: for each group, each aggregation, with its name. -/
def series (p : Plan) (groups : List String) : List (String × AggregateCall × String) :=
  groups.flatMap fun key => p.calls.map fun a => (key, a, p.seriesName key a)

/-- The values of all series in a bucket. -/
def bucketValues [Machine] (series : List (String × AggregateCall × String)) (members : List Placed) :
    Except StageFault (List (String × Field)) :=
  series.mapM fun (key, a, name) => do
    let rows := (members.filter fun q => q.key = key).map Placed.row
    return (name, ← a.compute stageName rows)

/-- The row of a bucket: its start and the values that are not null. -/
def bucketRow (start : Int) (values : List (String × Field)) : Record :=
  (values.filter fun v => !v.2.isNull).foldl (fun r (name, f) => r.set name f)
    ((Record.ofMessage "").withTime start)

/-- The point of a bucket: the values that are numbers. -/
def bucketPoint (start : Int) (values : List (String × Field)) : ChartPoint :=
  ⟨start, Dict.ofList (values.filterMap fun (name, f) => f.asNumber?.map (name, ·))⟩

/-- The table and the chart. -/
def draw [Machine] (p : Plan) (rows : List Record) : Except StageFault (Table × Chart) := do
  let count ← p.drawnBuckets
  let placed := p.place rows
  let series := p.series (p.groups placed)
  let names := series.map fun s => s.2.2
  let drawn ← (List.range count).mapM fun bucket => do
    let values ← bucketValues series (placed.filter fun q => q.bucket = bucket)
    let start := p.bucketStart bucket
    return (bucketRow start values, bucketPoint start values)
  let colored := names.zipIdx.map fun (name, i) =>
    (⟨name, palette.getD (i % palette.length) ""⟩ : Series)
  return (⟨timeField :: names, drawn.map Prod.fst⟩, ⟨timeField, colored, drawn.map Prod.snd⟩)

end Plan

/-- The length of a bucket, at least one: the one that the query gives, or else a chosen one. -/
def width [Machine] (range : TimeRange) (span : Option TimeSpan) : Except StageFault Int :=
  match span with
  | some s => .ok (max 1 s.millis)
  | none =>
    match Machine.word range.length >>= autoSpan? with
    | some length => .ok (max 1 length)
    | none => .error (.brokenOff stageName)

end TimeChart

end LogSearch
