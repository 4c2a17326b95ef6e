import LogSearch.Record
import LogSearch.Time.Range

/-!
# Event counts over time

* `Histogram.grid?`: the length and the number of the buckets of a range.
* `Histogram.ofEvents?`: how many events fall into each of a number of buckets of equal length.
-/

namespace LogSearch

/-- How many events there are from an instant on. -/
structure HistogramBucket where
  start : Int
  count : Nat
deriving DecidableEq, Repr

/-- Buckets, and their length in milliseconds. -/
structure Histogram where
  scale : Int
  buckets : List HistogramBucket
deriving DecidableEq, Repr

namespace Histogram

/-- Nothing. -/
def empty : Histogram := ⟨0, []⟩

/-- How many bytes a bucket takes. -/
def bucketSize : Nat := 16

/-- The length of a bucket and how many buckets there are, at most `most`; nothing if counting them
stops the program. -/
def grid? [Machine] (range : TimeRange) (most : Nat) : Option (Int × Nat) :=
  let length := Number.clamp64 range.length
  if length ≤ 0 ∨ most = 0 then some (0, 0)
  else do
    let scale := max 1 (← TimeRange.parts? length (Machine.wrap most))
    let count ← Machine.capacity bucketSize (← TimeRange.parts? length scale)
    return (scale, count)

/-- The counts of events in a range, in at most `most` buckets; nothing if that stops the program. -/
def ofEvents? [Machine] (events : List Record) (range : TimeRange) (most : Nat) :
    Option Histogram := do
  let (scale, count) ← grid? range most
  let times := (events.filterMap Record.time?).filter range.contains
  let buckets := (List.range count).map fun (i : Nat) =>
    (⟨range.start + i * scale, times.countP fun t => (t - range.start) / scale = i⟩ :
      HistogramBucket)
  return ⟨scale, buckets⟩

end Histogram

end LogSearch
