import LogSearch.Source.Basic

/-!
# Records held in memory

* `MemorySource`: records, the size of a batch, and the labels to filter by.
* `MemorySource.source`: the same as a source.
-/

namespace LogSearch

/-- Records held in memory. -/
structure MemorySource where
  records : List Record
  batchSize : Nat
  labels : List String

namespace MemorySource

/-- The size of a batch where nothing else is said. -/
def defaultBatchSize : Nat := 500

/-- Adds a record. -/
def push (m : MemorySource) (r : Record) : MemorySource :=
  { m with records := m.records ++ [r] }

/-- The report on a request. -/
def report (m : MemorySource) (q : Request) (stopAfter : Option Nat) : List (List Record) :=
  q.batches m.batchSize stopAfter m.records

/-- The values under the labels. -/
def params (m : MemorySource) : Dict (List String) := labelValues m.records m.labels

/-- The records as a source. -/
def source (m : MemorySource) : Source :=
  { labels := .ok m.params
    respond := fun q => .report (m.report q none) }

end MemorySource

end LogSearch
