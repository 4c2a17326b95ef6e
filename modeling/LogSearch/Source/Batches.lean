import LogSearch.Source.Selection
import LogSearch.Time.Range

/-!
# What a source reports

A source reports the newest of the rows asked for, in batches.

* `Request`: what a source is asked for.
* `Request.newest`: the rows to report, the latest first.
* `emit`, `Request.batches`: the same rows in batches; a receiver may cancel after some of them.
-/

namespace LogSearch

/-- What a source is asked for. -/
structure Request where
  selection : Selection
  range : TimeRange
  /-- How many rows at most. -/
  limit : Nat
deriving DecidableEq, Repr

/-- Reports items in batches of `size`, the last one maybe shorter; a size of zero counts as one.
Before each batch it is asked whether the receiver has cancelled, which has had `sent` of them. -/
def emit {α : Type} (size : Nat) (cancelled : Nat → Bool) (sent : Nat) : List α → List (List α)
  | [] => []
  | a :: rest =>
    if cancelled sent then []
    else (a :: rest.take (size - 1)) :: emit size cancelled (sent + 1) (rest.drop (size - 1))
termination_by items => items.length

namespace Request

/-- Whether a record is asked for. -/
def asksFor (q : Request) (r : Record) : Bool :=
  r.time?.any q.range.contains && q.selection.accepts r

/-- The latest of the records asked for. -/
def newest (q : Request) (records : List Record) : List Record :=
  (sortByTime (records.filter q.asksFor)).take q.limit

/-- The batches of a report. With `stopAfter` the receiver cancels when it has had so many of
them. -/
def batches (q : Request) (batchSize : Nat) (stopAfter : Option Nat) (records : List Record) :
    List (List Record) :=
  emit batchSize (fun sent => stopAfter.any (· ≤ sent)) 0 (q.newest records)

end Request

end LogSearch
