import LogSearch.Number.Machine

/-!
# Ranges of time

* `TimeRange`: from an instant on, up to and without another.
* `TimeRange.contains`, `TimeRange.parts`: membership, and how many spans cover a range.
* `TimeRange.parts?`, `TimeRange.counted?`: the same as a machine counts it.
-/

namespace LogSearch

/-- The instants from `start` on and before `stop`. -/
structure TimeRange where
  start : Int
  stop : Int
deriving DecidableEq, Repr

namespace TimeRange

/-- Whether an instant lies in the range. -/
def contains (r : TimeRange) (millis : Int) : Bool := r.start ≤ millis && millis < r.stop

/-- The length of the range; negative if it ends before it starts. -/
def length (r : TimeRange) : Int := r.stop - r.start

/-- How many spans cover a length. -/
def parts (length span : Int) : Nat :=
  if length ≤ 0 then 0 else ((length + span - 1) / span).toNat

/-- How many spans cover a length, as the machine counts them; nothing if that stops the program. -/
def parts? [Machine] (length span : Int) : Option Int :=
  if length ≤ 0 then some 0
  else do
    let sum ← Machine.word (length + span)
    let last ← Machine.word (sum - 1)
    return last.tdiv span

/-- How many spans cover the range, as the machine counts them. -/
def counted? [Machine] (r : TimeRange) (span : Int) : Option Int := do
  parts? (← Machine.word r.length) span

end TimeRange

end LogSearch
