import LogSearch.Record

/-!
# Finding events by time

* `TimeIndex.ofEvents`: the instants of events, each with the first position at which it occurs.
* `TimeIndex.closest`: the instant nearest to a given one; of two equally near the earlier one.
-/

namespace LogSearch

/-- Instants in order, each with a position. -/
structure TimeIndex where
  entries : List (Int × Nat)
deriving DecidableEq, Repr

namespace TimeIndex

/-- Nothing. -/
def empty : TimeIndex := ⟨[]⟩

/-- Adds an instant with its position unless it is there. -/
def addEntry (time : Int) (position : Nat) : List (Int × Nat) → List (Int × Nat)
  | [] => [(time, position)]
  | (t, p) :: rest =>
    if time = t then (t, p) :: rest
    else if time < t then (time, position) :: (t, p) :: rest
    else (t, p) :: addEntry time position rest

/-- The index of events; those without an instant are left out. -/
def ofEvents (events : List Record) : TimeIndex :=
  ⟨events.zipIdx.foldl (fun entries (event, position) =>
      match event.time? with
      | some t => addEntry t position entries
      | none => entries)
    []⟩

/-- How many instants there are. -/
def size (x : TimeIndex) : Nat := x.entries.length

/-- The nearest instant and its position. -/
def closest (x : TimeIndex) (time : Int) : Option (Int × Nat) :=
  let below := (x.entries.takeWhile fun e => e.1 ≤ time).getLast?
  let above := x.entries.find? fun e => time ≤ e.1
  match below, above with
  | some low, some high => if high.1 - time < time - low.1 then some high else some low
  | some low, none => some low
  | none, high => high

end TimeIndex

end LogSearch
