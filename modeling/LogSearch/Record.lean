import LogSearch.Field

/-!
# Records

A record is one row of data: named fields and the raw message.

* `Record.get?`, `Record.set`: reading and writing a field.
* `Record.time?`: the instant of the record.
* `sortByTime`, `mergeByTime`, `mergeAllByTime`: lists of records with the latest first. Records
  without a time stand last, and equal times keep their order.
* `MergeQueue`: what is left of lists that are being merged; `MergeQueue.drain` empties it.
-/

namespace LogSearch

/-- The field that holds the instant of a record. -/
def timeField : String := "_time"

/-- The field that names the source of a record. -/
def sourceField : String := "_source"

/-- One row of data. -/
structure Record where
  fields : Dict Field
  message : String

namespace Record

/-- A record without fields. -/
def ofMessage (message : String) : Record := ⟨[], message⟩

instance : Inhabited Record := ⟨ofMessage ""⟩

/-- The field under a name. -/
def get? (r : Record) (name : String) : Option Field := Dict.get? name r.fields

/-- Writes a field. -/
def set (r : Record) (name : String) (f : Field) : Record :=
  { r with fields := Dict.insert name f r.fields }

/-- The field under a name, null if there is none. -/
def getD (r : Record) (name : String) : Field := (r.get? name).getD Field.null

/-- Writes the instant. -/
def withTime (r : Record) (millis : Int) : Record := r.set timeField (Field.date millis)

/-- The instant of the record. -/
def time? (r : Record) : Option Int := (r.get? timeField).bind Field.asDate?

/-- The text of a field, empty if there is none. -/
def display (r : Record) (name : String) : String := ((r.get? name).map Field.display).getD ""

end Record

/-! ## Order by time -/

/-- The instant that decides the place of a record; no time counts as the earliest. -/
def timeKey (r : Record) : Int := r.time?.getD Number.int64Min

/-- Whether `a` may stand before `b`. -/
def notEarlier (a b : Record) : Bool := timeKey b ≤ timeKey a

/-- The records with the latest first; equal times keep their order. -/
def sortByTime (rows : List Record) : List Record := rows.mergeSort notEarlier

/-- Merges two lists; the next record is taken from the second list only if it is later. -/
def mergeByTime (as bs : List Record) : List Record := as.merge bs notEarlier

/-! ## Merging many lists -/

/-- What is left of a list that is being merged: its number, its next record and those behind it. -/
structure Remainder where
  list : Nat
  next : Record
  behind : List Record

/-- Whether `a` comes out before `b`: the later record does, of equal times that of the earlier
list. -/
def Remainder.precedes (a b : Remainder) : Bool :=
  timeKey b.next < timeKey a.next || (timeKey a.next = timeKey b.next && a.list < b.list)

/-- Remainders of lists; the one at the head comes out next. -/
abbrev MergeQueue := List Remainder

namespace MergeQueue

/-- Puts a remainder before the first one that it precedes. -/
def push (r : Remainder) : MergeQueue → MergeQueue
  | [] => [r]
  | other :: queue => if r.precedes other then r :: other :: queue else other :: push r queue

/-- Puts in what is left of a list, if there is anything. -/
def pushRows (list : Nat) (rows : List Record) (queue : MergeQueue) : MergeQueue :=
  match rows with
  | [] => queue
  | next :: behind => push ⟨list, next, behind⟩ queue

/-- The queue of all lists, before anything is taken out. -/
def ofLists (lists : List (List Record)) : MergeQueue :=
  lists.zipIdx.foldl (fun queue (rows, list) => pushRows list rows queue) []

/-- How many records are in the queue. -/
def size : MergeQueue → Nat
  | [] => 0
  | r :: queue => r.behind.length + 1 + size queue

/-- Adding what is left of a list adds its next record and those behind it. -/
theorem size_push (r : Remainder) (queue : MergeQueue) :
    size (push r queue) = r.behind.length + 1 + size queue := by
  induction queue with
  | nil => rfl
  | cons other queue ih =>
    unfold push
    split
    · rfl
    · rw [size, size, ih]
      omega

/-- Adding a list adds as many records as it has. -/
theorem size_pushRows (list : Nat) (rows : List Record) (queue : MergeQueue) :
    size (pushRows list rows queue) = rows.length + size queue := by
  cases rows with
  | nil => exact (Nat.zero_add _).symm
  | cons next behind => exact size_push _ _

/-- Takes out all records; what is left of the list of each goes back into the queue. -/
def drain : MergeQueue → List Record
  | [] => []
  | r :: queue => r.next :: drain (pushRows r.list r.behind queue)
termination_by queue => size queue
decreasing_by
  rw [size_pushRows, size]
  omega

end MergeQueue

/-- Merges any number of lists; of equal times the earlier list comes first. -/
def mergeAllByTime (lists : List (List Record)) : List Record :=
  match lists with
  | [] => []
  | [rows] => rows
  | [as, bs] => mergeByTime as bs
  | _ => (MergeQueue.ofLists lists).drain

end LogSearch
