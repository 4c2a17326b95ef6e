/-!
# Marks on a query text

Reading a query leaves two kinds of marks for an editor: highlights, which classify byte ranges, and
markers, which say what may be completed where.

* `Marks`: highlights and markers in the order in which they were left.
* `Marker.covers`: a marker covers a half-open range and, while open, everything to the end.
* `Marks.sortedHighlights`: the highlights by position.
-/

namespace LogSearch.Query

/-- The class of a highlighted range. -/
inductive HighlightKind
  | keyword
  | command
  | column
  | function
  | operator
  | string
  | number
  | regex
  | paramKey
  | paramValue
  | boolean
deriving DecidableEq, Repr

/-- A classified byte range of the query text. -/
structure Highlight where
  kind : HighlightKind
  start : Nat
  stop : Nat
deriving DecidableEq, Repr

/-- What a marker offers. -/
inductive MarkerKind
  | commands
  | params
  | paramValues (key : String)
  | columns
  | aggregations
  | functions
  | keywords (words : List String)
deriving DecidableEq, Repr

/-- An offer for the bytes from `start` up to `stop`, or to the end of the text. -/
structure Marker where
  kind : MarkerKind
  start : Nat
  stop : Option Nat
  disabled : Bool
deriving DecidableEq, Repr

/-- Whether the marker is enabled and covers the cursor. -/
def Marker.covers (m : Marker) (cursor : Nat) : Bool :=
  !m.disabled && m.start ≤ cursor && m.stop.all fun stop => cursor < stop

/-- Highlights and markers in the order in which they were left. -/
structure Marks where
  highlights : List Highlight
  markers : List Marker
deriving DecidableEq, Repr

namespace Marks

/-- No marks. -/
def empty : Marks := ⟨[], []⟩

/-- Marks followed by further ones. -/
def append (m n : Marks) : Marks := ⟨m.highlights ++ n.highlights, m.markers ++ n.markers⟩

instance : Append Marks := ⟨append⟩

/-- Highlights a range; an empty one leaves no mark. -/
def highlight (m : Marks) (kind : HighlightKind) (start stop : Nat) : Marks :=
  if start < stop then { m with highlights := m.highlights ++ [⟨kind, start, stop⟩] } else m

/-- Opens a marker, whose number is the number of markers before it. -/
def openMarker (m : Marks) (kind : MarkerKind) (start : Nat) : Marks :=
  { m with markers := m.markers ++ [⟨kind, start, none, false⟩] }

/-- Changes the marker with a number. -/
def modify (m : Marks) (id : Nat) (change : Marker → Marker) : Marks :=
  { m with markers := m.markers.modify id change }

/-- Sets the end of a marker; no end leaves it open. -/
def close (m : Marks) (id : Nat) (stop : Option Nat) : Marks :=
  m.modify id fun k => { k with stop := stop }

/-- Withholds what a marker offers. -/
def disable (m : Marks) (id : Nat) : Marks := m.modify id fun k => { k with disabled := true }

/-- Offers what a marker offers again. -/
def enable (m : Marks) (id : Nat) : Marks := m.modify id fun k => { k with disabled := false }

/-- Moves the start of a marker. -/
def restart (m : Marks) (id : Nat) (start : Nat) : Marks :=
  m.modify id fun k => { k with start := start }

/-- The highlights by start and then by end. -/
def sortedHighlights (m : Marks) : List Highlight :=
  m.highlights.mergeSort fun a b => a.start < b.start || (a.start = b.start && a.stop ≤ b.stop)

end Marks

/-- The enabled markers that cover the cursor. -/
def markersAt (markers : List Marker) (cursor : Nat) : List Marker :=
  markers.filter fun m => m.covers cursor

end LogSearch.Query
