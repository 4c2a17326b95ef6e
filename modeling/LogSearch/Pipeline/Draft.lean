import LogSearch.Record

/-!
# Editing rows

Rows are shared: others may hold the same objects, so that nothing is ever written to one. A draft keeps
the objects as they are and notes what is to be written. Committing it builds copies of the rows that
something is written to, and of no others.

* `SharedRow`: an object that holds a record.
* `RowDraft.set`: notes a write.
* `RowDraft.commitShared`, `RowDraft.commit`: the rows with all writes, the later ones last.
* `editRows`: each row with the writes that a function gives for it.
-/

namespace LogSearch

/-- Writes fields one after the other. -/
def Record.setAll (r : Record) (writes : List (String × Field)) : Record :=
  writes.foldl (fun r (name, f) => r.set name f) r

/-- A record as an object that may have several holders. Two of the same number are one object. -/
structure SharedRow where
  object : Nat
  record : Record

namespace SharedRow

/-- Rows that nobody else holds. -/
def ofRows (rows : List Record) : List SharedRow := rows.zipIdx.map fun (r, i) => ⟨i, r⟩

/-- A copy with some writes, as an object of its own. -/
def copy (s : SharedRow) (object : Nat) (writes : List (String × Field)) : SharedRow :=
  ⟨object, s.record.setAll writes⟩

end SharedRow

/-- A write to one row. -/
structure Patch where
  row : Nat
  column : String
  value : Field

/-- What a patch writes. -/
def Patch.write (p : Patch) : String × Field := (p.column, p.value)

/-- Rows, and the writes noted for them, the earliest first. -/
structure RowDraft where
  shared : List SharedRow
  patches : List Patch
  inRange : ∀ p ∈ patches, p.row < shared.length

namespace RowDraft

/-- Nothing noted yet. -/
def ofShared (rows : List SharedRow) : RowDraft := ⟨rows, [], nofun⟩

/-- A draft of rows that nobody else holds. -/
def ofRows (rows : List Record) : RowDraft := ofShared (SharedRow.ofRows rows)

/-- The rows as they were before any write. -/
def base (d : RowDraft) : List Record := d.shared.map SharedRow.record

/-- Notes a write; one to a row that is not there is forgotten. -/
def set (d : RowDraft) (row : Nat) (column : String) (value : Field) : RowDraft :=
  if h : row < d.shared.length then
    ⟨d.shared, d.patches ++ [⟨row, column, value⟩],
      List.forall_mem_append.2 ⟨d.inRange, List.forall_mem_singleton.2 h⟩⟩
  else d

/-- Whether something is written to a row. -/
def isPatched (d : RowDraft) (row : Nat) : Bool := d.patches.any fun p => p.row = row

/-- How many rows are written to: the rows of the patches in order, without repetitions. -/
def patchedRows (d : RowDraft) : Nat :=
  ((d.patches.map Patch.row).mergeSort fun a b => a ≤ b).eraseReps.length

/-- Writes patches that are ordered by row. Those to one row are written to a copy, which takes the
place of the object that was there; `next` is the number of the next copy. -/
def writeRuns (next : Nat) (rows : Array SharedRow) : List Patch → Array SharedRow
  | [] => rows
  | first :: rest =>
    let own := first :: rest.takeWhile fun p => p.row = first.row
    let others := rest.dropWhile fun p => p.row = first.row
    writeRuns (next + 1) (rows.modify first.row fun s => s.copy next (own.map Patch.write)) others
termination_by patches => patches.length
decreasing_by
  exact Nat.lt_succ_of_le (List.dropWhile_sublist _).length_le

/-- The number of the first copy, which no object has yet. -/
def firstCopy (d : RowDraft) : Nat := d.shared.foldr (fun s n => max (s.object + 1) n) 0

/-- The objects with all writes; those to one row are done in the order in which they were noted. -/
def commitShared (d : RowDraft) : List SharedRow :=
  (writeRuns d.firstCopy d.shared.toArray (d.patches.mergeSort fun p q => p.row ≤ q.row)).toList

/-- The rows with all writes. -/
def commit (d : RowDraft) : List Record := d.commitShared.map SharedRow.record

end RowDraft

/-- The writes that `edit` gives for each of some rows. -/
def editPatches (edit : Record → List (String × Field)) (rows : List Record) : List Patch :=
  rows.zipIdx.flatMap fun (r, row) => (edit r).map fun (column, value) => ⟨row, column, value⟩

/-- An edit patches rows that are there. -/
theorem row_lt_of_mem_editPatches {edit : Record → List (String × Field)} {rows : List Record}
    {p : Patch} (h : p ∈ editPatches edit rows) : p.row < rows.length := by
  obtain ⟨⟨r, row⟩, hrow, hp⟩ := List.mem_flatMap.1 h
  obtain ⟨w, -, rfl⟩ := List.mem_map.1 hp
  exact List.snd_lt_of_mem_zipIdx hrow

/-- Sharing rows leaves their number as it is. -/
theorem SharedRow.length_ofRows (rows : List Record) : (ofRows rows).length = rows.length := by
  rw [ofRows, List.length_map, List.length_zipIdx]

/-- Each row with the writes that `edit` gives for it. -/
def editRows (edit : Record → List (String × Field)) (rows : List Record) : List Record :=
  RowDraft.commit ⟨SharedRow.ofRows rows, editPatches edit rows, fun _ hp =>
    (SharedRow.length_ofRows rows).symm ▸ row_lt_of_mem_editPatches hp⟩

end LogSearch
