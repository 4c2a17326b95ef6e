import LogSearch.Proofs.Text.Joining
import LogSearch.View.Export
import Mathlib.Data.List.TakeWhile

/-!
# Reading comma-separated values back

The form is that of RFC 4180: records of cells with commas between them, each record ended by carriage
return and line feed, which may be missing behind the last one. A cell stands as it is, or between quotes
with its own quotes written twice; a comma, a quote or the end of a line is found only between quotes.
What other characters a cell has does not matter.

* `Csv.WritesCell`, `Csv.WritesRecord`, `Csv.WritesFile`: the grammar.
* `Csv.read?`: a reader of that grammar.
* `Csv.read?_eq_some_iff`: the reader reads what the grammar writes, and no text in two ways.
* `csv_reads_back`: what a table is exported to is read as its columns and the texts of its rows.
-/

namespace LogSearch

namespace Csv

/-! ## The grammar -/

/-- Whether a character may stand in a cell without quotes. -/
def isPlain (c : Char) : Bool := c ≠ ',' && c ≠ '"' && c ≠ '\r' && c ≠ '\n'

/-- `*(TEXTDATA / COMMA / CR / LF / 2DQUOTE)`: a text, and the characters that it stands for. -/
inductive WritesQuoted : List Char → List Char → Prop
  | nil : WritesQuoted [] []
  | quote {text cs : List Char} : WritesQuoted text cs → WritesQuoted ('"' :: '"' :: text) ('"' :: cs)
  | other {c : Char} {text cs : List Char} : c ≠ '"' → WritesQuoted text cs →
      WritesQuoted (c :: text) (c :: cs)

/-- `field = DQUOTE quoted DQUOTE / *TEXTDATA` -/
inductive WritesCell : List Char → String → Prop
  | plain {cell : String} : (∀ c ∈ cell.toList, isPlain c = true) → WritesCell cell.toList cell
  | quoted {text : List Char} {cell : String} : WritesQuoted text cell.toList →
      WritesCell ('"' :: (text ++ ['"'])) cell

/-- `record = field *(COMMA field)` -/
inductive WritesRecord : List Char → List String → Prop
  | last {text : List Char} {cell : String} : WritesCell text cell → WritesRecord text [cell]
  | more {text rest : List Char} {cell : String} {cells : List String} : WritesCell text cell →
      WritesRecord rest cells → WritesRecord (text ++ ',' :: rest) (cell :: cells)

/-- `file = *(record CRLF) [record]`; what is behind the end of the last line is a record only if there is
something. -/
inductive WritesFile : List Char → List (List String) → Prop
  | nil : WritesFile [] []
  | last {text : List Char} {cells : List String} : text ≠ [] → WritesRecord text cells →
      WritesFile text [cells]
  | line {text rest : List Char} {cells : List String} {records : List (List String)} :
      WritesRecord text cells → WritesFile rest records →
      WritesFile (text ++ '\r' :: '\n' :: rest) (cells :: records)

/-! ## A reader -/

/-- Reads what is between quotes; what is left stands behind the quote at the end. -/
def readQuoted? : List Char → Option (List Char × List Char)
  | [] => none
  | '"' :: '"' :: text => (readQuoted? text).map fun (cs, rest) => ('"' :: cs, rest)
  | '"' :: text => some ([], text)
  | c :: text => (readQuoted? text).map fun (cs, rest) => (c :: cs, rest)

/-- Reads a cell. -/
def readCell? : List Char → Option (String × List Char)
  | '"' :: text => (readQuoted? text).map fun (cs, rest) => (String.ofList cs, rest)
  | text => some (String.ofList (text.takeWhile isPlain), text.dropWhile isPlain)

/-- What is read between quotes is written so, and what is left stands behind the quote at the end. -/
theorem readQuoted?_sound {text cs rest : List Char} (h : readQuoted? text = some (cs, rest)) :
    ∃ quoted, WritesQuoted quoted cs ∧ text = quoted ++ '"' :: rest := by
  fun_induction readQuoted? text generalizing cs rest with
  | case1 => cases h
  | case2 text ih =>
    obtain ⟨⟨cs', rest'⟩, hread, h⟩ := Option.map_eq_some_iff.1 h
    obtain ⟨rfl, rfl⟩ := Prod.mk.inj h
    obtain ⟨quoted, hquoted, rfl⟩ := ih hread
    exact ⟨_, .quote hquoted, rfl⟩
  | case3 text _ =>
    obtain ⟨rfl, rfl⟩ := Prod.mk.inj (Option.some.inj h)
    exact ⟨[], .nil, rfl⟩
  | case4 c text _ hc ih =>
    obtain ⟨⟨cs', rest'⟩, hread, h⟩ := Option.map_eq_some_iff.1 h
    obtain ⟨rfl, rfl⟩ := Prod.mk.inj h
    obtain ⟨quoted, hquoted, rfl⟩ := ih hread
    exact ⟨_, .other hc hquoted, rfl⟩

/-- Reading takes what is between quotes, unless one more quote is behind them. -/
theorem readQuoted?_complete {quoted cs : List Char} (h : WritesQuoted quoted cs) {rest : List Char}
    (hrest : rest.head? ≠ some '"') : readQuoted? (quoted ++ '"' :: rest) = some (cs, rest) := by
  induction h with
  | nil =>
    match rest, hrest with
    | [], _ => rfl
    | c :: rest, hrest =>
      have hc : c ≠ '"' := fun heq => hrest (congrArg some heq)
      rw [List.nil_append, readQuoted?]
      exact fun text heq => hc (List.cons.inj heq).1
  | quote _ ih =>
    rw [List.cons_append, List.cons_append, readQuoted?, ih]
    rfl
  | other hc _ ih =>
    rw [List.cons_append, readQuoted?, ih]
    · rfl
    · exact fun text heq => absurd heq hc
    · exact hc

/-- What is read as a cell is written so, and the rest is left. -/
theorem readCell?_sound {text rest : List Char} {cell : String}
    (h : readCell? text = some (cell, rest)) : ∃ w, WritesCell w cell ∧ text = w ++ rest := by
  unfold readCell? at h
  split at h
  · obtain ⟨⟨cs, rest'⟩, hread, h⟩ := Option.map_eq_some_iff.1 h
    obtain ⟨rfl, rfl⟩ := Prod.mk.inj h
    obtain ⟨quoted, hquoted, rfl⟩ := readQuoted?_sound hread
    exact ⟨_, .quoted (by rwa [String.toList_ofList]), by simp⟩
  · obtain ⟨rfl, rfl⟩ := Prod.mk.inj (Option.some.inj h)
    refine ⟨_, .plain fun c hc => ?_, ?_⟩
    · rw [String.toList_ofList] at hc
      exact List.mem_takeWhile_imp hc
    · rw [String.toList_ofList, List.takeWhile_append_dropWhile]

/-- Reading a cell leaves no more than there was. -/
theorem length_of_readCell? {text rest : List Char} {cell : String}
    (h : readCell? text = some (cell, rest)) : rest.length ≤ text.length := by
  obtain ⟨w, -, rfl⟩ := readCell?_sound h
  rw [List.length_append]
  exact Nat.le_add_left _ _

/-- A comma, the end of a line or the end of the text is behind a cell. -/
def EndsCell (rest : List Char) : Prop := ∀ c, rest.head? = some c → c = ',' ∨ c = '\r'

/-- The end of the text ends a cell. -/
theorem endsCell_nil : EndsCell [] := nofun

/-- So does a comma or the end of a line. -/
theorem endsCell_cons {c : Char} (h : c = ',' ∨ c = '\r') (rest : List Char) : EndsCell (c :: rest) := by
  intro d hd
  rw [← Option.some.inj hd]
  exact h

/-- What ends a cell is no quote. -/
theorem EndsCell.head?_ne {rest : List Char} (h : EndsCell rest) : rest.head? ≠ some '"' := by
  intro hhead
  rcases h _ hhead with hc | hc <;> cases hc

/-- Reading takes every cell of the grammar that something ends. -/
theorem readCell?_complete {w rest : List Char} {cell : String} (h : WritesCell w cell)
    (hrest : EndsCell rest) : readCell? (w ++ rest) = some (cell, rest) := by
  cases h with
  | plain hplain =>
    have hhead : ∀ text, cell.toList ++ rest ≠ '"' :: text := by
      intro text heq
      match hcell : cell.toList, heq with
      | [], heq => exact hrest.head?_ne (congrArg List.head? heq)
      | c :: cs, heq =>
        have hc := hplain c (hcell ▸ List.mem_cons_self)
        rw [(List.cons.inj heq).1] at hc
        exact absurd hc (by decide)
    have hstop : rest.takeWhile isPlain = [] ∧ rest.dropWhile isPlain = rest := by
      match rest, hrest with
      | [], _ => exact ⟨rfl, rfl⟩
      | c :: rest, hrest =>
        have hc : isPlain c = false := by
          rcases hrest c rfl with rfl | rfl <;> rfl
        rw [List.takeWhile_cons, List.dropWhile_cons, hc]
        exact ⟨rfl, rfl⟩
    rw [readCell?]
    · rw [List.takeWhile_append_of_pos hplain, List.dropWhile_append_of_pos hplain, hstop.1, hstop.2,
        List.append_nil, String.ofList_toList]
    · exact hhead
  | quoted hquoted =>
    rw [List.cons_append, List.append_assoc, readCell?, List.singleton_append,
      readQuoted?_complete hquoted hrest.head?_ne]
    simp

/-- Reads what is left of a file; `before` are the cells of the record so far. -/
def readRecords? (before : List String) (text : List Char) : Option (List (List String)) :=
  if before = [] ∧ text = [] then some []
  else
    match _h : readCell? text with
    | some (cell, []) => some [before ++ [cell]]
    | some (cell, ',' :: rest) => readRecords? (before ++ [cell]) rest
    | some (cell, '\r' :: '\n' :: rest) => (readRecords? [] rest).map ((before ++ [cell]) :: ·)
    | _ => none
termination_by text.length
decreasing_by
  all_goals
    have hle := length_of_readCell? (by assumption)
    simp only [List.length_cons] at hle
    omega

/-- The records of a text. -/
def read? (text : String) : Option (List (List String)) := readRecords? [] text.toList

/-! ## What the reader reads -/

section

variable {before cells : List String} {w text rest : List Char} {cell : String}
  {records : List (List String)}

/-- The last cell of a text ends the last record. -/
theorem readRecords?_end (h : WritesCell w cell) (hsome : ¬ (before = [] ∧ w = [])) :
    readRecords? before w = some [before ++ [cell]] := by
  have hread := readCell?_complete h endsCell_nil
  rw [List.append_nil] at hread
  rw [readRecords?, if_neg hsome]
  split <;> simp_all

/-- A comma behind a cell leads to the next cell of the record. -/
theorem readRecords?_comma (h : WritesCell w cell) :
    readRecords? before (w ++ ',' :: rest) = readRecords? (before ++ [cell]) rest := by
  have hread := readCell?_complete h (endsCell_cons (.inl rfl) rest)
  rw [readRecords?, if_neg (by simp)]
  split <;> simp_all

/-- The end of a line behind a cell ends the record. -/
theorem readRecords?_line (h : WritesCell w cell) :
    readRecords? before (w ++ '\r' :: '\n' :: rest) =
      (readRecords? [] rest).map ((before ++ [cell]) :: ·) := by
  have hread := readCell?_complete h (endsCell_cons (.inr rfl) ('\n' :: rest))
  rw [readRecords?, if_neg (by simp)]
  split <;> simp_all

/-- A record is read as its cells, with those before it. -/
theorem readRecords?_record (h : WritesRecord w cells) (before : List String) :
    (¬ (before = [] ∧ w = []) → readRecords? before w = some [before ++ cells]) ∧
    ∀ rest, readRecords? before (w ++ '\r' :: '\n' :: rest) =
      (readRecords? [] rest).map ((before ++ cells) :: ·) := by
  induction h generalizing before with
  | last hcell => exact ⟨readRecords?_end hcell, fun _ => readRecords?_line hcell⟩
  | more hcell _ ih =>
    obtain ⟨hend, hline⟩ := ih (before ++ [_])
    rw [List.append_assoc, List.singleton_append] at hend hline
    refine ⟨fun _ => ?_, fun rest => ?_⟩
    · rw [readRecords?_comma hcell, hend (by simp)]
    · rw [List.append_assoc, List.cons_append, readRecords?_comma hcell, hline]

/-- Reading takes every file of the grammar. -/
theorem readRecords?_complete (h : WritesFile text records) : readRecords? [] text = some records := by
  induction h with
  | nil => rw [readRecords?, if_pos ⟨rfl, rfl⟩]
  | last hne hrecord => exact (readRecords?_record hrecord []).1 fun hnil => hne hnil.2
  | line hrecord _ ih =>
    rw [(readRecords?_record hrecord []).2, ih]
    rfl

/-- What is read begins with the record that `before` belongs to, unless there is nothing to read. -/
theorem readRecords?_sound (h : readRecords? before text = some records) :
    before = [] ∧ text = [] ∧ records = [] ∨
    ∃ w cells more, WritesRecord w cells ∧ records = (before ++ cells) :: more ∧
      (text = w ∧ more = [] ∧ ¬ (before = [] ∧ w = []) ∨
        ∃ rest, text = w ++ '\r' :: '\n' :: rest ∧ WritesFile rest more) := by
  fun_induction readRecords? before text generalizing records with
  | case1 before text hnil =>
    obtain ⟨rfl, rfl⟩ := hnil
    exact .inl ⟨rfl, rfl, (Option.some.inj h).symm⟩
  | case2 before text hsome cell hread =>
    obtain ⟨w, hcell, rfl⟩ := readCell?_sound hread
    rw [List.append_nil] at hsome ⊢
    exact .inr ⟨w, [cell], [], .last hcell, (Option.some.inj h).symm, .inl ⟨rfl, rfl, hsome⟩⟩
  | case3 before text hsome cell rest hread ih =>
    obtain ⟨w, hcell, rfl⟩ := readCell?_sound hread
    rcases ih h with ⟨hnil, -⟩ | ⟨w', cells, more, hrecord, hrecords, hend⟩
    · simp at hnil
    refine .inr ⟨w ++ ',' :: w', cell :: cells, more, .more hcell hrecord, by simp [hrecords], ?_⟩
    rcases hend with ⟨rfl, hmore, -⟩ | ⟨rest', rfl, hmore⟩
    · exact .inl ⟨rfl, hmore, by simp⟩
    · exact .inr ⟨rest', by simp, hmore⟩
  | case4 before text hsome cell rest hread ih =>
    obtain ⟨w, hcell, rfl⟩ := readCell?_sound hread
    obtain ⟨more, hmore, rfl⟩ := Option.map_eq_some_iff.1 h
    refine .inr ⟨w, [cell], more, .last hcell, rfl, .inr ⟨rest, rfl, ?_⟩⟩
    rcases ih hmore with ⟨-, rfl, rfl⟩ | ⟨w', cells, more', hrecord, rfl, hend⟩
    · exact .nil
    rcases hend with ⟨rfl, rfl, hne⟩ | ⟨rest', rfl, hrest⟩
    · exact .last (fun hnil => hne ⟨rfl, hnil⟩) hrecord
    · exact .line hrecord hrest
  | case5 => cases h

/-- The reader reads just what the grammar writes, and a text has one reading. -/
theorem read?_eq_some_iff {text : String} : read? text = some records ↔ WritesFile text.toList records := by
  refine ⟨fun h => ?_, readRecords?_complete⟩
  rcases readRecords?_sound h with ⟨-, htext, rfl⟩ | ⟨w, cells, more, hrecord, rfl, hend⟩
  · rw [htext]
    exact .nil
  rcases hend with ⟨htext, rfl, hne⟩ | ⟨rest, htext, hrest⟩
  · rw [htext]
    exact .last (fun hnil => hne ⟨rfl, hnil⟩) hrecord
  · rw [htext]
    exact .line hrecord hrest

end

/-! ## What is written -/

/-- A text with its quotes doubled is one between quotes. -/
theorem writesQuoted_doubleQuotes (cs : List Char) : WritesQuoted (doubleQuotes cs) cs := by
  induction cs with
  | nil => exact .nil
  | cons c cs ih =>
    rw [doubleQuotes, List.flatMap_cons]
    by_cases hc : c = '"'
    · rw [if_pos hc, hc]
      exact .quote ih
    · rw [if_neg hc]
      exact .other hc ih

/-- A cell is written with quotes if it has a character that may not stand without. -/
theorem writesCell_cell (text : String) : WritesCell (cell text).toList text := by
  unfold cell
  split
  · rw [String.toList_ofList]
    exact .quoted (writesQuoted_doubleQuotes text.toList)
  · next h =>
    apply WritesCell.plain
    intro c hc
    have hplain : needsQuotes c = false := by
      by_contra hne
      exact h (List.any_eq_true.2 ⟨c, hc, by simpa using hne⟩)
    unfold needsQuotes at hplain
    unfold isPlain
    simp_all

/-- Cells joined with commas are a record. -/
theorem writesRecord_join {cells : List String} (h : cells ≠ []) :
    WritesRecord (Text.join "," (cells.map cell)).toList cells := by
  induction cells with
  | nil => exact absurd rfl h
  | cons text cells ih =>
    match cells, ih with
    | [], _ => exact .last (writesCell_cell text)
    | next :: cells, ih =>
      rw [List.map_cons, List.map_cons, Text.join_cons_cons, String.toList_append, String.toList_append,
        List.append_assoc]
      exact .more (writesCell_cell text) (ih (List.cons_ne_nil _ _))

/-- The lines of records are a file. -/
theorem writesFile_lines {records : List (List String)} (h : ∀ cells ∈ records, cells ≠ []) :
    WritesFile (String.join (records.map line)).toList records := by
  induction records with
  | nil => exact .nil
  | cons cells records ih =>
    have hcells := writesRecord_join (h cells List.mem_cons_self)
    have hrecords := ih fun cells hmem => h cells (List.mem_cons_of_mem _ hmem)
    have hjoin : (String.join ((cells :: records).map line)).toList =
        (Text.join "," (cells.map cell)).toList ++
          '\r' :: '\n' :: (String.join (records.map line)).toList := by
      simp [String.join_cons, line]
    rw [hjoin]
    exact .line hcells hrecords

end Csv

/-- The text that a table with columns is exported to is read back as the names of the columns and, for
each row, its texts in the order of the columns. No reading of the grammar gives anything else. -/
theorem csv_reads_back (t : Table) (h : t.columns ≠ []) :
    let records := t.columns :: t.rows.map fun r => t.columns.map r.display
    Csv.read? (t.render .csv) = some records ∧
    ∀ other, Csv.WritesFile (t.render .csv).toList other ↔ other = records := by
  intro records
  have hwritten : Csv.WritesFile (t.render .csv).toList records := by
    have hlines : t.render .csv = String.join (records.map Csv.line) := by
      simp [Table.render, Table.toCsv, records, Table.cells, Function.comp_def]
    rw [hlines]
    apply Csv.writesFile_lines
    intro cells hcells
    rcases List.mem_cons.1 hcells with rfl | hcells
    · exact h
    · obtain ⟨r, -, rfl⟩ := List.mem_map.1 hcells
      exact mt List.map_eq_nil_iff.1 h
  have hread := Csv.read?_eq_some_iff.2 hwritten
  refine ⟨hread, fun other => ⟨fun hother => ?_, fun hother => hother ▸ hwritten⟩⟩
  exact Option.some.inj ((Csv.read?_eq_some_iff.2 hother).symm.trans hread)

/-- Cells with everything in them that would end a cell or a record, and an empty line that is one. -/
theorem awkward_cells_read_back :
    let t : Table := ⟨["a,b"], [(Record.ofMessage "").set "a,b" (.string "\r\n\"\r"), Record.ofMessage ""]⟩
    t.columns ≠ [] ∧ t.render .csv = "\"a,b\"\r\n\"\r\n\"\"\r\"\r\n\r\n" ∧
      Csv.read? (t.render .csv) = some [["a,b"], ["\r\n\"\r"], [""]] := by
  intro t
  have hcolumns : t.columns ≠ [] := by decide
  exact ⟨hcolumns, by decide +kernel, (csv_reads_back t hcolumns).1⟩

end LogSearch
