import LogSearch.Pipeline.Aggregation
import LogSearch.Proofs.Partition
import LogSearch.Proofs.Pipeline.Columns
import LogSearch.Proofs.Text.Joining

/-!
# Which rows are grouped together

Rows are grouped by one key, the texts of the columns with separators between them. Each row comes into
one group, and rows with the same texts come into the same one. The converse is what the key does not
give: texts that hold the separator themselves can join to the same key as others.

* `groupByKey_map`: the groups, with what is in them; `together_iff`: who shares a group.
* `RowsParted`: that the groups part the rows.
* `groupKey_separatorRow`, `exists_sharedKey`: rows that no key of two columns tells apart.
* `grouped_by_texts_iff`: by which columns, and for which rows, groups are told by the texts.
-/

namespace LogSearch

/-- Two rows have the same text in each of the columns. -/
def Record.SameTexts (columns : List String) (r s : Record) : Prop :=
  ∀ c ∈ columns, r.display c = s.display c

/-- Two rows are members of one group. -/
def Together (columns : List String) (rows : List Record) (r s : Record) : Prop :=
  ∃ g ∈ groupRows columns rows, r ∈ g.2 ∧ s ∈ g.2

/-- Rows with the same texts have the same key. -/
theorem groupKey_congr {columns : List String} {r s : Record} (h : r.SameTexts columns s) :
    groupKey columns r = groupKey columns s := by
  unfold groupKey
  rw [List.map_congr_left h]

/-! ## The groups -/

/-- Items under the keys that they have. -/
theorem groupByKey_map {α : Type} (key : α → String) (as : List α) :
    groupByKey (as.map fun a => (key a, a)) =
      (as.map key).eraseDups.map fun k => (k, as.filter fun a => key a = k) := by
  unfold groupByKey
  rw [List.map_map]
  apply List.map_congr_left
  intro k _
  rw [List.filter_map, List.map_map]
  congr 1
  exact List.map_id _

/-- The groups of rows are their keys, each once, with the rows that have them. -/
theorem groupRows_eq (columns : List String) (rows : List Record) :
    groupRows columns rows = (rows.map (groupKey columns)).eraseDups.map fun k =>
      (k, rows.filter fun r => groupKey columns r = k) :=
  groupByKey_map (groupKey columns) rows

section

variable {columns : List String} {rows : List Record} {r s : Record}

/-- A group has a key that some row has, and all rows with that key. -/
theorem mem_groupRows_iff {g : String × List Record} : g ∈ groupRows columns rows ↔
    (∃ r ∈ rows, groupKey columns r = g.1) ∧ g.2 = rows.filter fun r => groupKey columns r = g.1 := by
  rw [groupRows_eq, List.mem_map]
  constructor
  · rintro ⟨k, hk, rfl⟩
    exact ⟨List.mem_map.1 (List.mem_eraseDups.1 hk), rfl⟩
  · rintro ⟨hkey, hmembers⟩
    exact ⟨g.1, List.mem_eraseDups.2 (List.mem_map.2 hkey), Prod.ext rfl hmembers.symm⟩

/-- The members of a group are the rows with its key. -/
theorem mem_members_iff {g : String × List Record} (hg : g ∈ groupRows columns rows) :
    r ∈ g.2 ↔ r ∈ rows ∧ groupKey columns r = g.1 := by
  rw [(mem_groupRows_iff.1 hg).2, List.mem_filter, decide_eq_true_iff]

/-- Rows share a group if they share its key. -/
theorem together_iff (hr : r ∈ rows) (hs : s ∈ rows) :
    Together columns rows r s ↔ groupKey columns r = groupKey columns s := by
  constructor
  · rintro ⟨g, hg, hrg, hsg⟩
    exact ((mem_members_iff hg).1 hrg).2.trans ((mem_members_iff hg).1 hsg).2.symm
  · intro hkey
    have hg : (groupKey columns r, rows.filter fun q => groupKey columns q = groupKey columns r) ∈
        groupRows columns rows := mem_groupRows_iff.2 ⟨⟨r, hr, rfl⟩, rfl⟩
    exact ⟨_, hg, (mem_members_iff hg).2 ⟨hr, rfl⟩, (mem_members_iff hg).2 ⟨hs, hkey.symm⟩⟩

end

/-- The groups part the rows: they stand in the order in which their keys appear first, each has its
members in order and is not empty, and together they have each row, which is a member of just one. -/
structure RowsParted (columns : List String) (rows : List Record)
    (groups : List (String × List Record)) : Prop where
  ordered : groups.Pairwise fun g h =>
    (rows.map (groupKey columns)).idxOf g.1 < (rows.map (groupKey columns)).idxOf h.1
  members : ∀ g ∈ groups, g.2 ≠ [] ∧ g.2 = rows.filter fun r => groupKey columns r = g.1
  all : (groups.flatMap Prod.snd).Perm rows
  once : ∀ r ∈ rows, ∃! g, g ∈ groups ∧ r ∈ g.2

/-- The groups part the rows. -/
theorem rowsParted_groupRows (columns : List String) (rows : List Record) :
    RowsParted columns rows (groupRows columns rows) where
  ordered := by
    rw [groupRows_eq]
    exact List.pairwise_map.2 (pairwise_idxOf_eraseDups _)
  members := by
    intro g hg
    obtain ⟨⟨r, hr, hkey⟩, hmembers⟩ := mem_groupRows_iff.1 hg
    exact ⟨List.ne_nil_of_mem ((mem_members_iff hg).2 ⟨hr, hkey⟩), hmembers⟩
  all := by
    have hkeys : ∀ r ∈ rows, decide (groupKey columns r ∈ (rows.map (groupKey columns)).eraseDups) = true :=
      fun r hr => decide_eq_true (List.mem_eraseDups.2 (List.mem_map_of_mem hr))
    have hperm := flatMap_filter_perm (groupKey columns)
      (nodup_eraseDups (rows.map (groupKey columns))) rows
    rw [List.filter_eq_self.2 hkeys] at hperm
    rw [groupRows_eq, List.flatMap_map]
    exact hperm
  once := by
    intro r hr
    have hown : Together columns rows r r := (together_iff hr hr).2 rfl
    obtain ⟨g, hg, hrg, -⟩ := hown
    refine ⟨g, ⟨hg, hrg⟩, ?_⟩
    rintro h ⟨hh, hrh⟩
    have hkey : h.1 = g.1 := ((mem_members_iff hh).1 hrh).2.symm.trans ((mem_members_iff hg).1 hrg).2
    apply Prod.ext hkey
    rw [(mem_groupRows_iff.1 hh).2, (mem_groupRows_iff.1 hg).2, hkey]

/-! ## Rows that a key does not tell apart -/

/-- A row with separators in one column and nothing else. -/
def separatorRow (column : String) (n : Nat) : Record :=
  (Record.ofMessage "").set column (.string (Text.separators n))

/-- A row of separators shows them in one column and nothing in the others. -/
theorem display_separatorRow (column : String) (n : Nat) (other : String) :
    (separatorRow column n).display other = Text.separators (if column = other then n else 0) := by
  unfold separatorRow Record.display
  rw [Record.get?_set]
  split
  · rfl
  · rfl

/-- A number for each occurrence of a column adds up to their product. -/
theorem sum_map_ite (column : String) (n : Nat) (columns : List String) :
    (columns.map fun c => if column = c then n else 0).sum = n * columns.count column := by
  induction columns with
  | nil => rfl
  | cons c columns ih =>
    rw [List.map_cons, List.sum_cons, ih, List.count_cons]
    by_cases h : column = c
    · rw [if_pos h, if_pos (beq_iff_eq.2 h.symm), Nat.mul_add, Nat.mul_one, Nat.add_comm]
    · rw [if_neg h, if_neg fun heq => h (beq_iff_eq.1 heq).symm, Nat.zero_add, Nat.add_zero]

/-- The key shows how many separators there are, and not in which column they are. -/
theorem groupKey_separatorRow (columns : List String) (column : String) (n : Nat) :
    groupKey columns (separatorRow column n) =
      Text.separators (n * columns.count column + (columns.length - 1)) := by
  have htexts : columns.map (separatorRow column n).display =
      (columns.map fun c => if column = c then n else 0).map Text.separators := by
    rw [List.map_map]
    exact List.map_congr_left fun c _ => display_separatorRow column n c
  unfold groupKey
  rw [htexts, Text.join_separators, sum_map_ite, List.length_map]

/-- For two different columns, whatever stands beside them, some rows share a key and not the texts. -/
theorem exists_sharedKey {columns : List String} {c d : String} (hc : c ∈ columns) (hd : d ∈ columns)
    (hne : c ≠ d) :
    ∃ r s : Record, groupKey columns r = groupKey columns s ∧ ¬ r.SameTexts columns s := by
  -- Each row has in its column as many separators as there are places of the other column, so that
  -- both keys come to the same number of them.
  refine ⟨separatorRow c (columns.count d), separatorRow d (columns.count c), ?_, fun h => ?_⟩
  · rw [groupKey_separatorRow, groupKey_separatorRow, Nat.mul_comm]
  · have htext := h c hc
    rw [display_separatorRow, display_separatorRow, if_pos rfl, if_neg hne.symm] at htext
    have hcount := Text.separators_eq_empty_iff.1 htext
    exact absurd hd (List.count_eq_zero.1 hcount)

/-- The key tells the texts if none of them but that of the last column holds a separator. -/
theorem sameTexts_of_groupKey_eq {columns : List String} {r s : Record}
    (hr : ∀ c ∈ columns.dropLast, Text.contains (r.display c) ", " = false)
    (hs : ∀ c ∈ columns.dropLast, Text.contains (s.display c) ", " = false)
    (h : groupKey columns r = groupKey columns s) : r.SameTexts columns s := by
  have hfree : ∀ q : Record, (∀ c ∈ columns.dropLast, Text.contains (q.display c) ", " = false) →
      ∀ text ∈ (columns.map q.display).dropLast, Text.contains text ", " = false := by
    intro q hq text htext
    rw [← List.map_dropLast] at htext
    obtain ⟨c, hc, rfl⟩ := List.mem_map.1 htext
    exact hq c hc
  have htexts : columns.map r.display = columns.map s.display := by
    apply Text.eq_of_join_eq _ (hfree r hr) (hfree s hs) h
    rw [List.length_map, List.length_map]
  exact List.map_inj_left.1 htexts

/-- The text of one column, however often it is named, is told by the key. -/
theorem sameTexts_of_one_column {columns : List String} (hone : ∀ c ∈ columns, ∀ d ∈ columns, c = d)
    {r s : Record} (h : groupKey columns r = groupKey columns s) : r.SameTexts columns s := by
  intro c hc
  obtain ⟨n, hn⟩ := Nat.exists_eq_add_one_of_ne_zero (List.length_pos_of_mem hc).ne'
  have htexts : ∀ q : Record, columns.map q.display = List.replicate (n + 1) (q.display c) := by
    intro q
    refine List.eq_replicate_iff.2 ⟨by rw [List.length_map, hn], fun text htext => ?_⟩
    obtain ⟨d, hd, rfl⟩ := List.mem_map.1 htext
    rw [hone d hd c hc]
  unfold groupKey at h
  rw [htexts r, htexts s] at h
  exact Text.eq_of_join_replicate h

/-- Grouping parts the rows, and rows with the same texts share a group. That rows which share a group
have the same texts holds for all rows just where there are no two different columns; and it holds
where no text holds a separator, those of the last column apart. -/
theorem grouped_by_texts_iff (columns : List String) :
    (∀ rows, RowsParted columns rows (groupRows columns rows)) ∧
    (∀ rows, ∀ r ∈ rows, ∀ s ∈ rows, r.SameTexts columns s → Together columns rows r s) ∧
    ((∀ rows, ∀ r ∈ rows, ∀ s ∈ rows, Together columns rows r s ↔ r.SameTexts columns s) ↔
      ∀ c ∈ columns, ∀ d ∈ columns, c = d) ∧
    (∀ rows : List Record,
      (∀ r ∈ rows, ∀ c ∈ columns.dropLast, Text.contains (r.display c) ", " = false) →
      ∀ r ∈ rows, ∀ s ∈ rows, Together columns rows r s ↔ r.SameTexts columns s) := by
  have hshare : ∀ rows, ∀ r ∈ rows, ∀ s ∈ rows, r.SameTexts columns s → Together columns rows r s :=
    fun rows r hr s hs h => (together_iff hr hs).2 (groupKey_congr h)
  refine ⟨rowsParted_groupRows columns, hshare, ⟨fun h c hc d hd => ?_, fun h => ?_⟩, ?_⟩
  · by_contra hne
    obtain ⟨r, s, hkey, htexts⟩ := exists_sharedKey hc hd hne
    have hr : r ∈ [r, s] := List.mem_cons_self
    have hs : s ∈ [r, s] := List.mem_cons_of_mem _ List.mem_cons_self
    exact htexts ((h [r, s] r hr s hs).1 ((together_iff hr hs).2 hkey))
  · intro rows r hr s hs
    refine ⟨fun htogether => ?_, hshare rows r hr s hs⟩
    exact sameTexts_of_one_column h ((together_iff hr hs).1 htogether)
  · intro rows hfree r hr s hs
    refine ⟨fun htogether => ?_, hshare rows r hr s hs⟩
    exact sameTexts_of_groupKey_eq (hfree r hr) (hfree s hs) ((together_iff hr hs).1 htogether)

/-- A comma that moves from one text to the next leaves the key as it is. -/
theorem comma_rows_share_group :
    let r : Record := ⟨[("a", .string "x, y"), ("b", .string "z")], ""⟩
    let s : Record := ⟨[("a", .string "x"), ("b", .string "y, z")], ""⟩
    Together ["a", "b"] [r, s] r s ∧ ¬ r.SameTexts ["a", "b"] s := by
  intro r s
  constructor
  · refine ⟨("x, y, z", [r, s]), ?_, List.mem_cons_self, List.mem_cons_of_mem _ List.mem_cons_self⟩
    exact List.mem_singleton.2 rfl
  · intro h
    exact absurd (h "a" List.mem_cons_self) (by decide)

end LogSearch
