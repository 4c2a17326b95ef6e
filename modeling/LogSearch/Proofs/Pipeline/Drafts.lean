import LogSearch.Pipeline.Draft
import LogSearch.Proofs.Sorting
import Mathlib.Data.Finset.Card
import Mathlib.Data.List.TakeDrop

/-!
# What a draft writes

A draft sorts its patches by row and writes those to one row to a copy of it. The sort is stable, so that
each row gets the writes to it in the order in which they were noted, and rows that nothing is written to
stay the objects that they were.

* `RowDraft.writes`: the writes to one row.
* `RowDraft.getElem?_writeRuns`, `RowDraft.object_lt_writeRuns`: what a commit makes of each row.
* `RowDraft.commit_eq`: committing a draft, row by row.
* `editRows_eq_map`: editing rows is writing to each of them what the edit gives for it.
* `RowDraft.patchedRows_eq`: how many rows are written to.
* `RowDraft.noted_eq`: what a draft notes of some writes.
* `RowDraft.commit_in_turn`: committing a draft is writing in place, to copies, in turn.
-/

namespace LogSearch

namespace RowDraft

/-- The writes of patches to one row. -/
def writes (patches : List Patch) (row : Nat) : List (String × Field) :=
  (patches.filter fun p => p.row = row).map Patch.write

/-- The writes of patches to a row are those of the first ones and those of the others. -/
theorem writes_append (patches more : List Patch) (row : Nat) :
    writes (patches ++ more) row = writes patches row ++ writes more row := by
  simp [writes]

/-- A row has no writes if no patch is for it. -/
theorem writes_eq_nil_iff {patches : List Patch} {row : Nat} :
    writes patches row = [] ↔ ∀ p ∈ patches, p.row ≠ row := by
  rw [writes, List.map_eq_nil_iff, List.filter_eq_nil_iff]
  simp only [decide_eq_true_eq, ne_eq]

/-- Leaving out patches of other rows leaves the writes to a row. -/
theorem writes_filter {patches : List Patch} {row : Nat} {keep : Patch → Bool}
    (h : ∀ p, p.row = row → keep p = true) : writes (patches.filter keep) row = writes patches row := by
  unfold writes
  rw [List.filter_filter]
  congr 1
  apply List.filter_congr
  intro p _
  by_cases hp : p.row = row
  · rw [decide_eq_true hp, h p hp]
    rfl
  · rw [decide_eq_false hp]
    rfl

/-! ## Runs of patches -/

/-- Patches are in the order of their rows. -/
def Ordered (patches : List Patch) : Prop := patches.Pairwise fun p q => p.row ≤ q.row

section

variable {first : Patch} {rest : List Patch}

/-- Of patches in the order of their rows, those to the first row are at the front. -/
theorem run_eq_filter (h : Ordered (first :: rest)) :
    first :: rest.takeWhile (fun p => p.row = first.row) =
        (first :: rest).filter (fun p => p.row = first.row) ∧
      rest.dropWhile (fun p => p.row = first.row) =
        (first :: rest).filter (fun p => p.row ≠ first.row) := by
  obtain ⟨hfirst, hrest⟩ := List.pairwise_cons.1 h
  have hsplit : ∀ patches : List Patch, Ordered patches → (∀ p ∈ patches, first.row ≤ p.row) →
      patches.takeWhile (fun p => p.row = first.row) = patches.filter (fun p => p.row = first.row) ∧
      patches.dropWhile (fun p => p.row = first.row) = patches.filter fun p => p.row ≠ first.row := by
    intro patches hordered hrow
    induction patches with
    | nil => exact ⟨rfl, rfl⟩
    | cons p patches ih =>
      obtain ⟨hp, hpatches⟩ := List.pairwise_cons.1 hordered
      by_cases heq : p.row = first.row
      · simpa [heq] using ih hpatches fun q hq => hrow q (List.mem_cons_of_mem _ hq)
      · have hlater : ∀ q ∈ patches, q.row ≠ first.row := by
          intro q hq
          have hle := hrow p List.mem_cons_self
          have hnext := hp q hq
          omega
        have hnone : patches.filter (fun q => q.row = first.row) = [] :=
          List.filter_eq_nil_iff.2 fun q hq => by simpa using hlater q hq
        have hall : patches.filter (fun q => !decide (q.row = first.row)) = patches :=
          List.filter_eq_self.2 fun q hq => by simpa using hlater q hq
        simp [heq, hnone, hall]
  obtain ⟨hown, hothers⟩ := hsplit rest hrest hfirst
  rw [hown, hothers]
  simp

/-- Patches of later rows stay in order. -/
theorem ordered_others (h : Ordered (first :: rest)) :
    Ordered ((first :: rest).filter fun p => p.row ≠ first.row) := h.filter _

/-- The patches behind the first run are to later rows. -/
theorem row_lt_of_mem_others (h : Ordered (first :: rest)) :
    ∀ p ∈ (first :: rest).filter (fun p => p.row ≠ first.row), first.row < p.row := by
  intro p hp
  obtain ⟨hmem, hne⟩ := List.mem_filter.1 hp
  rcases List.mem_cons.1 hmem with rfl | hmem
  · exact absurd rfl (of_decide_eq_true hne)
  · have hle := List.rel_of_pairwise_cons h hmem
    have hne := of_decide_eq_true hne
    omega

/-- The first run goes to a copy of its row, the other patches to what is then there. -/
theorem writeRuns_cons (h : Ordered (first :: rest)) (next : Nat) (rows : Array SharedRow) :
    writeRuns next rows (first :: rest) =
      writeRuns (next + 1)
        (rows.modify first.row fun s => s.copy next (writes (first :: rest) first.row))
        ((first :: rest).filter fun p => p.row ≠ first.row) := by
  obtain ⟨hown, hothers⟩ := run_eq_filter h
  rw [writeRuns, hown, hothers]
  rfl

end

/-- A proof about patches in the order of their rows goes run by run. -/
theorem Ordered.induction {motive : (patches : List Patch) → Ordered patches → Prop}
    (nil : motive [] List.Pairwise.nil)
    (run : ∀ first rest (h : Ordered (first :: rest)),
      motive ((first :: rest).filter fun p => p.row ≠ first.row) (ordered_others h) →
      motive (first :: rest) h)
    (patches : List Patch) (h : Ordered patches) : motive patches h := by
  induction hlength : patches.length using Nat.strong_induction_on generalizing patches with
  | _ n ih =>
    match patches, h with
    | [], _ => exact nil
    | first :: rest, h =>
      apply run first rest h
      refine ih _ ?_ _ (ordered_others h) rfl
      rw [← hlength]
      exact List.length_filter_lt_length_iff_exists.2 ⟨first, List.mem_cons_self, by simp⟩

/-- A row that nothing is written to stays the object that it is, and another one becomes a copy with
the writes to it, whose number is that of no earlier copy. -/
theorem getElem?_writeRuns {patches : List Patch} (h : Ordered patches) (next : Nat)
    (rows : Array SharedRow) (i : Nat) :
    (writes patches i = [] → (writeRuns next rows patches)[i]? = rows[i]?) ∧
    (writes patches i ≠ [] → ∃ object, next ≤ object ∧
      (writeRuns next rows patches)[i]? = rows[i]?.map fun s => s.copy object (writes patches i)) := by
  induction patches, h using Ordered.induction generalizing next rows with
  | nil => exact ⟨fun _ => by rw [writeRuns], fun hne => absurd rfl hne⟩
  | run first rest h ih =>
    rw [writeRuns_cons h]
    obtain ⟨hkept, hcopied⟩ := ih (next + 1)
      (rows.modify first.row fun s => s.copy next (writes (first :: rest) first.row))
    by_cases hi : first.row = i
    · -- No later run is to the row of the first one.
      have hnone : writes ((first :: rest).filter fun p => p.row ≠ first.row) i = [] :=
        writes_eq_nil_iff.2 fun p hp => hi ▸ (row_lt_of_mem_others h p hp).ne'
      have hsome : writes (first :: rest) i ≠ [] := fun hnil =>
        writes_eq_nil_iff.1 hnil first List.mem_cons_self hi
      refine ⟨fun hnil => absurd hnil hsome, fun _ => ⟨next, Nat.le_refl _, ?_⟩⟩
      rw [hkept hnone, Array.getElem?_modify, if_pos hi, hi]
    · have hsame : writes ((first :: rest).filter fun p => p.row ≠ first.row) i =
          writes (first :: rest) i := by
        apply writes_filter
        intro p hp
        exact decide_eq_true (hp ▸ Ne.symm hi)
      rw [hsame, Array.getElem?_modify, if_neg hi] at hkept hcopied
      refine ⟨hkept, fun hne => ?_⟩
      obtain ⟨object, hle, hcopy⟩ := hcopied hne
      exact ⟨object, by omega, hcopy⟩

/-- Of two rows that are written to, the copy of the later one has the higher number. -/
theorem object_lt_writeRuns {patches : List Patch} (h : Ordered patches) (next : Nat)
    (rows : Array SharedRow) {i j : Nat} (hij : i < j) (hi : writes patches i ≠ [])
    (hj : writes patches j ≠ []) {s t : SharedRow} (hs : (writeRuns next rows patches)[i]? = some s)
    (ht : (writeRuns next rows patches)[j]? = some t) : s.object < t.object := by
  induction patches, h using Ordered.induction generalizing next rows with
  | nil => exact absurd rfl hi
  | run first rest h ih =>
    rw [writeRuns_cons h] at hs ht
    have hothers : ∀ k, first.row ≠ k → writes ((first :: rest).filter fun p => p.row ≠ first.row) k =
        writes (first :: rest) k := by
      intro k hk
      apply writes_filter
      intro p hp
      exact decide_eq_true (hp ▸ Ne.symm hk)
    have hfirst : first.row ≤ i := by
      by_contra hlt
      apply hi
      apply writes_eq_nil_iff.2
      intro p hp heq
      rcases List.mem_cons.1 hp with rfl | hp
      · omega
      · have hle := List.rel_of_pairwise_cons h hp
        omega
    have hj' : writes ((first :: rest).filter fun p => p.row ≠ first.row) j ≠ [] := by
      rw [hothers j (by omega)]
      exact hj
    by_cases heq : first.row = i
    · -- The first copy is that of the row `i`, and the number of the other one is a later number.
      have hnone : writes ((first :: rest).filter fun p => p.row ≠ first.row) i = [] :=
        writes_eq_nil_iff.2 fun p hp => heq ▸ (row_lt_of_mem_others h p hp).ne'
      rw [(getElem?_writeRuns (ordered_others h) _ _ i).1 hnone, Array.getElem?_modify, if_pos heq,
        Option.map_eq_some_iff] at hs
      obtain ⟨object, hle, hcopy⟩ := (getElem?_writeRuns (ordered_others h) (next + 1) _ j).2 hj'
      rw [hcopy, Option.map_eq_some_iff] at ht
      obtain ⟨s', -, rfl⟩ := hs
      obtain ⟨t', -, rfl⟩ := ht
      exact hle
    · exact ih _ _ (by rw [hothers i heq]; exact hi) hj' hs ht

/-! ## Committing -/

/-- The patches of a draft in the order of their rows. -/
theorem ordered_sorted (patches : List Patch) :
    Ordered (patches.mergeSort fun p q => p.row ≤ q.row) ∧
    ∀ row, writes (patches.mergeSort fun p q => p.row ≤ q.row) row = writes patches row := by
  have htrans := trans_decide (r := fun p q : Patch => p.row ≤ q.row) fun _ _ _ => Nat.le_trans
  have htotal := total_decide (r := fun p q : Patch => p.row ≤ q.row) fun p q =>
    Nat.le_total p.row q.row
  refine ⟨(List.pairwise_mergeSort htrans htotal patches).imp of_decide_eq_true, fun row => ?_⟩
  unfold writes
  rw [filter_mergeSort htrans htotal fun p q hp hq => ?_]
  rw [of_decide_eq_true hp, of_decide_eq_true hq]
  exact decide_eq_true (Nat.le_refl row)

/-- No object has the number of a copy. -/
theorem object_lt_firstCopy {d : RowDraft} {s : SharedRow} (h : s ∈ d.shared) :
    s.object < d.firstCopy := by
  have hall : ∀ rows : List SharedRow, s ∈ rows →
      s.object < rows.foldr (fun s n => max (s.object + 1) n) 0 := by
    intro rows hs
    induction rows with
    | nil => exact absurd hs List.not_mem_nil
    | cons t rows ih =>
      rw [List.foldr_cons, lt_max_iff]
      rcases List.mem_cons.1 hs with rfl | hs
      · exact .inl (Nat.lt_succ_self _)
      · exact .inr (ih hs)
  exact hall d.shared h

/-- What stands in the place of a row behind a commit. -/
theorem getElem?_commitShared (d : RowDraft) (i : Nat) :
    (writes d.patches i = [] → d.commitShared[i]? = d.shared[i]?) ∧
    (writes d.patches i ≠ [] → ∃ object, d.firstCopy ≤ object ∧
      d.commitShared[i]? = d.shared[i]?.map fun s => s.copy object (writes d.patches i)) := by
  obtain ⟨hordered, hwrites⟩ := ordered_sorted d.patches
  have hruns := getElem?_writeRuns hordered d.firstCopy d.shared.toArray i
  rw [hwrites] at hruns
  simp only [← Array.getElem?_toList] at hruns
  exact hruns

/-- Each row that is written to becomes an object of its own. -/
theorem object_lt_commitShared (d : RowDraft) {i j : Nat} (hij : i < j)
    (hi : writes d.patches i ≠ []) (hj : writes d.patches j ≠ []) {s t : SharedRow}
    (hs : d.commitShared[i]? = some s) (ht : d.commitShared[j]? = some t) : s.object < t.object := by
  obtain ⟨hordered, hwrites⟩ := ordered_sorted d.patches
  unfold commitShared at hs ht
  rw [Array.getElem?_toList] at hs ht
  rw [← hwrites] at hi hj
  exact object_lt_writeRuns hordered _ _ hij hi hj hs ht

/-- A commit writes to each row what was noted for it, in that order. -/
theorem getElem?_commit (d : RowDraft) (i : Nat) :
    d.commit[i]? = d.base[i]?.map fun r => r.setAll (writes d.patches i) := by
  obtain ⟨hkept, hcopied⟩ := getElem?_commitShared d i
  unfold commit base
  rw [List.getElem?_map, List.getElem?_map, Option.map_map]
  by_cases h : writes d.patches i = []
  · rw [hkept h, h]
    rfl
  · obtain ⟨object, -, hcopy⟩ := hcopied h
    rw [hcopy, Option.map_map]
    rfl

/-- Committing a draft writes to each row what was noted for it, in that order. -/
theorem commit_eq (d : RowDraft) :
    d.commit = d.base.zipIdx.map fun (r, row) => r.setAll (writes d.patches row) := by
  apply List.ext_getElem?
  intro i
  rw [getElem?_commit, List.getElem?_map, List.getElem?_zipIdx, Option.map_map, Nat.zero_add]
  rfl

end RowDraft

/-! ## Edits -/

/-- Shared rows are the rows. -/
theorem SharedRow.map_record_ofRows (rows : List Record) :
    (SharedRow.ofRows rows).map SharedRow.record = rows := by
  rw [SharedRow.ofRows, List.map_map]
  exact List.zipIdx_map_fst 0 rows

/-- The patches of an edit, row by row, hold for each row the writes that the edit gives. -/
theorem writes_edit (edit : Record → List (String × Field)) {rows : List Record} {start row : Nat}
    {r : Record} (h : (r, row) ∈ rows.zipIdx start) :
    RowDraft.writes ((rows.zipIdx start).flatMap fun (r, row) =>
      (edit r).map fun (column, value) => (⟨row, column, value⟩ : Patch)) row = edit r := by
  have hown : ∀ (s : Record) (i : Nat), RowDraft.writes
      ((edit s).map fun (column, value) => (⟨i, column, value⟩ : Patch)) i = edit s := by
    intro s i
    simp [RowDraft.writes, List.filter_map, Function.comp_def, Patch.write]
  induction rows generalizing start with
  | nil => exact absurd h List.not_mem_nil
  | cons s rows ih =>
    rw [List.zipIdx_cons] at h
    rw [List.zipIdx_cons, List.flatMap_cons, RowDraft.writes_append]
    rcases List.mem_cons.1 h with heq | hmem
    · obtain ⟨rfl, rfl⟩ := Prod.mk.inj heq
      rw [hown, RowDraft.writes_eq_nil_iff.2, List.append_nil]
      intro p hp
      obtain ⟨⟨s, i⟩, hi, hp⟩ := List.mem_flatMap.1 hp
      obtain ⟨w, -, rfl⟩ := List.mem_map.1 hp
      have hlt : row + 1 ≤ i := List.le_snd_of_mem_zipIdx hi
      dsimp only
      omega
    · rw [ih hmem, RowDraft.writes_eq_nil_iff.2, List.nil_append]
      intro p hp
      obtain ⟨w, -, rfl⟩ := List.mem_map.1 hp
      have hlt : start + 1 ≤ row := List.le_snd_of_mem_zipIdx hmem
      dsimp only
      omega

/-- Editing rows is writing to each of them what the edit gives for it. -/
theorem editRows_eq_map (edit : Record → List (String × Field)) (rows : List Record) :
    editRows edit rows = rows.map fun r => r.setAll (edit r) := by
  rw [editRows, RowDraft.commit_eq, RowDraft.base, SharedRow.map_record_ofRows]
  refine (List.map_congr_left (g := (fun r => r.setAll (edit r)) ∘ Prod.fst)
    fun (r, row) hr => congrArg r.setAll (writes_edit edit hr)).trans ?_
  rw [← List.map_map, List.zipIdx_map_fst]

/-! ## Writing in turn -/

/-- Writes a patch in its place; there is nothing to write to behind the rows. -/
def Patch.apply (rows : List Record) (p : Patch) : List Record :=
  rows.modify p.row fun r => r.set p.column p.value

/-- Patches one after the other write to each row what they have for it. -/
theorem Patch.getElem?_foldl_apply (patches : List Patch) (rows : List Record) (i : Nat) :
    (patches.foldl Patch.apply rows)[i]? =
      rows[i]?.map fun r => r.setAll (RowDraft.writes patches i) := by
  induction patches generalizing rows with
  | nil =>
    symm
    exact Option.map_id'
  | cons p patches ih =>
    rw [List.foldl_cons, ih, Patch.apply, List.getElem?_modify]
    by_cases hp : p.row = i
    · have hwrites : RowDraft.writes (p :: patches) i = p.write :: RowDraft.writes patches i := by
        simp [RowDraft.writes, hp]
      simp [hwrites, hp, Function.comp_def, Record.setAll, Patch.write]
    · have hwrites : RowDraft.writes (p :: patches) i = RowDraft.writes patches i := by
        simp [RowDraft.writes, hp]
      simp [hwrites, hp]

namespace RowDraft

/-! ## How many rows are written to -/

/-- What was collected before goes in front, when repetitions are dropped. -/
theorem eraseReps_loop (a : Nat) (as read : List Nat) :
    List.eraseRepsBy.loop (· == ·) a as read =
      read.reverse ++ List.eraseRepsBy.loop (· == ·) a as [] := by
  induction as generalizing a read with
  | nil => simp [List.eraseRepsBy.loop]
  | cons b as ih =>
    unfold List.eraseRepsBy.loop
    cases a == b with
    | true => exact ih a read
    | false =>
      dsimp only
      rw [ih b (a :: read), ih b [a]]
      simp

/-- An item is dropped if the next one is the same. -/
theorem eraseReps_cons (a : Nat) (as : List Nat) :
    (a :: as).eraseReps = if as.head? = some a then as.eraseReps else a :: as.eraseReps := by
  cases as with
  | nil => rfl
  | cons b as =>
    show List.eraseRepsBy.loop (· == ·) a (b :: as) [] =
      if some b = some a then List.eraseRepsBy.loop (· == ·) b as []
      else a :: List.eraseRepsBy.loop (· == ·) b as []
    rw [List.eraseRepsBy.loop]
    by_cases hab : a = b
    · subst hab
      simp
    · rw [beq_false_of_ne hab, if_neg fun heq => hab (Option.some.inj heq).symm]
      exact eraseReps_loop b as [a]

/-- Without repetitions numbers in order are different numbers. -/
theorem eraseReps_spec {as : List Nat} (h : as.Pairwise (· ≤ ·)) :
    as.eraseReps.Pairwise (· < ·) ∧ ∀ a, a ∈ as.eraseReps ↔ a ∈ as := by
  induction as with
  | nil => exact ⟨List.Pairwise.nil, fun _ => Iff.rfl⟩
  | cons a as ih =>
    obtain ⟨ha, has⟩ := List.pairwise_cons.1 h
    obtain ⟨hlt, hmem⟩ := ih has
    rw [eraseReps_cons]
    split
    · next hhead =>
      refine ⟨hlt, fun b => ?_⟩
      rw [hmem, List.mem_cons, iff_or_self]
      rintro rfl
      exact List.mem_of_mem_head? hhead
    · next hhead =>
      refine ⟨List.pairwise_cons.2 ⟨fun b hb => ?_, hlt⟩, fun b => ?_⟩
      · -- The numbers are in order, so that one equal to `a` would stand right behind it.
        apply Nat.lt_of_le_of_ne (ha b ((hmem b).1 hb))
        rintro rfl
        match as, ha, has, hb, hhead with
        | c :: as, ha, has, hb, hhead =>
          have hac := ha c List.mem_cons_self
          rcases List.mem_cons.1 ((hmem a).1 hb) with rfl | hb'
          · exact hhead rfl
          · have hca := List.rel_of_pairwise_cons has hb'
            exact hhead (congrArg some (Nat.le_antisymm hca hac))
      · rw [List.mem_cons, List.mem_cons, hmem]

/-- A row counts as patched if a patch is for it. -/
theorem isPatched_iff {d : RowDraft} {row : Nat} :
    d.isPatched row = true ↔ ∃ p ∈ d.patches, p.row = row := by
  rw [isPatched, List.any_eq_true]
  simp only [decide_eq_true_eq]

/-- The rows that are written to are counted once each. -/
theorem patchedRows_eq (d : RowDraft) : d.patchedRows = (d.patches.map Patch.row).toFinset.card := by
  have htrans := trans_decide (r := fun a b : Nat => a ≤ b) fun _ _ _ => Nat.le_trans
  have htotal := total_decide (r := fun a b : Nat => a ≤ b) Nat.le_total
  have hsorted := (List.pairwise_mergeSort htrans htotal (d.patches.map Patch.row)).imp of_decide_eq_true
  obtain ⟨hlt, hmem⟩ := eraseReps_spec hsorted
  rw [patchedRows, ← List.toFinset_card_of_nodup (hlt.imp Nat.ne_of_lt)]
  congr 1
  ext row
  rw [List.mem_toFinset, List.mem_toFinset, hmem, List.mem_mergeSort]

/-! ## A draft with writes noted -/

/-- A draft on which some writes have been noted, one after the other. -/
def noted (rows : List SharedRow) (writes : List Patch) : RowDraft :=
  writes.foldl (fun d w => d.set w.row w.column w.value) (ofShared rows)

/-- Setting a field leaves the shared rows. -/
theorem shared_set (d : RowDraft) (row : Nat) (column : String) (value : Field) :
    (d.set row column value).shared = d.shared := by
  unfold set
  split <;> rfl

/-- Setting a field notes a patch, if the row is there. -/
theorem patches_set (d : RowDraft) (w : Patch) : (d.set w.row w.column w.value).patches =
    d.patches ++ [w].filter fun p => p.row < d.shared.length := by
  unfold set
  split
  · next h => simp [h]
  · next h => simp [h]

/-- A draft has the objects that it was made of, and notes the writes to rows that are there. -/
theorem noted_eq (rows : List SharedRow) (writes : List Patch) :
    (noted rows writes).shared = rows ∧
    (noted rows writes).patches = writes.filter fun w => w.row < rows.length := by
  induction writes using List.reverseRecOn with
  | nil => exact ⟨rfl, rfl⟩
  | append_singleton writes w ih =>
    obtain ⟨hshared, hpatches⟩ := ih
    have hset : noted rows (writes ++ [w]) = (noted rows writes).set w.row w.column w.value := by
      rw [noted, List.foldl_append]
      rfl
    rw [hset, shared_set, patches_set, hshared, hpatches, List.filter_append]
    exact ⟨rfl, rfl⟩

section

variable {rows : List SharedRow} {patches : List Patch} {i : ℕ}

/-- A row that is there has all its writes noted. -/
theorem writes_noted (hi : i < rows.length) :
    writes (noted rows patches).patches i = writes patches i := by
  rw [(noted_eq rows patches).2]
  apply writes_filter
  intro p hp
  exact decide_eq_true (hp ▸ hi)

/-- A row without a write has none noted. -/
theorem writes_noted_eq_nil (h : ¬ ∃ w ∈ patches, w.row = i) :
    writes (noted rows patches).patches i = [] := by
  rw [writes_eq_nil_iff, (noted_eq rows patches).2]
  intro p hp hrow
  exact h ⟨p, (List.mem_filter.1 hp).1, hrow⟩

/-- A row that a commit gives has its writes noted, if it has any. -/
theorem writes_noted_ne_nil {s : SharedRow} (hs : (noted rows patches).commitShared[i]? = some s)
    (h : ∃ w ∈ patches, w.row = i) : writes (noted rows patches).patches i ≠ [] := by
  have hi : i < rows.length := by
    have hcommit := getElem?_commit (noted rows patches) i
    rw [commit, base, List.getElem?_map, hs, (noted_eq rows patches).1] at hcommit
    by_contra hi
    rw [List.getElem?_eq_none (by simpa using hi)] at hcommit
    cases hcommit
  rw [writes_noted hi]
  obtain ⟨w, hw, hrow⟩ := h
  exact fun hnil => writes_eq_nil_iff.1 hnil w hw hrow

/-- What is committed is what the writes give, made one after the other. -/
theorem commit_noted (rows : List SharedRow) (patches : List Patch) :
    (noted rows patches).commit = patches.foldl Patch.apply (rows.map SharedRow.record) := by
  apply List.ext_getElem?
  intro i
  rw [getElem?_commit, Patch.getElem?_foldl_apply, base, (noted_eq rows patches).1]
  by_cases hi : i < rows.length
  · rw [writes_noted hi]
  · rw [List.getElem?_eq_none (by simpa using hi)]
    rfl

/-- The object of a row with a write is none that was there. -/
theorem object_commitShared_noted {s : SharedRow}
    (hs : (noted rows patches).commitShared[i]? = some s) (h : ∃ w ∈ patches, w.row = i) :
    s.object ∉ rows.map SharedRow.object := by
  intro hmem
  obtain ⟨object, hle, hcopy⟩ := (getElem?_commitShared (noted rows patches) i).2
    (writes_noted_ne_nil hs h)
  rw [hs] at hcopy
  obtain ⟨s', -, rfl⟩ := Option.map_eq_some_iff.1 hcopy.symm
  obtain ⟨t, ht, hobject⟩ := List.mem_map.1 hmem
  have hlt : t.object < (noted rows patches).firstCopy :=
    object_lt_firstCopy ((noted_eq rows patches).1.symm ▸ ht)
  have hcopied : (s'.copy object (writes (noted rows patches).patches i)).object = object := rfl
  omega

/-- In a draft with noted writes a row counts as patched if one of them is for it. -/
theorem isPatched_noted_iff (hi : i < rows.length) :
    (noted rows patches).isPatched i = true ↔ ∃ w ∈ patches, w.row = i := by
  rw [isPatched_iff, (noted_eq rows patches).2]
  constructor
  · rintro ⟨p, hp, hrow⟩
    exact ⟨p, (List.mem_filter.1 hp).1, hrow⟩
  · rintro ⟨w, hw, hrow⟩
    exact ⟨w, List.mem_filter.2 ⟨hw, decide_eq_true (hrow ▸ hi)⟩, hrow⟩

/-- The rows that are there and have a write are counted. -/
theorem patchedRows_noted (rows : List SharedRow) (patches : List Patch) :
    (noted rows patches).patchedRows =
      {i ∈ Finset.range rows.length | ∃ w ∈ patches, w.row = i}.card := by
  rw [patchedRows_eq, (noted_eq rows patches).2]
  congr 1
  ext i
  simp only [List.mem_toFinset, List.mem_map, List.mem_filter, decide_eq_true_eq, Finset.mem_filter,
    Finset.mem_range]
  constructor
  · rintro ⟨w, ⟨hw, hlt⟩, rfl⟩
    exact ⟨hlt, w, hw, rfl⟩
  · rintro ⟨hlt, w, hw, rfl⟩
    exact ⟨w, ⟨hw, hlt⟩, rfl⟩

end

/-- Committing a draft is writing in place: the rows are those that the writes give when they are made
one after the other to copies, where writes behind the rows are made to nothing. A row without a write
is still the object that it was, each one with a write is an object of its own that nobody held, and the
draft still has the objects as they were. It knows which rows have a write, and counts them. -/
theorem commit_in_turn (rows : List SharedRow) (writes : List Patch) :
    let d := writes.foldl (fun d w => d.set w.row w.column w.value) (ofShared rows)
    let written (i : ℕ) := ∃ w ∈ writes, w.row = i
    d.commit = writes.foldl Patch.apply (rows.map SharedRow.record) ∧
    (∀ i, ¬ written i → d.commitShared[i]? = rows[i]?) ∧
    (∀ i s, written i → d.commitShared[i]? = some s → s.object ∉ rows.map SharedRow.object) ∧
    (∀ i j s t, i < j → written i → written j → d.commitShared[i]? = some s →
      d.commitShared[j]? = some t → s.object ≠ t.object) ∧
    d.shared = rows ∧
    (∀ i < rows.length, d.isPatched i = true ↔ written i) ∧
    d.patchedRows = {i ∈ Finset.range rows.length | ∃ w ∈ writes, w.row = i}.card := by
  intro d written
  have hshared : d.shared = rows := (noted_eq rows writes).1
  refine ⟨commit_noted rows writes, ?_, ?_, ?_, hshared, ?_, patchedRows_noted rows writes⟩
  · intro i hi
    rw [(getElem?_commitShared d i).1 (writes_noted_eq_nil hi), hshared]
  · intro i s hi hs
    exact object_commitShared_noted hs hi
  · intro i j s t hij hi hj hs ht
    exact (object_lt_commitShared d hij (writes_noted_ne_nil hs hi) (writes_noted_ne_nil ht hj) hs ht).ne
  · intro i hi
    exact isPatched_noted_iff hi

end RowDraft

end LogSearch
