import LogSearch.Proofs.Record.Merging
import LogSearch.Source.Memory

/-!
# Reports in batches

A source sends its rows in batches until there are no more or the receiver cancels. Where the rows
are cut and where the report ends do not change what is reported, or in which order.

* `emit_batched`, `emit_flatten_prefix`: batches are full up to the last one, and what they hold
  comes from the front of the items.
* `emit_until`: a receiver that cancels after some batches gets those, and no others.
* `Request.Asked`, `Request.Ranked`: what is asked for, and the order in which it is reported.
* `MemorySource.newest_reported`: the newest records asked for, whatever the size of a batch.
-/

namespace LogSearch

variable {α : Type}

/-! ## Batches -/

/-- No batch is empty or longer than the size, and all but the last have just that size. -/
structure Batched (size : Nat) (batches : List (List α)) : Prop where
  nonempty : ∀ batch ∈ batches, batch ≠ []
  bounded : ∀ batch ∈ batches, batch.length ≤ size
  full : ∀ batch ∈ batches.dropLast, batch.length = size

/-- No records make no batches. -/
theorem Batched.nil {size : Nat} : Batched size ([] : List (List α)) where
  nonempty _ hmem := nomatch hmem
  bounded _ hmem := nomatch hmem
  full _ hmem := nomatch hmem

/-- A batch goes before others if it is neither empty nor too long, and full unless it is the last. -/
theorem Batched.cons {size : Nat} {batch : List α} {batches : List (List α)}
    (hnonempty : batch ≠ []) (hbounded : batch.length ≤ size)
    (hfull : batches ≠ [] → batch.length = size) (h : Batched size batches) :
    Batched size (batch :: batches) where
  nonempty := List.forall_mem_cons.2 ⟨hnonempty, h.nonempty⟩
  bounded := List.forall_mem_cons.2 ⟨hbounded, h.bounded⟩
  full := by
    by_cases hlast : batches = []
    · rw [hlast]
      exact fun _ hmem => nomatch hmem
    · rw [List.dropLast_cons_of_ne_nil hlast]
      exact List.forall_mem_cons.2 ⟨hfull hlast, h.full⟩

section

variable (size : Nat) (cancelled : Nat → Bool)

/-- Batches are full up to the last one, wherever the receiver cancels. -/
theorem emit_batched (sent : Nat) (items : List α) :
    Batched (max 1 size) (emit size cancelled sent items) := by
  fun_induction emit size cancelled sent items with
  | case1 => exact .nil
  | case2 => exact .nil
  | case3 sent a rest hgoes ih =>
    refine .cons (List.cons_ne_nil _ _) ?_ (fun hmore => ?_) ih
    · rw [List.length_cons, List.length_take]
      omega
    · -- Something is left for another batch, so this one has taken all it could.
      have hleft : rest.drop (size - 1) ≠ [] := by
        intro hnil
        rw [hnil] at hmore
        exact hmore (by rw [emit])
      have hlong : size - 1 < rest.length := by
        apply Nat.lt_of_not_le
        rwa [← List.drop_eq_nil_iff]
      rw [List.length_cons, List.length_take]
      omega

/-- What is reported comes from the front of the items, in their order. -/
theorem emit_flatten_prefix (sent : Nat) (items : List α) :
    (emit size cancelled sent items).flatten <+: items := by
  fun_induction emit size cancelled sent items with
  | case1 => exact List.prefix_rfl
  | case2 => exact List.nil_prefix
  | case3 sent a rest hgoes ih =>
    rw [List.flatten_cons]
    calc (a :: rest.take (size - 1)) ++ (emit size cancelled (sent + 1) (rest.drop (size - 1))).flatten
        <+: (a :: rest.take (size - 1)) ++ rest.drop (size - 1) :=
          (List.prefix_append_right_inj _).2 ih
      _ = a :: rest := by rw [List.cons_append, List.take_append_drop]

/-- A receiver that never cancels gets all items. -/
theorem emit_flatten (sent : Nat) (items : List α) :
    (emit size (fun _ => false) sent items).flatten = items := by
  fun_induction emit size (fun _ => false) sent items with
  | case1 => rfl
  | case2 => contradiction
  | case3 sent a rest hgoes ih =>
    rw [List.flatten_cons, ih, List.cons_append, List.take_append_drop]

/-- A receiver that cancels when it has had `n` batches gets those of all that come before. -/
theorem emit_until (n sent : Nat) (items : List α) :
    emit size (fun sent => n ≤ sent) sent items =
      (emit size (fun _ => false) sent items).take (n - sent) := by
  fun_induction emit size (fun _ => false) sent items with
  | case1 => rw [emit, List.take_nil]
  | case2 => contradiction
  | case3 sent a rest hgoes ih =>
    rw [emit]
    split
    · next hstops =>
      have hnone : n - sent = 0 := Nat.sub_eq_zero_of_le (of_decide_eq_true hstops)
      rw [hnone, List.take_zero]
    · next hmore =>
      have hone : n - sent = n - (sent + 1) + 1 := by
        rw [decide_eq_true_iff] at hmore
        omega
      rw [hone, List.take_succ_cons, ih]

end

/-! ## Records asked for -/

namespace Request

/-- A record with a time of the range that passes every filter and the search. -/
structure Asked (q : Request) (r : Record) : Prop where
  timed : ∃ t, r.time? = some t ∧ q.range.start ≤ t ∧ t < q.range.stop
  filters : ∀ f ∈ q.selection.filters, f.accepts (r.display f.key) = true
  search : ∀ s ∈ q.selection.search, s.holds r.mentions = true

/-- The check of a request decides what it asks for. -/
theorem asksFor_iff {q : Request} {r : Record} : q.asksFor r = true ↔ q.Asked r := by
  have htimed : r.time?.any q.range.contains = true ↔
      ∃ t, r.time? = some t ∧ q.range.start ≤ t ∧ t < q.range.stop := by
    simp [Option.any_eq_true, TimeRange.contains]
  have haccepts : q.selection.accepts r = true ↔
      (∀ f ∈ q.selection.filters, f.accepts (r.display f.key) = true) ∧
        ∀ s ∈ q.selection.search, s.holds r.mentions = true := by
    simp [Selection.accepts, Option.all_eq_true]
  unfold asksFor
  rw [Bool.and_eq_true, htimed, haccepts]
  exact ⟨fun ⟨ht, hf, hs⟩ => ⟨ht, hf, hs⟩, fun ⟨ht, hf, hs⟩ => ⟨ht, hf, hs⟩⟩

instance (q : Request) (r : Record) : Decidable (q.Asked r) := decidable_of_iff _ asksFor_iff

/-- The records asked for, each once, with the latest first and those of one time in their order. -/
structure Ranked (q : Request) (records rows : List Record) : Prop where
  perm : rows.Perm (records.filter fun r => q.Asked r)
  latest_first : rows.Pairwise fun a b => ∀ s ∈ a.time?, ∀ t ∈ b.time?, t ≤ s
  stable : ∀ t, rows.filter (fun r => r.time? = some t) =
    records.filter fun r => q.Asked r ∧ r.time? = some t

/-- The decision is the check itself. -/
theorem decide_asked (q : Request) : (fun r => decide (q.Asked r)) = q.asksFor := by
  funext r
  rw [Bool.eq_iff_iff, decide_eq_true_iff, asksFor_iff]

/-- The records that pass the check, sorted by time, are ranked. -/
theorem ranked_sortByTime (q : Request) (records : List Record) :
    q.Ranked records (sortByTime (records.filter q.asksFor)) where
  perm := by
    rw [decide_asked]
    exact List.mergeSort_perm _ _
  latest_first := by
    refine (latestFirst_sortByTime _).imp fun {a b} hle s hs t ht => ?_
    have hkeys : timeKey b ≤ timeKey a := of_decide_eq_true hle
    unfold timeKey at hkeys
    rwa [hs, ht] at hkeys
  stable t := by
    have halike : ∀ a b : Record, decide (a.time? = some t) = true → decide (b.time? = some t) = true →
        notEarlier a b = true := by
      intro a b ha hb
      unfold notEarlier timeKey
      rw [of_decide_eq_true ha, of_decide_eq_true hb]
      exact decide_eq_true (Int.le_refl _)
    calc (sortByTime (records.filter q.asksFor)).filter (fun r => r.time? = some t)
        = (records.filter q.asksFor).filter fun r => r.time? = some t :=
          filter_mergeSort notEarlier_trans notEarlier_total halike _
      _ = records.filter fun r => q.Asked r ∧ r.time? = some t := by
          rw [← decide_asked, List.filter_filter]
          apply List.filter_congr
          intro r _
          rw [← Bool.decide_and]
          exact decide_eq_decide.2 and_comm

/-- The batches of a report that is not cut short hold what is to be reported. -/
theorem flatten_batches_none (q : Request) (batchSize : Nat) (records : List Record) :
    (q.batches batchSize none records).flatten = q.newest records :=
  emit_flatten batchSize 0 _

end Request

/-! ## Reports of a memory -/

/-- A memory reports the newest records that it is asked for, up to the limit, in full batches up to
the last one, and a receiver that cancels gets the batches before. The records are the same for every
size of a batch, of which zero is taken as one. -/
theorem MemorySource.newest_reported (records : List Record) (q : Request) :
    ∃ rows, q.Ranked records rows ∧ ∀ (size : Nat) (labels : List String),
      let m : MemorySource := ⟨records, size, labels⟩
      (m.report q none).flatten = rows.take q.limit ∧
      (∀ n, m.report q (some n) = (m.report q none).take n) ∧
      ∀ stopAfter, Batched (max 1 size) (m.report q stopAfter) ∧
        (m.report q stopAfter).flatten <+: rows.take q.limit := by
  refine ⟨_, q.ranked_sortByTime records, fun size labels => ⟨?_, fun n => ?_, fun stopAfter => ?_⟩⟩
  · exact q.flatten_batches_none size records
  · exact emit_until size n 0 _
  · exact ⟨emit_batched size _ 0 _, emit_flatten_prefix size _ 0 _⟩

end LogSearch
