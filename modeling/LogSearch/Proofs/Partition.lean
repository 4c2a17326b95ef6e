import Mathlib.Data.List.Induction
import Mathlib.Data.List.Nodup
import Mathlib.Data.List.Perm.Basic

/-!
# Lists parted by keys

The keys of a list, each once, stand in the order in which they appear first. Where items are
collected under keys of which none repeats, each item comes under one of them.

* `eraseDups_concat`, `nodup_eraseDups`: the keys, each once.
* `pairwise_idxOf_eraseDups`: their order is that of their first appearance.
* `flatMap_filter_perm`: the items under the keys are all items with such a key.
-/

namespace LogSearch

section

variable {α : Type} [BEq α] [LawfulBEq α]

/-- An item behind a list counts only if it is new. -/
theorem eraseDups_concat (as : List α) (a : α) :
    (as ++ [a]).eraseDups = if a ∈ as then as.eraseDups else as.eraseDups ++ [a] := by
  rw [List.eraseDups_append]
  split
  · next hmem => simp [List.removeAll, hmem]
  · next hnew => simp [List.removeAll, hnew, List.eraseDups_cons]

/-- No item is left twice. -/
theorem nodup_eraseDups (as : List α) : as.eraseDups.Nodup := by
  induction as using List.reverseRecOn with
  | nil => exact List.nodup_nil
  | append_singleton as a ih =>
    rw [eraseDups_concat]
    split
    · exact ih
    · next hnew =>
      refine List.nodup_append.2 ⟨ih, List.nodup_singleton a, fun b hb c hc heq => hnew ?_⟩
      rw [← List.mem_singleton.1 hc, ← heq]
      exact List.mem_eraseDups.1 hb

/-- A key stands before another one if it appears before it. -/
theorem pairwise_idxOf_eraseDups (as : List α) :
    as.eraseDups.Pairwise fun a b => as.idxOf a < as.idxOf b := by
  induction as using List.reverseRecOn with
  | nil => exact List.Pairwise.nil
  | append_singleton as a ih =>
    have hkept : as.eraseDups.Pairwise fun b c => (as ++ [a]).idxOf b < (as ++ [a]).idxOf c := by
      apply List.Pairwise.imp_of_mem _ ih
      intro b c hb hc hlt
      rw [List.idxOf_append_of_mem (List.mem_eraseDups.1 hb),
        List.idxOf_append_of_mem (List.mem_eraseDups.1 hc)]
      exact hlt
    rw [eraseDups_concat]
    split
    · exact hkept
    · next hnew =>
      apply List.pairwise_append.2
      refine ⟨hkept, List.pairwise_singleton _ _, ?_⟩
      intro b hb c hc
      have hmem : b ∈ as := List.mem_eraseDups.1 hb
      rw [List.mem_singleton.1 hc, List.idxOf_append_of_mem hmem, List.idxOf_append_of_notMem hnew]
      exact Nat.lt_of_lt_of_le (List.idxOf_lt_length_of_mem hmem) (Nat.le_add_right _ _)

end

/-- Under keys of which none repeats stands each item that has such a key, as often as in the list. -/
theorem flatMap_filter_perm {α κ : Type} [DecidableEq κ] (key : α → κ) {keys : List κ}
    (h : keys.Nodup) (as : List α) :
    (keys.flatMap fun k => as.filter fun a => key a = k).Perm (as.filter fun a => key a ∈ keys) := by
  induction keys with
  | nil => simp
  | cons k keys ih =>
    obtain ⟨hk, hkeys⟩ := List.nodup_cons.1 h
    rw [List.flatMap_cons]
    have hfirst : (as.filter fun a => key a ∈ k :: keys).filter (fun a => key a = k) =
        as.filter fun a => key a = k := by
      rw [List.filter_filter]
      apply List.filter_congr
      intro a _
      by_cases ha : key a = k <;> simp [ha]
    have hothers : (as.filter fun a => key a ∈ k :: keys).filter (fun a => !decide (key a = k)) =
        as.filter fun a => key a ∈ keys := by
      rw [List.filter_filter]
      apply List.filter_congr
      intro a _
      by_cases ha : key a = k
      · rw [ha]
        simp [hk]
      · simp [ha]
    apply ((ih hkeys).append_left _).trans
    rw [← hfirst, ← hothers]
    exact List.filter_append_perm _ _

/-- A key that no other item has picks its item alone. -/
theorem filter_key_eq {α κ : Type} [DecidableEq κ] {key : α → κ} {as : List α}
    (h : (as.map key).Nodup) {a : α} (ha : a ∈ as) : (as.filter fun b => key b = key a) = [a] := by
  induction as with
  | nil => exact absurd ha List.not_mem_nil
  | cons b as ih =>
    obtain ⟨hb, has⟩ := List.nodup_cons.1 h
    rcases List.mem_cons.1 ha with rfl | ha
    · have hnone : (as.filter fun b => key b = key a) = [] := by
        apply List.filter_eq_nil_iff.2
        intro c hc heq
        exact hb (of_decide_eq_true heq ▸ List.mem_map_of_mem hc)
      rw [List.filter_cons, if_pos (decide_eq_true rfl), hnone]
    · have hne : key b ≠ key a := by
        intro heq
        exact hb (heq ▸ List.mem_map_of_mem ha)
      rw [List.filter_cons, if_neg (mt of_decide_eq_true hne), ih has ha]

/-- Where nothing repeats, there is nothing to leave out. -/
theorem eraseDups_of_nodup {as : List String} (h : as.Nodup) : as.eraseDups = as := by
  induction as with
  | nil => rfl
  | cons a as ih =>
    obtain ⟨ha, has⟩ := List.nodup_cons.1 h
    have hkept : (as.filter fun b => !b == a) = as := by
      apply List.filter_eq_self.2
      intro b hb
      simpa using fun heq : b = a => ha (heq ▸ hb)
    rw [List.eraseDups_cons, hkept, ih has]

end LogSearch
