import LogSearch.Text.Search
import Mathlib.Tactic.Ring

/-!
# Texts between separators

Texts with a comma and a blank between them can be told apart again as long as none but the last one
holds these two characters. If they do hold them, only how many of them there are in all remains.

* `eq_of_join_eq`, `eq_of_join_replicate`: what joined texts tell about the texts.
* `separators`, `join_separators`: texts of nothing but separators, and what joins to one.
-/

namespace LogSearch.Text

/-- Two texts are joined with the separator between them. -/
theorem join_cons_cons (separator s t : String) (rest : List String) :
    join separator (s :: t :: rest) = s ++ separator ++ join separator (t :: rest) := rfl

/-- The first separator tells what stands before it and behind it. -/
theorem eq_of_append_separator {as bs rest rest' : List Char} (ha : holdsPart [',', ' '] as = false)
    (hb : holdsPart [',', ' '] bs = false) (h : as ++ ',' :: ' ' :: rest = bs ++ ',' :: ' ' :: rest') :
    as = bs ∧ rest = rest' := by
  -- A text that ends at the head of the other one leaves a separator within that one.
  induction as generalizing bs with
  | nil =>
    match bs, h with
    | [], h => exact ⟨rfl, (List.cons.inj (List.cons.inj h).2).2⟩
    | [_], h => exact absurd (List.cons.inj (List.cons.inj h).2).1 (by decide)
    | c :: d :: bs, h =>
      obtain ⟨hc, htail⟩ := List.cons.inj h
      obtain ⟨hd, -⟩ := List.cons.inj htail
      rw [← hc, ← hd] at hb
      exact nomatch hb
  | cons c as ih =>
    match as, bs, h with
    | [], [], h => exact absurd (List.cons.inj (List.cons.inj h).2).1 (by decide)
    | d :: as, [], h =>
      obtain ⟨hc, htail⟩ := List.cons.inj h
      obtain ⟨hd, -⟩ := List.cons.inj htail
      rw [hc, hd] at ha
      exact nomatch ha
    | as, d :: bs, h =>
      rw [holdsPart, Bool.or_eq_false_iff] at ha hb
      obtain ⟨rfl, htail⟩ := List.cons.inj h
      obtain ⟨rfl, hrest⟩ := ih ha.2 hb.2 htail
      exact ⟨rfl, hrest⟩

/-- So many texts are told by what they join to, if only the last one may hold a separator. -/
theorem eq_of_join_eq {ss ts : List String} (hlength : ss.length = ts.length)
    (hss : ∀ s ∈ ss.dropLast, contains s ", " = false)
    (hts : ∀ t ∈ ts.dropLast, contains t ", " = false) (h : join ", " ss = join ", " ts) : ss = ts := by
  induction ss generalizing ts with
  | nil => exact (List.length_eq_zero_iff.1 hlength.symm).symm
  | cons s ss ih =>
    match ss, ts, hlength with
    | [], [t], _ => exact congrArg (fun text => [text]) h
    | s' :: ss, t :: t' :: ts, hlength =>
      have hchars := congrArg String.toList h
      simp only [join_cons_cons, String.toList_append, List.append_assoc] at hchars
      obtain ⟨hfirst, hrest⟩ := eq_of_append_separator (hss s List.mem_cons_self)
        (hts t List.mem_cons_self) hchars
      rw [String.toList_inj.1 hfirst, ih (Nat.succ.inj hlength)
        (fun text htext => hss text (List.mem_cons_of_mem _ htext))
        (fun text htext => hts text (List.mem_cons_of_mem _ htext)) (String.toList_inj.1 hrest)]

/-- The length of a text joined with itself is that of all copies and the separators between them. -/
theorem length_join_replicate (separator s : String) (n : Nat) :
    (join separator (List.replicate (n + 1) s)).length = (n + 1) * s.length + n * separator.length := by
  induction n with
  | zero => show s.length = _; omega
  | succ n ih =>
    rw [List.replicate_succ, List.replicate_succ, join_cons_cons, ← List.replicate_succ,
      String.length_append, String.length_append, ih]
    ring

/-- One text, however often it stands there, is told by what it joins to. -/
theorem eq_of_join_replicate {separator s t : String} {n : Nat}
    (h : join separator (List.replicate (n + 1) s) = join separator (List.replicate (n + 1) t)) :
    s = t := by
  have hlength := congrArg String.length h
  rw [length_join_replicate, length_join_replicate] at hlength
  -- Equally many texts of one length: the first ones end at the same place.
  have hsame : s.toList.length = t.toList.length :=
    Nat.eq_of_mul_eq_mul_left n.succ_pos (Nat.add_right_cancel hlength)
  cases n with
  | zero => exact h
  | succ n =>
    have hchars := congrArg String.toList h
    simp only [List.replicate_succ, join_cons_cons, String.toList_append, List.append_assoc] at hchars
    exact String.toList_inj.1 (List.append_inj_left hchars hsame)

/-! ## Separators alone -/

/-- So many separators. -/
def separators : Nat → String
  | 0 => ""
  | n + 1 => ", " ++ separators n

/-- A row of separators is parted anywhere. -/
theorem separators_add (m n : Nat) : separators (m + n) = separators m ++ separators n := by
  induction m with
  | zero => rw [Nat.zero_add, separators, String.empty_append]
  | succ m ih => rw [Nat.succ_add, separators, ih, separators, String.append_assoc]

/-- No separators, and only they, make an empty text. -/
theorem separators_eq_empty_iff {n : Nat} : separators n = "" ↔ n = 0 := by
  cases n with
  | zero => exact iff_of_true rfl rfl
  | succ n =>
    apply iff_of_false
    · intro h
      have hchars := congrArg String.toList h
      rw [separators, String.toList_append] at hchars
      exact nomatch hchars
    · exact Nat.succ_ne_zero n

/-- Texts of separators join to one, in which it does not show where they end. -/
theorem join_separators (counts : List Nat) :
    join ", " (counts.map separators) = separators (counts.sum + (counts.length - 1)) := by
  induction counts with
  | nil => rfl
  | cons n counts ih =>
    cases counts with
    | nil => rfl
    | cons m counts =>
      have htotal : (n :: m :: counts).sum + ((n :: m :: counts).length - 1) =
          n + 1 + ((m :: counts).sum + ((m :: counts).length - 1)) := by
        simp only [List.sum_cons, List.length_cons]
        omega
      calc join ", " ((n :: m :: counts).map separators)
          = separators n ++ separators 1 ++ join ", " ((m :: counts).map separators) := rfl
        _ = separators (n + 1) ++ separators ((m :: counts).sum + ((m :: counts).length - 1)) := by
          rw [ih, separators_add n 1]
        _ = separators ((n :: m :: counts).sum + ((n :: m :: counts).length - 1)) := by
          rw [htotal, separators_add (n + 1)]

end LogSearch.Text
