/-!
# Maps with text keys

A finite map from texts, kept as a list of pairs in the order of the keys.

* `Dict.insert`, `Dict.get?`: writing and reading one key.
* `Dict.get?_insert`: a write is seen under its key and nowhere else.
* `Dict.Ordered`: each key is below all later ones; `Dict.ordered_insert` keeps it.
-/

namespace LogSearch

/-- A finite map with text keys. -/
abbrev Dict (α : Type) := List (String × α)

namespace Dict

variable {α β : Type}

/-- The value under `key`. -/
def get? (key : String) : Dict α → Option α
  | [] => none
  | (k, v) :: rest => if k = key then some v else get? key rest

/-- Writes `value` under `key`, in place or before the first greater key. -/
def insert (key : String) (value : α) : Dict α → Dict α
  | [] => [(key, value)]
  | (k, v) :: rest =>
    if k = key then (key, value) :: rest
    else if key < k then (key, value) :: (k, v) :: rest
    else (k, v) :: insert key value rest

/-- Removes `key`. -/
def erase (key : String) (d : Dict α) : Dict α := d.filter fun p => p.1 ≠ key

/-- Whether `key` is present. -/
def contains (key : String) (d : Dict α) : Bool := (get? key d).isSome

/-- The keys in order. -/
def keys (d : Dict α) : List String := d.map Prod.fst

/-- The values in the order of their keys. -/
def values (d : Dict α) : List α := d.map Prod.snd

/-- The map that the pairs write one after the other. -/
def ofList (pairs : List (String × α)) : Dict α :=
  pairs.foldl (fun d p => insert p.1 p.2 d) []

/-- Each key is below all later ones. -/
def Ordered (d : Dict α) : Prop := d.Pairwise fun p q => p.1 < q.1

/-- A write is seen under its key, and every other key reads as before. -/
theorem get?_insert (key : String) (value : α) (d : Dict α) (other : String) :
    get? other (insert key value d) = if key = other then some value else get? other d := by
  induction d with
  | nil => simp [insert, get?]
  | cons p rest ih =>
    obtain ⟨k, v⟩ := p
    by_cases hk : k = key
    · by_cases ho : key = other <;> simp_all [insert, get?]
    · by_cases hlt : key < k
      · by_cases ho : key = other <;> simp_all [insert, get?]
      · by_cases ho : k = other
        · subst ho
          simp [insert, get?, hk, hlt, Ne.symm hk]
        · simp [insert, get?, hk, hlt, ho, ih]

/-- What is read is in the map, under the key it was read with. -/
theorem mem_of_get? {key : String} {value : α} {d : Dict α} (h : get? key d = some value) :
    (key, value) ∈ d := by
  induction d with
  | nil => simp [get?] at h
  | cons p rest ih =>
    obtain ⟨k, v⟩ := p
    unfold get? at h
    split at h
    · next hk =>
      rw [hk, Option.some.inj h]
      exact List.mem_cons_self
    · exact List.mem_cons_of_mem _ (ih h)

/-- Writing adds the written pair at most. -/
theorem mem_insert {key : String} {value : α} {d : Dict α} {p : String × α}
    (h : p ∈ insert key value d) : p = (key, value) ∨ p ∈ d := by
  induction d with
  | nil => simpa [insert] using h
  | cons q rest ih =>
    obtain ⟨k, v⟩ := q
    unfold insert at h
    split at h
    · rcases List.mem_cons.1 h with h | h
      · exact .inl h
      · exact .inr (List.mem_cons_of_mem _ h)
    · split at h
      · rcases List.mem_cons.1 h with h | h
        · exact .inl h
        · exact .inr h
      · rcases List.mem_cons.1 h with h | h
        · exact .inr (h ▸ List.mem_cons_self)
        · exact (ih h).imp id (List.mem_cons_of_mem _)

/-- Writing keeps the keys in order. -/
theorem ordered_insert (key : String) (value : α) {d : Dict α} (h : Ordered d) :
    Ordered (insert key value d) := by
  induction d with
  | nil => simp [insert, Ordered]
  | cons p rest ih =>
    obtain ⟨k, v⟩ := p
    have ⟨hk, hrest⟩ := List.pairwise_cons.1 h
    unfold insert
    split
    · next heq => exact List.pairwise_cons.2 ⟨fun q hq => heq ▸ hk q hq, hrest⟩
    · next hne =>
      split
      · next hlt =>
        refine List.pairwise_cons.2 ⟨fun q hq => ?_, h⟩
        rcases List.mem_cons.1 hq with rfl | hq
        · exact hlt
        · exact String.lt_trans hlt (hk q hq)
      · next hnlt =>
        refine List.pairwise_cons.2 ⟨fun q hq => ?_, ih hrest⟩
        rcases mem_insert hq with rfl | hq
        · rcases String.le_total k key with hle | hle
          · exact Std.lt_of_le_of_ne hle hne
          · exact absurd (Std.lt_of_le_of_ne hle (Ne.symm hne)) hnlt
        · exact hk q hq

/-- In an ordered map every pair can be read. -/
theorem get?_of_mem {d : Dict α} (hd : Ordered d) {key : String} {value : α}
    (h : (key, value) ∈ d) : get? key d = some value := by
  induction d with
  | nil => exact absurd h List.not_mem_nil
  | cons p rest ih =>
    obtain ⟨k, v⟩ := p
    have ⟨hk, hrest⟩ := List.pairwise_cons.1 hd
    unfold get?
    rcases List.mem_cons.1 h with heq | hmem
    · rw [if_pos (Prod.mk.inj heq).1.symm, (Prod.mk.inj heq).2]
    · rw [if_neg (String.ne_of_lt (hk _ hmem)), ih hrest hmem]

/-- Leaving pairs out keeps the keys in order. -/
theorem ordered_filter {d : Dict α} (hd : Ordered d) (keep : String × α → Bool) :
    Ordered (d.filter keep) :=
  List.Pairwise.filter keep hd

/-- Whether a map is ordered is told by its keys. -/
theorem ordered_of_keys {d : Dict α} {d' : Dict β} (hkeys : keys d = keys d') (hd : Ordered d') :
    Ordered d := by
  have hordered : (keys d').Pairwise (· < ·) := List.pairwise_map.2 hd
  rw [← hkeys] at hordered
  exact List.pairwise_map.1 hordered

/-- A key above all others goes to the end. -/
theorem insert_of_lt {key : String} {value : α} {d : Dict α} (h : ∀ p ∈ d, p.1 < key) :
    insert key value d = d ++ [(key, value)] := by
  induction d with
  | nil => rfl
  | cons p rest ih =>
    obtain ⟨k, v⟩ := p
    have hk : k < key := h (k, v) List.mem_cons_self
    rw [insert, if_neg (String.ne_of_lt hk), if_neg (String.lt_asymm hk),
      ih fun q hq => h q (List.mem_cons_of_mem _ hq), List.cons_append]

/-- Pairs in the order of their keys are the map that they write. -/
theorem ofList_of_ordered {d : Dict α} (hd : Ordered d) : ofList d = d := by
  have hfold : ∀ (rest read : Dict α), Ordered (read ++ rest) →
      rest.foldl (fun d p => insert p.1 p.2 d) read = read ++ rest := by
    intro rest
    induction rest with
    | nil => intro read _; exact (List.append_nil read).symm
    | cons p rest ih =>
      intro read hordered
      have hlt : ∀ q ∈ read, q.1 < p.1 := fun q hq =>
        (List.pairwise_append.1 hordered).2.2 q hq p List.mem_cons_self
      have hmove : read ++ p :: rest = read ++ [(p.1, p.2)] ++ rest := by simp
      rw [List.foldl_cons, insert_of_lt hlt, hmove, ih]
      rw [← hmove]
      exact hordered
  exact hfold d [] hd

end Dict

end LogSearch
