import LogSearch.Proofs.Json.Doubles

/-!
# What comes back of a value

A value is written as JSON and decoded from what that is read as. What comes back of a list, a map, an
absent value or a record is put together from what comes back of its parts.

* `brought`: what comes back of a JSON value.
* `read?_bind`: with the limit of depth this is what a whole text is decoded to.
* `brought_list`, `brought_dict`, `brought_option`, `brought_wrapped`, `brought_pair`,
  `brought_triple`: what comes back of the whole, from the parts.
* `mapM_eq_self_iff`, `mapM_eq_none_iff`: when a list comes back as it was, and when nothing does.
-/

namespace LogSearch.Json

variable {α β γ δ : Type}

/-- What comes back of a JSON value: what it is read as, once written, decoded. -/
def brought (decode : Json → Option α) (j : Json) : Option α := j.reread.bind decode

/-- A text is decoded to what comes back, if it nests no deeper than a text may. -/
theorem read?_bind (decode : Json → Option α) (j : Json) :
    (read? j.compact).bind decode = if j.depth ≤ maxDepth then brought decode j else none := by
  rw [read?_compact]
  split
  · rfl
  · rfl

/-- A value comes back through its text if it is not nested too deeply and comes back as a value. -/
theorem read?_bind_eq_some_iff {decode : Json → Option α} {j : Json} {a : α} :
    (read? j.compact).bind decode = some a ↔ j.depth ≤ maxDepth ∧ brought decode j = some a := by
  rw [read?_bind]
  split
  next hdepth => exact (and_iff_right hdepth).symm
  next hdepth => exact ⟨nofun, fun h => absurd h.1 hdepth⟩

/-- What does not come back as a value does not come back through its text. -/
theorem read?_bind_eq_none {decode : Json → Option α} {j : Json} (h : brought decode j = none) :
    (read? j.compact).bind decode = none := by
  rw [read?_bind, h, ite_self]

/-- Nothing comes back where nothing is decoded. -/
theorem brought_eq_none {decode : Json → Option α} (h : ∀ j, decode j = none) (j : Json) :
    brought decode j = none := by
  rw [brought]
  cases j.reread with
  | none => rfl
  | some r => exact h r

/-! ## Scalars -/

/-- A text comes back. -/
theorem brought_text (s : String) : brought text? (string s) = some s := rfl

/-- An integer that fits in a word comes back. -/
theorem brought_int64 {n : Int} (hlow : Number.int64Min ≤ n) (hhigh : n ≤ Number.int64Max) :
    brought int64? (integer n) = some n := by
  rw [brought, reread, rereadNumber_integer hlow hhigh, Option.bind_some, int64?,
    if_pos ⟨hlow, hhigh⟩]

/-- Nothing comes back of an infinity or a NaN. -/
theorem brought_double_of_not_finite {x : Double} (h : x.isFinite = false) :
    brought double? (ofDouble x) = none := by
  rw [brought, ofDouble, reread, rereadReal_of_not_finite h]
  rfl

/-! ## Parts -/

/-- Two parts that are read one after the other and then decoded could as well be read and decoded
one after the other. -/
theorem bind_parts {σ τ : Type} (x : Option σ) (y : Option τ) (f : σ → Option α) (g : τ → Option β)
    (mk : α → β → γ) :
    (x.bind fun s => y.bind fun t => (f s).bind fun a => (g t).bind fun b => some (mk a b)) =
      (x.bind f).bind fun a => (y.bind g).bind fun b => some (mk a b) := by
  cases x with
  | none => rfl
  | some s =>
    cases y with
    | none =>
      show none = (f s).bind fun _ => none
      cases f s <;> rfl
    | some t => rfl

/-- What is made of one part comes back exactly if the part does. -/
theorem bind_eq_some_iff_of_inj {x : Option α} {mk : α → β} (hmk : ∀ {a a'}, mk a = mk a' → a = a')
    {a : α} : (x.bind fun a => some (mk a)) = some (mk a) ↔ x = some a := by
  constructor
  · intro h
    obtain ⟨a', hx, hwhole⟩ := Option.bind_eq_some_iff.1 h
    rw [hx, hmk (Option.some.inj hwhole)]
  · rintro rfl
    rfl

/-- What is made of two parts comes back exactly if both do. -/
theorem bind_eq_some_iff_of_inj₂ {x : Option α} {y : Option β} {mk : α → β → γ}
    (hmk : ∀ {a b a' b'}, mk a b = mk a' b' → a = a' ∧ b = b') {a : α} {b : β} :
    (x.bind fun a => y.bind fun b => some (mk a b)) = some (mk a b) ↔ x = some a ∧ y = some b := by
  constructor
  · intro h
    obtain ⟨a', hx, hrest⟩ := Option.bind_eq_some_iff.1 h
    obtain ⟨b', hy, hwhole⟩ := Option.bind_eq_some_iff.1 hrest
    obtain ⟨rfl, rfl⟩ := hmk (Option.some.inj hwhole)
    exact ⟨hx, hy⟩
  · rintro ⟨rfl, rfl⟩
    rfl

/-- What is made of three parts comes back exactly if all do. -/
theorem bind_eq_some_iff_of_inj₃ {x : Option α} {y : Option β} {z : Option γ} {mk : α → β → γ → δ}
    (hmk : ∀ {a b c a' b' c'}, mk a b c = mk a' b' c' → a = a' ∧ b = b' ∧ c = c') {a : α} {b : β} {c : γ} :
    (x.bind fun a => y.bind fun b => z.bind fun c => some (mk a b c)) = some (mk a b c) ↔
      x = some a ∧ y = some b ∧ z = some c := by
  constructor
  · intro h
    obtain ⟨a', hx, hrest⟩ := Option.bind_eq_some_iff.1 h
    obtain ⟨b', hy, hlast⟩ := Option.bind_eq_some_iff.1 hrest
    obtain ⟨c', hz, hwhole⟩ := Option.bind_eq_some_iff.1 hlast
    obtain ⟨rfl, rfl, rfl⟩ := hmk (Option.some.inj hwhole)
    exact ⟨hx, hy, hz⟩
  · rintro ⟨rfl, rfl, rfl⟩
    rfl

/-! ## Lists -/

/-- A list comes back exactly if every item does. -/
theorem mapM_eq_self_iff {f : α → Option α} {as : List α} :
    as.mapM f = some as ↔ ∀ a ∈ as, f a = some a := by
  induction as with
  | nil => exact ⟨fun _ => List.forall_mem_nil _, fun _ => rfl⟩
  | cons a as ih =>
    rw [List.forall_mem_cons, ← ih, List.mapM_cons]
    exact bind_eq_some_iff_of_inj₂ List.cons.inj

/-- A list is lost exactly if some item is. -/
theorem mapM_eq_none_iff {f : α → Option β} {as : List α} :
    as.mapM f = none ↔ ∃ a ∈ as, f a = none := by
  induction as with
  | nil => exact ⟨nofun, fun ⟨_, ha, _⟩ => absurd ha List.not_mem_nil⟩
  | cons a as ih =>
    rw [List.exists_mem_cons_iff, ← ih, List.mapM_cons]
    cases f a with
    | none => exact iff_of_true rfl (.inl rfl)
    | some b => cases as.mapM f <;> simp

section lists

variable {item : Json → Option α} {toJson : β → Json}

/-- The items of a list are read and decoded one by one. -/
theorem rereadItems_bind (bs : List β) :
    ((rereadItems (bs.map toJson)).bind fun items => items.mapM item) =
      bs.mapM fun b => brought item (toJson b) := by
  induction bs with
  | nil => rfl
  | cons b bs ih =>
    rw [List.mapM_cons, ← ih, List.map_cons, rereadItems]
    refine Eq.trans ?_ (bind_parts (toJson b).reread (rereadItems (bs.map toJson)) item
      (fun items => items.mapM item) List.cons)
    cases (toJson b).reread with
    | none => rfl
    | some j =>
      cases rereadItems (bs.map toJson) with
      | none => rfl
      | some items =>
        show (j :: items).mapM item = _
        rw [List.mapM_cons]
        rfl

/-- Of a list its items come back. -/
theorem brought_list (bs : List β) :
    brought (list? item) (ofList toJson bs) = bs.mapM fun b => brought item (toJson b) := by
  rw [← rereadItems_bind, brought, ofList, reread, Option.bind_map]
  rfl

/-- The values of a map are read and decoded one by one. -/
theorem rereadMembers_bind (d : Dict β) :
    ((rereadMembers (d.map fun p => (p.1, toJson p.2))).bind fun members =>
      members.mapM fun m => (item m.2).map (m.1, ·)) =
      d.mapM fun p => (brought item (toJson p.2)).map (p.1, ·) := by
  induction d with
  | nil => rfl
  | cons p d ih =>
    obtain ⟨key, b⟩ := p
    rw [List.mapM_cons, ← ih, List.map_cons, rereadMembers, brought, Option.map_bind]
    refine Eq.trans ?_ (bind_parts (toJson b).reread (rereadMembers (d.map fun p => (p.1, toJson p.2)))
      (fun j => (item j).map (key, ·)) (fun members => members.mapM fun m => (item m.2).map (m.1, ·))
      List.cons)
    cases (toJson b).reread with
    | none => rfl
    | some j =>
      cases rereadMembers (d.map fun p => (p.1, toJson p.2)) with
      | none => rfl
      | some members =>
        show ((key, j) :: members).mapM (fun m => (item m.2).map (m.1, ·)) = _
        rw [List.mapM_cons]
        rfl

/-- Of a map its values come back, and are put in the order of their keys. -/
theorem brought_dict (d : Dict β) :
    brought (dict? item) (ofDict toJson d) =
      (d.mapM fun p => (brought item (toJson p.2)).map (p.1, ·)).bind fun d => some (Dict.ofList d) := by
  rw [← rereadMembers_bind, brought, ofDict, reread, Option.bind_map, Option.bind_assoc]
  rfl

/-- Nothing comes back of a map if of one of its values nothing does. -/
theorem brought_dict_eq_none {d : Dict β} (h : ∃ p ∈ d, brought item (toJson p.2) = none) :
    brought (dict? item) (ofDict toJson d) = none := by
  obtain ⟨p, hp, hnone⟩ := h
  have hmembers : (d.mapM fun p => (brought item (toJson p.2)).map (p.1, ·)) = none :=
    mapM_eq_none_iff.2 ⟨p, hp, by rw [hnone]; rfl⟩
  rw [brought_dict, hmembers]
  rfl

/-- A map comes back with the keys it had. -/
theorem keys_of_mapM {f : β → Option α} {d : Dict β} {d' : Dict α}
    (h : (d.mapM fun p => (f p.2).map (p.1, ·)) = some d') : Dict.keys d' = Dict.keys d := by
  induction d generalizing d' with
  | nil =>
    cases h
    rfl
  | cons p d ih =>
    rw [List.mapM_cons] at h
    obtain ⟨q, hq, hrest⟩ := Option.bind_eq_some_iff.1 h
    obtain ⟨rest, hmembers, hwhole⟩ := Option.bind_eq_some_iff.1 hrest
    obtain ⟨a, -, rfl⟩ := Option.map_eq_some_iff.1 hq
    cases hwhole
    show p.1 :: Dict.keys rest = p.1 :: Dict.keys d
    rw [ih hmembers]

/-- A map comes back if its values do: its keys are in order already. -/
theorem brought_dict_eq_self_iff {toJson : α → Json} {d : Dict α} (hd : Dict.Ordered d) :
    brought (dict? item) (ofDict toJson d) = some d ↔ ∀ p ∈ d, brought item (toJson p.2) = some p.2 := by
  have hvalue : ∀ p : String × α, (brought item (toJson p.2)).map (p.1, ·) = some p ↔
      brought item (toJson p.2) = some p.2 := by
    intro p
    constructor
    · intro h
      obtain ⟨a, ha, hp⟩ := Option.map_eq_some_iff.1 h
      rw [ha, ← hp]
    · intro h
      rw [h]
      rfl
  have hall : (d.mapM fun p => (brought item (toJson p.2)).map (p.1, ·)) = some d ↔
      ∀ p ∈ d, brought item (toJson p.2) = some p.2 :=
    mapM_eq_self_iff.trans (forall₂_congr fun p _ => hvalue p)
  rw [brought_dict, ← hall]
  cases hread : d.mapM fun p => (brought item (toJson p.2)).map (p.1, ·) with
  | none => exact ⟨nofun, nofun⟩
  | some d' =>
    have hkeys : Dict.keys d' = Dict.keys d := @keys_of_mapM _ _ (fun a => brought item (toJson a)) _ _ hread
    rw [Option.bind_some, Dict.ofList_of_ordered (Dict.ordered_of_keys hkeys hd)]

end lists

/-! ## Absent values and records -/

section records

section absent

variable {decode : Json → Option α} {toJson : β → Json}

/-- Of a value that may be absent it comes back, unless its JSON is read as null. -/
theorem brought_option (hnull : ∀ b, ∀ j ∈ (toJson b).reread, j.isNull = false) (o : Option β) :
    brought (option? decode) (ofOption toJson o) =
      o.elim (some none) fun b => (brought decode (toJson b)).map some := by
  cases o with
  | none => rfl
  | some b =>
    rw [Option.elim_some, brought, brought, ofOption]
    cases hread : (toJson b).reread with
    | none => rfl
    | some j =>
      have hj := hnull b j hread
      simp [option?, hj]

/-- An optional value comes back exactly if the value does, where no value is written as null. -/
theorem brought_option_eq_self_iff {toJson : α → Json}
    (hnull : ∀ a, ∀ j ∈ (toJson a).reread, j.isNull = false) {o : Option α} :
    brought (option? decode) (ofOption toJson o) = some o ↔
      ∀ a ∈ o.toList, brought decode (toJson a) = some a := by
  rw [brought_option hnull]
  cases o with
  | none => exact iff_of_true rfl (List.forall_mem_nil _)
  | some a =>
    rw [Option.toList_some, List.forall_mem_singleton, Option.elim_some]
    simp

/-- An optional value is lost if the value is, where no value is written as null. -/
theorem brought_option_eq_none (hnull : ∀ b, ∀ j ∈ (toJson b).reread, j.isNull = false) {o : Option β}
    (h : ∃ b ∈ o.toList, brought decode (toJson b) = none) :
    brought (option? decode) (ofOption toJson o) = none := by
  obtain ⟨b, hb, hnone⟩ := h
  rw [Option.mem_toList] at hb
  rw [brought_option hnull, hb, Option.elim_some, hnone]
  rfl

end absent

/-- Of a value that is read as its one part is read, in a wrapping, this part comes back. -/
theorem brought_wrapped {j whole : Json} {wrap : Json → Json} {part : Json → Option α}
    {decode : Json → Option β} {mk : α → β} (hread : whole.reread = j.reread.bind fun r => some (wrap r))
    (hdecode : ∀ r, decode (wrap r) = (part r).bind fun a => some (mk a)) :
    brought decode whole = (brought part j).bind fun a => some (mk a) := by
  rw [brought, brought, hread, Option.bind_assoc, Option.bind_assoc]
  exact congrArg _ (funext hdecode)

variable {key₁ key₂ key₃ : String} {f₁ : Json → Option α} {f₂ : Json → Option β}
  {f₃ : Json → Option γ}

/-- Of a record of two parts the parts come back. -/
theorem brought_pair {mk : α → β → δ} {decode : Json → Option δ}
    (hdecode : ∀ r₁ r₂, decode (object [(key₁, r₁), (key₂, r₂)]) =
      (f₁ r₁).bind fun a => (f₂ r₂).bind fun b => some (mk a b)) (j₁ j₂ : Json) :
    brought decode (object [(key₁, j₁), (key₂, j₂)]) =
      (brought f₁ j₁).bind fun a => (brought f₂ j₂).bind fun b => some (mk a b) := by
  refine Eq.trans ?_ (bind_parts j₁.reread j₂.reread f₁ f₂ mk)
  simp only [← hdecode, brought, reread, rereadMembers]
  cases j₁.reread with
  | none => rfl
  | some r₁ => cases j₂.reread <;> rfl

/-- Of a record of three parts the parts come back. -/
theorem brought_triple {mk : α → β → γ → δ} {decode : Json → Option δ}
    (hdecode : ∀ r₁ r₂ r₃, decode (object [(key₁, r₁), (key₂, r₂), (key₃, r₃)]) =
      (f₁ r₁).bind fun a => (f₂ r₂).bind fun b => (f₃ r₃).bind fun c => some (mk a b c))
    (j₁ j₂ j₃ : Json) :
    brought decode (object [(key₁, j₁), (key₂, j₂), (key₃, j₃)]) =
      (brought f₁ j₁).bind fun a => (brought f₂ j₂).bind fun b => (brought f₃ j₃).bind fun c =>
        some (mk a b c) := by
  simp only [brought, reread, rereadMembers]
  cases j₁.reread with
  | none => rfl
  | some r₁ =>
    cases j₂.reread with
    | none => simp
    | some r₂ =>
      cases j₃.reread with
      | none => simp
      | some r₃ => exact hdecode r₁ r₂ r₃

end records

/-! ## Depth and numbers of parts -/

section whole

/-- An item is nested less deeply than its array. -/
theorem depth_lt_array {items : List Json} {j : Json} (h : j ∈ items) : j.depth < (array items).depth := by
  rw [Json.depth]
  induction items with
  | nil => exact absurd h List.not_mem_nil
  | cons item items ih =>
    rw [Json.depth.depths]
    rcases List.mem_cons.1 h with rfl | h
    · omega
    · have := ih h
      omega

/-- A value is nested less deeply than its object. -/
theorem depth_lt_object {members : List (String × Json)} {m : String × Json} (h : m ∈ members) :
    m.2.depth < (object members).depth := by
  rw [Json.depth]
  induction members with
  | nil => exact absurd h List.not_mem_nil
  | cons member members ih =>
    rw [Json.depth.memberDepths]
    rcases List.mem_cons.1 h with rfl | h
    · omega
    · have := ih h
      omega

variable {toJson : α → Json}

/-- An item is nested less deeply than its list. -/
theorem depth_lt_ofList {as : List α} {a : α} (h : a ∈ as) :
    (toJson a).depth < (ofList toJson as).depth :=
  depth_lt_array (List.mem_map_of_mem h)

/-- A value is nested less deeply than its map. -/
theorem depth_lt_ofDict {d : Dict α} {p : String × α} (h : p ∈ d) :
    (toJson p.2).depth < (ofDict toJson d).depth := by
  have hmem : (p.1, toJson p.2) ∈ d.map fun q => (q.1, toJson q.2) := List.mem_map.2 ⟨p, h, rfl⟩
  exact depth_lt_object hmem

/-- All parts come back if all their numbers do. -/
theorem forall_iff_readsBack {as : List α} {back : α → Prop} {numbers : α → List Double}
    (h : ∀ a ∈ as, back a ↔ ∀ x ∈ numbers a, ReadsBack x) :
    (∀ a ∈ as, back a) ↔ ∀ x ∈ as.flatMap numbers, ReadsBack x := by
  constructor
  · intro hall x hx
    obtain ⟨a, ha, hxa⟩ := List.mem_flatMap.1 hx
    exact (h a ha).1 (hall a ha) x hxa
  · intro hall a ha
    exact (h a ha).2 fun x hx => hall x (List.mem_flatMap.2 ⟨a, ha, hx⟩)

/-- If the items of a list that hold a number without a text are lost, so is an item of a list with
such a number. -/
theorem exists_of_mem_flatMap {as : List α} {numbers : α → List Double} {lost : α → Prop}
    (h : ∀ a, (∃ x ∈ numbers a, x.isFinite = false) → lost a)
    (hx : ∃ x ∈ as.flatMap numbers, x.isFinite = false) : ∃ a ∈ as, lost a := by
  obtain ⟨x, hx, hinvalid⟩ := hx
  obtain ⟨a, ha, hxa⟩ := List.mem_flatMap.1 hx
  exact ⟨a, ha, h a ⟨x, hxa, hinvalid⟩⟩

end whole

end LogSearch.Json
