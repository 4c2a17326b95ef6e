import Mathlib.Data.List.Forall2

/-!
# Computations that may fail

* `bind_eq_ok`, `bind_eq_error`: two steps succeed if each of them does, and fail where one does.
* `forall₂_of_mapM`, `exists_of_mapM`: the results of a list of computations that all succeed.
* `exists_mapM`, `exists_foldlM`: a run succeeds if each of its steps does.
* `foldlM_invariant`: what every step that succeeds keeps, a run of them keeps.
* `FailsFirst`: a computation that fails with the first of some faults. Those of a run are the faults of
  its steps, one after the other.
-/

namespace LogSearch

variable {α β ε : Type}

/-- Two steps succeed if both do. -/
theorem bind_eq_ok {x : Except ε α} {f : α → Except ε β} {b : β} :
    x >>= f = .ok b ↔ ∃ a, x = .ok a ∧ f a = .ok b := by
  cases x <;> simp [bind, Except.bind]

/-- Two steps fail if the first does, or the second after it. -/
theorem bind_eq_error {x : Except ε α} {f : α → Except ε β} {e : ε} :
    x >>= f = .error e ↔ x = .error e ∨ ∃ a, x = .ok a ∧ f a = .error e := by
  cases x <;> simp [bind, Except.bind]

/-- Where all items succeed, the results go with the items, one for one. -/
theorem forall₂_of_mapM {f : α → Except ε β} {as : List α} {bs : List β}
    (h : as.mapM f = .ok bs) : List.Forall₂ (fun a b => f a = .ok b) as bs := by
  induction as generalizing bs with
  | nil =>
    cases h
    exact .nil
  | cons a as ih =>
    rw [List.mapM_cons] at h
    obtain ⟨b, ha, h⟩ := bind_eq_ok.1 h
    obtain ⟨rest, hrest, h⟩ := bind_eq_ok.1 h
    cases h
    exact .cons ha (ih hrest)

/-- In lists that go together, every item of the first has one in the second. -/
theorem exists_of_forall₂ {r : α → β → Prop} {as : List α} {bs : List β}
    (h : List.Forall₂ r as bs) {a : α} (ha : a ∈ as) : ∃ b ∈ bs, r a b := by
  induction h with
  | nil => exact absurd ha List.not_mem_nil
  | cons hab _ ih =>
    rcases List.mem_cons.1 ha with rfl | ha
    · exact ⟨_, List.mem_cons_self, hab⟩
    · obtain ⟨b, hb, hr⟩ := ih ha
      exact ⟨b, List.mem_cons_of_mem _ hb, hr⟩

/-- Each result comes from one of the computations. -/
theorem exists_of_mapM {f : α → Except ε β} {as : List α} {bs : List β} (h : as.mapM f = .ok bs)
    {b : β} (hb : b ∈ bs) : ∃ a ∈ as, f a = .ok b :=
  exists_of_forall₂ (forall₂_of_mapM h).flip hb

/-- If no item fails, neither do all together. -/
theorem exists_mapM {f : α → Except ε β} {as : List α} (h : ∀ a ∈ as, ∃ b, f a = .ok b) :
    ∃ bs, as.mapM f = .ok bs := by
  induction as with
  | nil => exact ⟨[], rfl⟩
  | cons a as ih =>
    obtain ⟨b, hb⟩ := h a List.mem_cons_self
    obtain ⟨bs, hbs⟩ := ih fun a ha => h a (List.mem_cons_of_mem _ ha)
    refine ⟨b :: bs, ?_⟩
    rw [List.mapM_cons, hb, hbs]
    rfl

/-- If no step fails, whatever comes before it, neither does a fold. -/
theorem exists_foldlM {f : β → α → Except ε β} {as : List α} (h : ∀ a ∈ as, ∀ b, ∃ c, f b a = .ok c)
    (b : β) : ∃ c, as.foldlM f b = .ok c := by
  induction as generalizing b with
  | nil => exact ⟨b, rfl⟩
  | cons a as ih =>
    obtain ⟨c, hc⟩ := h a List.mem_cons_self b
    rw [List.foldlM_cons, hc]
    exact ih (fun a ha => h a (List.mem_cons_of_mem _ ha)) c

/-- What every step that succeeds keeps, a run of them keeps. -/
theorem foldlM_invariant {P : β → Prop} {f : β → α → Except ε β} {as : List α}
    (hstep : ∀ a ∈ as, ∀ b c, P b → f b a = .ok c → P c) {b c : β} (hb : P b)
    (h : as.foldlM f b = .ok c) : P c := by
  induction as generalizing b with
  | nil =>
    cases h
    exact hb
  | cons a as ih =>
    rw [List.foldlM_cons] at h
    obtain ⟨d, hd, h⟩ := bind_eq_ok.1 h
    have hkept : P d := hstep a List.mem_cons_self b d hb hd
    exact ih (fun a ha => hstep a (List.mem_cons_of_mem _ ha)) hkept h

/-! ## The fault of a run -/

/-- The computation fails with the first of these faults, and succeeds if there are none. -/
def FailsFirst (x : Except ε α) (faults : List ε) : Prop :=
  ∀ e, x = .error e ↔ faults.head? = some e

namespace FailsFirst

variable {x : Except ε α} {faults more : List ε}

/-- A value fails with nothing. -/
theorem ok (a : α) : FailsFirst (.ok a : Except ε α) [] := by
  intro e
  exact iff_of_false nofun nofun

/-- A fault is its own first fault. -/
theorem error (e : ε) : FailsFirst (.error e : Except ε α) [e] := by
  intro e'
  rw [List.head?_singleton, Option.some_inj, Except.error.injEq]

/-- What succeeds has no faults. -/
theorem faults_eq_nil (h : FailsFirst x faults) {a : α} (hx : x = .ok a) : faults = [] := by
  apply List.head?_eq_none_iff.1
  apply Option.eq_none_iff_forall_ne_some.2
  intro e he
  rw [← h e, hx] at he
  cases he

/-- Of two steps the second one is reached only if the first one has no faults. -/
theorem bind {f : α → Except ε β} (hx : FailsFirst x faults)
    (hf : ∀ a, x = .ok a → FailsFirst (f a) more) : FailsFirst (x >>= f) (faults ++ more) := by
  intro e
  cases h : x with
  | error e' =>
    have hfirst : faults.head? = some e' := (hx e').1 h
    rw [List.head?_append, hfirst]
    show Except.error e' = Except.error e ↔ some e' = some e
    rw [Except.error.injEq, Option.some_inj]
  | ok a =>
    rw [hx.faults_eq_nil h]
    exact hf a h e

/-- What is done with a result has no faults of its own. -/
theorem map (hx : FailsFirst x faults) (f : α → β) :
    FailsFirst (x >>= fun a => .ok (f a)) faults := by
  have h : FailsFirst (x >>= fun a => .ok (f a)) (faults ++ []) := hx.bind fun a _ => ok (f a)
  rwa [List.append_nil] at h

/-- Item by item, the first fault is that of the first item that has one. -/
theorem mapM {f : α → Except ε β} {faults : α → List ε} {as : List α}
    (h : ∀ a ∈ as, FailsFirst (f a) (faults a)) : FailsFirst (as.mapM f) (as.flatMap faults) := by
  induction as with
  | nil => exact ok []
  | cons a as ih =>
    rw [List.mapM_cons, List.flatMap_cons]
    apply (h a List.mem_cons_self).bind
    intro b _
    exact (ih fun a ha => h a (List.mem_cons_of_mem _ ha)).map (b :: ·)

/-- Step by step, the first fault is that of the first item that has one, whatever was made before
it. -/
theorem foldlM {f : β → α → Except ε β} {faults : α → List ε} {as : List α}
    (h : ∀ a ∈ as, ∀ b, FailsFirst (f b a) (faults a)) (b : β) :
    FailsFirst (as.foldlM f b) (as.flatMap faults) := by
  induction as generalizing b with
  | nil => exact ok b
  | cons a as ih =>
    rw [List.foldlM_cons, List.flatMap_cons]
    apply (h a List.mem_cons_self b).bind
    intro c _
    exact ih (fun a ha => h a (List.mem_cons_of_mem _ ha)) c

end FailsFirst

end LogSearch
