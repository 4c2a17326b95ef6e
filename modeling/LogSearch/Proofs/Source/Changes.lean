import LogSearch.Proofs.Source.Registry

/-!
# Registries that change

* `RegistryEvent`, `Registry.step`: all changes of a registry, in any order.
* `Registry.step_cases`: what a change comes to.
* `Registry.Sound.step`, `Registry.hasInstance_step`: profiles go on to name sources that are there,
  since no change takes one away.
-/

namespace LogSearch

/-- A change of a registry. -/
inductive RegistryEvent
  | addPlugin (name : String) (plugin : Plugin)
  | addInstance (name : String) (i : Instance)
  | createInstance (files : Files) (name plugin description : String) (params : Dict String)
  | setProfile (name : String) (members : List String)

namespace Registry

/-- The registry after a change; one that is refused changes nothing. -/
def step (r : Registry) : RegistryEvent → Registry
  | .addPlugin name plugin => { r with plugins := Dict.insert name plugin r.plugins }
  | .addInstance name i => r.addInstance name i
  | .createInstance files name plugin description params =>
    (r.createInstance files name plugin description params).toOption.getD r
  | .setProfile name members => (r.setProfile name members).toOption.getD r

/-- A change touches plugins only, adds a source, or sets a profile. -/
theorem step_cases (r : Registry) (ev : RegistryEvent) :
    (∃ plugins, r.step ev = { r with plugins }) ∨ (∃ name i, r.step ev = r.addInstance name i) ∨
      ∃ name members, r.setProfile name members = .ok (r.step ev) := by
  cases ev with
  | addPlugin name plugin => exact .inl ⟨_, rfl⟩
  | addInstance name i => exact .inr (.inl ⟨name, i, rfl⟩)
  | createInstance files name plugin description params =>
    simp only [step]
    cases h : r.createInstance files name plugin description params with
    | error fault => exact .inl ⟨r.plugins, rfl⟩
    | ok s =>
      obtain ⟨i, rfl⟩ := createInstance_eq_ok h
      exact .inr (.inl ⟨name, i, rfl⟩)
  | setProfile name members =>
    simp only [step]
    cases h : r.setProfile name members with
    | error fault => exact .inl ⟨r.plugins, rfl⟩
    | ok s => exact .inr (.inr ⟨name, members, h⟩)

variable {r : Registry}

/-- A change keeps a registry sound. -/
theorem Sound.step (h : r.Sound) (ev : RegistryEvent) : (r.step ev).Sound := by
  rcases r.step_cases ev with ⟨plugins, hs⟩ | ⟨name, i, hs⟩ | ⟨name, members, hs⟩
  · rw [hs]
    exact ⟨h.ordered, h.members⟩
  · rw [hs]
    exact h.addInstance name i
  · exact h.setProfile hs

/-- A source that is there stays. -/
theorem hasInstance_step {m : String} (h : r.hasInstance m = true) (ev : RegistryEvent) :
    (r.step ev).hasInstance m = true := by
  rcases r.step_cases ev with ⟨plugins, hs⟩ | ⟨name, i, hs⟩ | ⟨name, members, hs⟩
  · rw [hs]
    exact h
  · rw [hs]
    show Dict.contains m (Dict.insert name i r.instances) = true
    rw [Dict.contains_insert]
    exact Bool.or_eq_true_iff.2 (.inr h)
  · rw [(setProfile_eq_ok hs).2]
    exact h

/-- A source that is there has a provider. -/
theorem exists_source_of_hasInstance {m : String} (h : r.hasInstance m = true) :
    ∃ source, r.source m = .ok source := by
  obtain ⟨i, hi⟩ := Option.isSome_iff_exists.1 h
  refine ⟨i.source, ?_⟩
  rw [source, hi]

end Registry

end LogSearch
