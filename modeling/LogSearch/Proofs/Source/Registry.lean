import LogSearch.Source.Registry

/-!
# Registries that come about

* `Registry.Built`: the ways to come to a registry.
* `Registry.Built.ordered`: sources have different names; `Registry.Built.members`: the members of a
  profile are there.
-/

namespace LogSearch

/-- The keys after an insertion are the key and those of before. -/
theorem Dict.contains_insert {α : Type} (key : String) (value : α) (d : Dict α) (other : String) :
    contains other (insert key value d) = (decide (key = other) || contains other d) := by
  unfold contains
  rw [get?_insert]
  split
  · next heq => simp [heq]
  · next hne => simp [hne]

/-- A key of the list is a key. -/
theorem Dict.contains_of_mem_keys {α : Type} {d : Dict α} (hd : Ordered d) {key : String}
    (h : key ∈ keys d) : contains key d = true := by
  obtain ⟨⟨k, value⟩, hmem, rfl⟩ := List.mem_map.1 h
  rw [contains, get?_of_mem hd hmem]
  rfl

/-- No key is listed twice. -/
theorem Dict.nodup_keys {α : Type} {d : Dict α} (hd : Ordered d) : (keys d).Nodup :=
  List.pairwise_map.2 (hd.imp fun h => String.ne_of_lt h)

namespace Registry

/-- Registries that come from plugins by adding sources and setting profiles. -/
inductive Built : Registry → Prop
  | plugins (plugins : Dict Plugin) : Built ⟨plugins, [], []⟩
  | addInstance {r : Registry} (h : Built r) (name : String) (i : Instance) :
    Built (r.addInstance name i)
  | createInstance {r s : Registry} (h : Built r) {files : Files} {name plugin description : String}
    {params : Dict String} (hs : r.createInstance files name plugin description params = .ok s) :
    Built s
  | setProfile {r s : Registry} (h : Built r) {name : String} {members : List String}
    (hs : r.setProfile name members = .ok s) : Built s

/-- A source that is created is added under its name, and nothing else changes. -/
theorem createInstance_eq_ok {r s : Registry} {files : Files} {name plugin description : String}
    {params : Dict String} (h : r.createInstance files name plugin description params = .ok s) :
    ∃ i, s = r.addInstance name i := by
  unfold createInstance at h
  split at h
  · cases h
  · split at h
    · cases h
    · exact ⟨_, (Except.ok.inj h).symm⟩

/-- A profile is set only when the registry has all its members, and nothing else changes. -/
theorem setProfile_eq_ok {r s : Registry} {name : String} {members : List String}
    (h : r.setProfile name members = .ok s) :
    (∀ m ∈ members, r.hasInstance m = true) ∧
      s = { r with profiles := Dict.insert name members r.profiles } := by
  unfold setProfile at h
  split at h
  · cases h
  · next hfind =>
    refine ⟨fun m hm => ?_, (Except.ok.inj h).symm⟩
    simpa using List.find?_eq_none.1 hfind m hm

/-- What holds of a registry however it has come about. -/
structure Sound (r : Registry) : Prop where
  ordered : Dict.Ordered r.instances
  members : ∀ profile members, Dict.get? profile r.profiles = some members →
    ∀ m ∈ members, r.hasInstance m = true

/-- Adding a source keeps a registry sound. -/
theorem Sound.addInstance {r : Registry} (h : r.Sound) (name : String) (i : Instance) :
    (r.addInstance name i).Sound where
  ordered := Dict.ordered_insert name i h.ordered
  members profile members hprofile m hm := by
    have hbefore : Dict.contains m r.instances = true := h.members profile members hprofile m hm
    rw [hasInstance, Registry.addInstance, Dict.contains_insert, hbefore, Bool.or_true]

/-- Setting a profile keeps a registry sound. -/
theorem Sound.setProfile {r s : Registry} (h : r.Sound) {name : String} {members : List String}
    (hs : r.setProfile name members = .ok s) : s.Sound := by
  obtain ⟨hall, rfl⟩ := setProfile_eq_ok hs
  refine ⟨h.ordered, fun profile found hfound => ?_⟩
  rw [Dict.get?_insert] at hfound
  split at hfound
  · exact Option.some.inj hfound ▸ hall
  · exact h.members profile found hfound

/-- Every registry that is built is sound. -/
theorem Built.sound {r : Registry} (h : r.Built) : r.Sound := by
  induction h with
  | plugins => exact ⟨.nil, fun _ _ hnone => nomatch hnone⟩
  | addInstance _ name i ih => exact ih.addInstance name i
  | createInstance _ hs ih =>
    obtain ⟨i, rfl⟩ := createInstance_eq_ok hs
    exact ih.addInstance _ i
  | setProfile _ hs ih => exact ih.setProfile hs

/-- The sources of a profile are there. -/
theorem Sound.hasInstance_of_mem {r : Registry} (h : r.Sound) {profile : String}
    {members : List String} (hprofile : r.profileInstances profile = .ok members) :
    ∀ m ∈ members, r.hasInstance m = true := by
  unfold profileInstances at hprofile
  split at hprofile
  · next found hfound => exact Except.ok.inj hprofile ▸ h.members profile found hfound
  · split at hprofile
    · exact Except.ok.inj hprofile ▸ fun m hm => Dict.contains_of_mem_keys h.ordered hm
    · cases hprofile

end Registry

end LogSearch
