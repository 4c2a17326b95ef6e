import LogSearch.Engine.Basic
import LogSearch.Proofs.Failing
import LogSearch.Proofs.Partition
import LogSearch.Proofs.Source.Registry

/-!
# Which sources a query reads

A query reads the sources that its filters name, each once in the order in which they are named
first, or else those of its profile, without those that its filters exclude. The members of a profile
are taken as they were set, so that a member which is set twice is read twice.

* `Engine.mentioned`, `Engine.excluded`, `Engine.choices`: what the filters and the profile say.
* `Engine.resolveSources_eq_ok_iff`: what they come to.
* `Engine.Repeats`: a profile repeats one of its members; `Engine.nodup_resolved_iff`: only then the
  sources repeat.
-/

namespace LogSearch

namespace Engine

/-! ## What a query resolves to -/

/-- The sources that filters name, in their order. -/
def mentioned (filters : List PreFilter) : List String :=
  ((filters.filter selectsSource).filter fun f => f.op = .equal).map PreFilter.value

/-- The sources that filters exclude. -/
def excluded (filters : List PreFilter) : List String :=
  ((filters.filter selectsSource).filter fun f => f.op = .notEqual).map PreFilter.value

/-- The sources to choose from: those that the filters name, each once, in the order in which they
are named first; without any, those of the profile. -/
def choices (r : Registry) (profile : String) (filters : List PreFilter) :
    Except RegistryFault (List String) :=
  if (mentioned filters).isEmpty then r.profileInstances profile
  else .ok (mentioned filters).eraseDups

/-- The filters that exclude sources let a source pass unless they name it. -/
theorem accepts_all_iff {filters : List PreFilter} {name : String} :
    (((filters.filter selectsSource).filter fun f => f.op = .notEqual).all fun f => f.accepts name) =
      decide (name ∉ excluded filters) := by
  rw [Bool.eq_iff_iff, List.all_eq_true, decide_eq_true_eq]
  constructor
  · intro hall hmem
    obtain ⟨f, hf, rfl⟩ := List.mem_map.1 hmem
    have haccepts := hall f hf
    rw [PreFilter.accepts, of_decide_eq_true (List.mem_filter.1 hf).2] at haccepts
    exact of_decide_eq_true haccepts rfl
  · intro hnone f hf
    rw [PreFilter.accepts, of_decide_eq_true (List.mem_filter.1 hf).2]
    exact decide_eq_true fun heq => hnone (heq ▸ List.mem_map_of_mem hf)

/-- Named sources are taken, each once, if all of them are there. -/
theorem namedSources_eq_ok_iff {r : Registry} {names chosen : List String} :
    namedSources r names = .ok chosen ↔
      (∀ name ∈ names, r.hasInstance name = true) ∧ chosen = names.eraseDups := by
  unfold namedSources
  split
  · next missing hfind =>
    refine ⟨nofun, fun h => ?_⟩
    have hmissing := List.find?_some hfind
    rw [h.1 missing (List.mem_of_find?_eq_some hfind)] at hmissing
    cases hmissing
  · next hfind =>
    have hall : ∀ name ∈ names, r.hasInstance name = true := fun name hname => by
      simpa using List.find?_eq_none.1 hfind name hname
    constructor
    · intro h
      exact ⟨hall, (Except.ok.inj h).symm⟩
    · rintro ⟨-, rfl⟩
      rfl

/-- The sources that are left after those are taken out that the filters exclude. -/
def remaining (filters : List PreFilter) (chosen : List String) : Except EngineFault (List String) :=
  if (chosen.filter fun name => name ∉ excluded filters).isEmpty then .error .noInstances
  else .ok (chosen.filter fun name => name ∉ excluded filters)

/-- Sources are chosen first and excluded after that. -/
theorem resolveSources_eq (r : Registry) (profile : String) (filters : List PreFilter) :
    resolveSources r profile filters =
      (if (mentioned filters).isEmpty then (r.profileInstances profile).mapError .registry
        else namedSources r (mentioned filters)) >>= remaining filters := by
  unfold resolveSources
  simp only [accepts_all_iff]
  split
  · next h =>
    have hempty : (mentioned filters).isEmpty := h
    rw [if_pos hempty]
    rfl
  · next h =>
    have hsome : ¬(mentioned filters).isEmpty := h
    rw [if_neg hsome]
    rfl

/-- Sources that are not excluded remain, and there has to be one. -/
theorem remaining_eq_ok_iff {filters : List PreFilter} {chosen names : List String} :
    remaining filters chosen = .ok names ↔
      names = chosen.filter (fun name => name ∉ excluded filters) ∧ names ≠ [] := by
  unfold remaining
  split
  · next hnone => exact ⟨nofun, fun h => absurd (h.1.trans (List.isEmpty_iff.1 hnone)) h.2⟩
  · next hsome =>
    constructor
    · intro h
      rw [← Except.ok.inj h]
      exact ⟨rfl, fun hnone => hsome (List.isEmpty_iff.2 hnone)⟩
    · rintro ⟨rfl, -⟩
      rfl

/-- A query resolves to the sources that it can choose from without those that it excludes, unless
there are none, or the filters name a source that is not there. -/
theorem resolveSources_eq_ok_iff {r : Registry} {profile : String} {filters : List PreFilter}
    {names : List String} :
    resolveSources r profile filters = .ok names ↔
      (∀ name ∈ mentioned filters, r.hasInstance name = true) ∧
        ∃ chosen, choices r profile filters = .ok chosen ∧
          names = chosen.filter (fun name => name ∉ excluded filters) ∧ names ≠ [] := by
  rw [resolveSources_eq, bind_eq_ok]
  unfold choices
  simp only [remaining_eq_ok_iff]
  split
  · next hempty =>
    rw [List.isEmpty_iff.1 hempty]
    cases r.profileInstances profile <;> simp [Except.mapError]
  · simp only [namedSources_eq_ok_iff, Except.ok.injEq]
    constructor
    · rintro ⟨chosen, ⟨hall, rfl⟩, hnames⟩
      exact ⟨hall, _, rfl, hnames⟩
    · rintro ⟨hall, chosen, rfl, hnames⟩
      exact ⟨_, ⟨hall, rfl⟩, hnames⟩

/-- No filter names a source, and the profile was set with a member twice that the filters do not
exclude. -/
def Repeats (r : Registry) (profile : String) (filters : List PreFilter) : Prop :=
  mentioned filters = [] ∧ ∃ members, Dict.get? profile r.profiles = some members ∧
    ¬(members.filter fun name => name ∉ excluded filters).Nodup

/-- A query resolves to no source twice, unless its profile repeats one that it keeps. -/
theorem nodup_resolved_iff {r : Registry} (hsound : r.Sound) {profile : String}
    {filters : List PreFilter} {names : List String}
    (h : resolveSources r profile filters = .ok names) :
    names.Nodup ↔ ¬Repeats r profile filters := by
  obtain ⟨-, chosen, hchosen, rfl, -⟩ := resolveSources_eq_ok_iff.1 h
  unfold choices at hchosen
  split at hchosen
  · next hempty =>
    unfold Registry.profileInstances at hchosen
    split at hchosen
    · next members hmembers =>
      cases hchosen
      simp [Repeats, List.isEmpty_iff.1 hempty, hmembers]
    · next hunset =>
      split at hchosen
      · cases hchosen
        refine iff_of_true ((Dict.nodup_keys hsound.ordered).filter _) ?_
        rintro ⟨-, members, hmembers, -⟩
        rw [hunset] at hmembers
        cases hmembers
      · cases hchosen
  · next hmentioned =>
    cases hchosen
    refine iff_of_true ((nodup_eraseDups _).filter _) ?_
    rintro ⟨hnone, -⟩
    exact hmentioned (List.isEmpty_iff.2 hnone)

/-- All sources that a query resolves to are there. -/
theorem hasInstance_of_mem_resolved {r : Registry} (hsound : r.Sound) {profile : String}
    {filters : List PreFilter} {names : List String}
    (h : resolveSources r profile filters = .ok names) :
    ∀ name ∈ names, r.hasInstance name = true := by
  obtain ⟨hall, chosen, hchosen, rfl, -⟩ := resolveSources_eq_ok_iff.1 h
  intro name hname
  have hmem : name ∈ chosen := (List.mem_filter.1 hname).1
  unfold choices at hchosen
  split at hchosen
  · exact hsound.hasInstance_of_mem hchosen name hmem
  · cases hchosen
    exact hall name (List.mem_eraseDups.1 hmem)

end Engine

end LogSearch
