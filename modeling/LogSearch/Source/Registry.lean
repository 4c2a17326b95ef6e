import LogSearch.Source.Plugin

/-!
# The registry of sources

* `Registry`: plugins, named sources, and profiles, which are lists of sources.
* `Registry.createInstance`, `Registry.setProfile`: the ways to add to it.
* `Registry.profileInstances`: the sources of a profile; the default profile has them all unless it
  is set.
-/

namespace LogSearch

/-- The profile that always exists. -/
def defaultProfile : String := "default"

/-- A named source. -/
structure Instance where
  plugin : String
  description : String
  source : Source

/-- Plugins, named sources and profiles. -/
structure Registry where
  plugins : Dict Plugin
  instances : Dict Instance
  profiles : Dict (List String)

/-- Why the registry cannot do something. -/
inductive RegistryFault
  | unknownProfile (name : String)
  | unknownInstance (name : String)
  | unknownPlugin (name : String)
  | source (fault : SourceFault)
deriving DecidableEq, Repr

/-- The wording of a fault. -/
def RegistryFault.message : RegistryFault → String
  | unknownProfile name => "unknown search profile '" ++ name ++ "'"
  | unknownInstance name => "unknown source instance '" ++ name ++ "'"
  | unknownPlugin name => "unknown plugin '" ++ name ++ "'"
  | source fault => fault.message

namespace Registry

/-- Nothing. -/
def empty : Registry := ⟨[], [], []⟩

/-- The built-in plugins. -/
def builtin : Registry := ⟨builtinPlugins, [], []⟩

/-- Adds a source under a name, in the place of one with that name. -/
def addInstance (r : Registry) (name : String) (i : Instance) : Registry :=
  { r with instances := Dict.insert name i r.instances }

/-- Makes a source and adds it under a name. -/
def createInstance (r : Registry) (files : Files) (name plugin description : String)
    (params : Dict String) : Except RegistryFault Registry :=
  match Dict.get? plugin r.plugins with
  | none => .error (.unknownPlugin plugin)
  | some p =>
    match p.create files params with
    | .error e => .error (.source e)
    | .ok source => .ok (r.addInstance name ⟨plugin, description, source⟩)

/-- Whether there is a source under a name. -/
def hasInstance (r : Registry) (name : String) : Bool := Dict.contains name r.instances

/-- Sets a profile; all its members have to be there. -/
def setProfile (r : Registry) (name : String) (members : List String) :
    Except RegistryFault Registry :=
  match members.find? fun m => !r.hasInstance m with
  | some missing => .error (.unknownInstance missing)
  | none => .ok { r with profiles := Dict.insert name members r.profiles }

/-- The sources of a profile. -/
def profileInstances (r : Registry) (profile : String) : Except RegistryFault (List String) :=
  match Dict.get? profile r.profiles with
  | some members => .ok members
  | none =>
    if profile = defaultProfile then .ok (Dict.keys r.instances)
    else .error (.unknownProfile profile)

/-- The source under a name. -/
def source (r : Registry) (name : String) : Except RegistryFault Source :=
  match Dict.get? name r.instances with
  | some i => .ok i.source
  | none => .error (.unknownInstance name)

/-- All profiles, the default one included. -/
def allProfiles (r : Registry) : Dict (List String) :=
  if Dict.contains defaultProfile r.profiles then r.profiles
  else Dict.insert defaultProfile (Dict.keys r.instances) r.profiles

/-- The labels of a source with their values. -/
def labels (r : Registry) (name : String) : Except RegistryFault (Dict (List String)) := do
  match (← r.source name).labels with
  | .ok d => return d
  | .error e => throw (.source e)

end Registry

end LogSearch
