import LogSearch.Query.Tree
import LogSearch.Source.Registry
import LogSearch.Toml.Reader

/-!
# Configuration

* `Config`: settings of the engine, the sources to make, and the profiles.
* `Config.parse`, `Config.load`: a configuration from a text or a file; a file that is not there gives
  the defaults.
* `Config.registry`: the registry that a configuration describes.
-/

namespace LogSearch

/-- Settings of the engine. -/
structure EngineConfig where
  /-- Rows asked for from each source where a query does not say. -/
  limit : Nat
  /-- Buckets of the histogram of events. -/
  buckets : Nat
  /-- How far a query looks back where it does not say. -/
  lookBack : String
deriving DecidableEq, Repr

/-- A source to make. -/
structure InstanceConfig where
  name : String
  plugin : String
  description : String
  params : Dict Toml

/-- A configuration. -/
structure Config where
  engine : EngineConfig
  instances : List InstanceConfig
  profiles : Dict (List String)

/-- What is wrong with a configuration. -/
inductive ConfigFault
  | unreadable (path reason : String)
  | malformed
  | invalidLookBack (text : String)
  | zeroLimit
  | repeatedInstance (name : String)
deriving DecidableEq, Repr

/-- What is said about a text that describes no configuration. -/
def ConfigFault.malformedText : String := "the text is no configuration"

/-- The wording of a fault. -/
def ConfigFault.message : ConfigFault → String
  | unreadable path reason => "failed to read config " ++ path ++ ": " ++ reason
  | malformed => "invalid config: " ++ malformedText
  | invalidLookBack text =>
    "invalid config: engine.default_range: " ++ TimeSpan.invalidMessage text
  | zeroLimit => "invalid config: engine.default_limit must be positive"
  | repeatedInstance name => "invalid config: instance '" ++ name ++ "' is defined twice"

namespace EngineConfig

/-- The settings where nothing else is said. -/
def default : EngineConfig := ⟨5000, 100, "1h"⟩

/-- How far a query looks back, in milliseconds. -/
def lookBackMillis (c : EngineConfig) : Except ConfigFault Int :=
  match TimeSpan.ofText? c.lookBack with
  | some s => .ok s.millis
  | none => .error (.invalidLookBack c.lookBack)

/-- The settings as JSON. -/
def toJson (c : EngineConfig) : Json :=
  .object [("default_limit", .integer c.limit), ("histogram_buckets", .integer c.buckets),
    ("default_range", .string c.lookBack)]

/-- Settings from JSON. -/
def ofJson? (j : Json) : Option EngineConfig := do
  let f ← Json.fields? ["default_limit", "histogram_buckets", "default_range"] j
  return ⟨← f.defaulted "default_limit" Json.count? default.limit,
    ← f.defaulted "histogram_buckets" Json.count? default.buckets,
    ← f.defaulted "default_range" Json.text? default.lookBack⟩

end EngineConfig

namespace InstanceConfig

/-- The parameters as texts. -/
def textParams (c : InstanceConfig) : Dict String := c.params.map fun (key, v) => (key, v.text)

/-- A source to make as JSON. -/
def toJson (c : InstanceConfig) : Json :=
  .object [("name", .string c.name), ("plugin", .string c.plugin),
    ("description", .string c.description), ("params", Json.ofDict Toml.toJson c.params)]

/-- A source to make from JSON. -/
def ofJson? (j : Json) : Option InstanceConfig := do
  let f ← Json.fields? ["name", "plugin", "description", "params"] j
  return ⟨← f.required "name" Json.text?, ← f.required "plugin" Json.text?,
    ← f.defaulted "description" Json.text? "", ← f.defaulted "params" (Json.dict? Toml.ofJson?) []⟩

end InstanceConfig

namespace Config

/-- The configuration where nothing is said. -/
def default : Config := ⟨EngineConfig.default, [], []⟩

/-- A configuration as JSON. -/
def toJson (c : Config) : Json :=
  .object [("engine", c.engine.toJson), ("instances", Json.ofList InstanceConfig.toJson c.instances),
    ("profiles", Json.ofDict Json.ofTexts c.profiles)]

/-- A configuration from JSON. -/
def ofJson? (j : Json) : Option Config := do
  let f ← Json.fields? ["engine", "instances", "profiles"] j
  return ⟨← f.defaulted "engine" EngineConfig.ofJson? EngineConfig.default,
    ← f.defaulted "instances" (Json.list? InstanceConfig.ofJson?) [],
    ← f.defaulted "profiles" (Json.dict? (Json.list? Json.text?)) []⟩

/-- The first name that is given a second time. -/
def repeated? (names : List String) : Option String :=
  (names.zipIdx.find? fun (name, i) => name ∈ names.take i).map Prod.fst

/-- Whether the configuration makes sense. -/
def check (c : Config) : Except ConfigFault Unit := do
  let _ ← c.engine.lookBackMillis
  if c.engine.limit = 0 then throw .zeroLimit
  match repeated? (c.instances.map InstanceConfig.name) with
  | some name => throw (.repeatedInstance name)
  | none => return ()

/-- A configuration from a text. -/
def parse (text : String) : Except ConfigFault Config := do
  match (Toml.read? text).bind fun t => ofJson? t.toJson with
  | none => throw .malformed
  | some c =>
    c.check
    return c

/-- A configuration from a file. -/
def load (files : Files) (path : String) : Except ConfigFault Config :=
  if !files.exists path then .ok default
  else
    match files.text path with
    | .ok text => parse text
    | .error reason => .error (.unreadable path reason)

/-- The registry with the sources and the profiles of a configuration. -/
def registry (c : Config) (files : Files) : Except RegistryFault Registry := do
  let r ← c.instances.foldlM (fun r i =>
      Registry.createInstance r files i.name i.plugin i.description i.textParams) Registry.builtin
  c.profiles.foldlM (fun r (name, members) => r.setProfile name members) r

end Config

end LogSearch
