import LogSearch.Source.LineFile
import LogSearch.Source.Memory

/-!
# Kinds of sources

A plugin makes sources of one kind from parameters that are texts.

* `Plugin.create`: a source, with defaults for the parameters that are not given.
* `builtinPlugins`: records in memory, and files with a JSON object on each line.
-/

namespace LogSearch

/-- A parameter that a plugin takes. -/
structure ParamSpec where
  name : String
  description : String
  isRequired : Bool
  default : Option String
deriving DecidableEq, Repr

namespace ParamSpec

/-- A parameter that has to be given. -/
def required (name description : String) : ParamSpec := ⟨name, description, true, none⟩

/-- A parameter with a default. -/
def optional (name description default : String) : ParamSpec :=
  ⟨name, description, false, some default⟩

end ParamSpec

/-- A kind of sources. -/
structure Plugin where
  name : String
  description : String
  params : List ParamSpec
  build : Files → Dict String → Except SourceFault Source

namespace Plugin

/-- The parameters with defaults filled in; the first required one that is not given is a fault. -/
def resolve (p : Plugin) (given : Dict String) : Except SourceFault (Dict String) :=
  p.params.foldlM (fun d spec =>
      if Dict.contains spec.name d then .ok d
      else if spec.isRequired then .error (.params (.missing p.name spec.name))
      else match spec.default with
        | some v => .ok (Dict.insert spec.name v d)
        | none => .ok d)
    given

/-- A source with the parameters given. -/
def create (p : Plugin) (files : Files) (given : Dict String) : Except SourceFault Source := do
  p.build files (← p.resolve given)

end Plugin

/-! ## Reading parameters -/

/-- A parameter that is a count. -/
def countParam (params : Dict String) (name : String) (default : Nat) : Except SourceFault Nat :=
  match Dict.get? name params with
  | none => .ok default
  | some text =>
    match Number.readCount? (Text.trim text.toList) with
    | some n => .ok n
    | none => .error (.params (.notANumber name text))

/-- A parameter that is a list with commas between its items. -/
def listParam (params : Dict String) (name : String) : List String :=
  match Dict.get? name params with
  | none => []
  | some text =>
    ((Text.splitOn ',' text.toList).map Text.trim).filterMap fun item =>
      if item.isEmpty then none else some (String.ofList item)

/-- The records of a parameter that is a JSON array; items that describe none are skipped. -/
def recordsParam (params : Dict String) (name : String) : Except SourceFault (List Record) :=
  match Dict.get? name params with
  | none => .ok []
  | some text =>
    match (Json.readNormal? text).bind Json.items? with
    | some items => .ok (items.filterMap (Record.ofEntry? timeField "message"))
    | none => .error (.params .notRecords)

/-! ## The built-in plugins -/

/-- Records in memory. -/
def memoryPlugin : Plugin :=
  { name := "memory"
    description := "In-process record set"
    params := [
      .optional "records"
        "JSON array of objects with \x60_time\x60 and \x60message\x60 keys" "[]",
      .optional "batch_size" "Rows per reported batch" (toString MemorySource.defaultBatchSize),
      .optional "labels" "Comma-separated filterable labels" ""]
    build := fun _ params => do
      let batchSize ← countParam params "batch_size" MemorySource.defaultBatchSize
      let records ← recordsParam params "records"
      return (MemorySource.mk records batchSize (listParam params "labels")).source }

/-- Files with a JSON object on each line. -/
def lineFilePlugin : Plugin :=
  { name := "jsonl"
    description := "JSON-lines log file"
    params := [
      .required LineFile.pathParam "Path of the file to read",
      .optional "time_field" "Key holding the timestamp" LineFile.defaultTimeKey,
      .optional "message_field" "Key holding the message text" LineFile.defaultMessageKey,
      .optional "batch_size" "Rows per reported batch" (toString LineFile.defaultBatchSize),
      .optional "labels" "Comma-separated filterable labels" ""]
    build := fun files params => do
      let batchSize ← countParam params "batch_size" LineFile.defaultBatchSize
      let param (name : String) := (Dict.get? name params).getD ""
      return LineFile.source
        ⟨param LineFile.pathParam, param "time_field", param "message_field", batchSize,
          listParam params "labels"⟩
        files }

/-- The plugins that are always there. -/
def builtinPlugins : Dict Plugin :=
  Dict.ofList ([memoryPlugin, lineFilePlugin].map fun p => (p.name, p))

end LogSearch
