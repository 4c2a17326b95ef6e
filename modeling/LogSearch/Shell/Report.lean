import LogSearch.Engine.Reading
import LogSearch.Query.Completion
import LogSearch.Query.Parser
import LogSearch.Query.Text
import LogSearch.Text.Width
import LogSearch.View.Grid

/-!
# What the commands print

* `checkLines`, `completionLines`: a query text, its problems, its highlights and its completions.
* `sourceLines`: plugins, sources and profiles.
* `eventTable`, `tableGrid`: the rows of a query.
* `progressLine?`: what happens while a query runs.
-/

namespace LogSearch.Shell

/-- Lines with their line ends. -/
def lines (ls : List String) : String := String.join (ls.map (· ++ "\n"))

/-! ## Checking a text -/

/-- The name under which a highlight is listed. -/
def highlightLabel : Query.HighlightKind → String
  | .keyword => "Keyword"
  | .command => "Command"
  | .column => "Column"
  | .function => "Function"
  | .operator => "Operator"
  | .string => "String"
  | .number => "Number"
  | .regex => "Regex"
  | .paramKey => "ParamKey"
  | .paramValue => "ParamValue"
  | .boolean => "Boolean"

/-- The name under which a completion is listed. -/
def completionLabel : Query.CompletionKind → String
  | .command => "Command"
  | .param => "Param"
  | .paramValue => "ParamValue"
  | .column => "Column"
  | .aggregation => "Aggregation"
  | .function => "Function"
  | .keyword => "Keyword"

/-- A highlight: its bytes, its kind and its text. -/
def highlightLine (text : String) (h : Query.Highlight) : String :=
  "  " ++ Text.padLeft 3 (toString h.start) ++ ".." ++ Text.padRight 3 (toString h.stop) ++ " "
    ++ Text.padRight 10 (highlightLabel h.kind) ++ " "
    ++ String.ofList (Text.byteSlice text.toList h.start h.stop)

/-- What a text is read as. -/
def checkLines (text : String) (o : Query.Outcome) : List String :=
  let problems :=
    if o.problems.isEmpty then ["errors: none"]
    else "errors:" :: o.problems.map fun p => "  " ++ p.text
  ("query:  " ++ o.query.text) :: problems ++ "highlights:" :: o.highlights.map (highlightLine text)

/-- What may be typed at a cursor. -/
def completionLines (cursor : Nat) (completions : List Query.Completion) : List String :=
  ("completions at " ++ toString cursor ++ ":") :: completions.map fun c =>
    "  " ++ Text.padRight 24 c.text ++ " " ++ completionLabel c.kind

/-- The values of labels with further ones after them, each value once. -/
def mergeLabels (known new : Dict (List String)) : Dict (List String) :=
  new.foldl (fun d (label, values) =>
      Dict.insert label (((Dict.get? label d).getD [] ++ values).eraseDups) d)
    known

/-- The labels of all sources that answer. -/
def allLabels (r : Registry) : Dict (List String) :=
  (Dict.keys r.instances).foldl (fun d name =>
      match r.labels name with
      | .ok labels => mergeLabels d labels
      | .error _ => d)
    []

/-! ## Listing sources -/

/-- What is said about the value of a parameter. -/
def paramNote (p : ParamSpec) : String :=
  if p.isRequired then "required"
  else match p.default with
    | some d => if d.isEmpty then "optional" else "default " ++ d
    | none => "optional"

/-- A plugin with its parameters. -/
def pluginLines (p : Plugin) : List String :=
  ("  " ++ Text.padRight 10 p.name ++ " " ++ p.description) :: p.params.map fun spec =>
    "    " ++ Text.padRight 14 spec.name ++ " " ++ spec.description ++ " ("
      ++ paramNote spec ++ ")"

/-- A source with its plugin. -/
def instanceLine (name : String) (i : Instance) : String :=
  "  " ++ Text.padRight 16 name ++ " " ++ Text.padRight 8 i.plugin ++ " " ++ i.description

/-- Plugins, sources and profiles. -/
def sourceLines (r : Registry) : List String :=
  "plugins:" :: (Dict.values r.plugins).flatMap pluginLines
    ++ "instances:" :: r.instances.map (fun (name, i) => instanceLine name i)
    ++ "profiles:" :: r.allProfiles.map fun (name, members) =>
      "  " ++ Text.padRight 16 name ++ " " ++ Text.join ", " members

/-! ## Results -/

/-- The column that shows the message of an event. -/
def messageColumn : String := "message"

/-- Events as a table. -/
def eventTable (events : List Record) : Table :=
  { columns := [timeField, sourceField, messageColumn]
    rows := events.map fun e => e.set messageColumn (.string e.message) }

/-- The first rows of a table as a grid. -/
def tableGrid (t : Table) (rows : Nat) : Grid := ⟨t.columns, (t.rows.take rows).map t.cells⟩

/-- What an update says while a query runs. -/
def progressLine? : TaskUpdate → Option String
  | .batchDone _ s =>
    let rows := match s.tableRows with
      | some n => ", " ++ toString n ++ " rows"
      | none => ""
    some ("   " ++ toString s.events ++ " events" ++ rows)
  | .stageFailed _ error => some ("   stage failed: " ++ error)
  | .statusChanged .. => none

end LogSearch.Shell
