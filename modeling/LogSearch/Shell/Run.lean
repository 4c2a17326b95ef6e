import LogSearch.Shell.Arguments
import LogSearch.Shell.Failure
import LogSearch.Shell.Report

/-!
# Running a command line

* `Outcome`: what is printed, and how the program ends.
* `run`: the outcome of a command line, given the clock and the files.
* `filesNeeded`: the files that a command line makes the program read.
-/

namespace LogSearch.Shell

/-- What is printed, and how the program ends. -/
structure Outcome where
  output : String
  /-- What is said apart from the output while the command runs. -/
  notes : List String
  failure : Option Failure
  /-- The code of the program; nothing if it waits for a task that will never end. -/
  code : Option Nat
deriving DecidableEq, Repr

namespace Outcome

/-- The command did what it was asked for. -/
def done (output : String) (notes : List String) : Outcome := ⟨output, notes, none, some 0⟩

/-- The command failed. -/
def failed (f : Failure) (notes : List String) : Outcome := ⟨"", notes, some f, some 1⟩

/-- No command was run, since the command line is wrong. -/
def misuse (fault : UsageFault) : Outcome := ⟨"", ["error: " ++ fault.message], none, some 2⟩

/-- The program broke off in the middle of its output. -/
def aborted (output : String) : Outcome := ⟨output, [], none, some 101⟩

/-- The program waits for a task that has stopped. -/
def stuck (notes : List String) : Outcome := ⟨"", notes, none, none⟩

end Outcome

/-- What the program says about its use. -/
def helpText : String :=
  lines [
    "Search local logs and events with a piped query language.",
    "",
    "Usage: sift [--config <CONFIG>] <COMMAND>",
    "",
    "Commands:",
    "  query <TEXT>       Run a query and print its results",
    "  check <TEXT>       Parse a query and report errors, highlights and completions",
    "  sources            List plugins, instances and search profiles",
    "  params <INSTANCE>  Print an instance's filterable labels and their values"]

/-- The name and the number of the program. -/
def versionText : String := lines ["sift 0.1.0"]

/-! ## Commands -/

/-- An instant that is given as an option. -/
def instantOption (text : String) : Except Failure Int :=
  (Instant.read text.toList).mapError (Failure.ofInstant text)

/-- Why a query is not run: a failure to tell, or arithmetic that stops the program. -/
abbrev Refusal := Option Failure

/-- Where the range of a query starts. -/
def startOption [Machine] (now : Int) (q : QueryCommand) : Except Refusal (Option Int) :=
  match q.since, q.start with
  | some text, _ =>
    match TimeSpan.ofText? text with
    | some span =>
      match Machine.word (now - span.millis) with
      | some start => .ok (some start)
      | none => .error none
    | none => .error (some (.plain (TimeSpan.invalidMessage text)))
  | none, some text => ((instantOption text).map some).mapError some
  | none, none => .ok none

/-- The options of a query as the engine takes them. -/
def engineOptions [Machine] (now : Int) (q : QueryCommand) : Except Refusal QueryOptions := do
  let start ← startOption now q
  let stop ← match q.stop with
    | some text => ((instantOption text).map some).mapError some
    | none => pure none
  return ⟨start, stop, q.limit, q.forced⟩

/-- A fault of the engine as it reaches the user. -/
def refusal : EngineFault → Refusal
  | .brokenOff => none
  | fault => some (.plain fault.message)

/-- The registry of a configuration. -/
def registryOf (config : Config) (files : Files) : Except Failure Registry :=
  (config.registry files).mapError fun e => .plain e.message

/-- The name of the only task. -/
def taskName : String := "query"

/-- The rows of a task: its table, or else its events. -/
def resultTable (t : Task) : Table :=
  t.view.results.table.getD (eventTable t.view.results.events)

/-- A table in a format, with what is said about rows that are left out. -/
def printed (q : QueryCommand) (t : Table) : String × List String :=
  match q.format with
  | .table =>
    let left := if q.rows < t.rows.length then
      ["sift: " ++ toString q.rows ++ " of " ++ toString t.rows.length ++ " rows shown"] else []
    (lines [(tableGrid t q.rows).render], left)
  | .json => (t.render .json, [])
  | .csv => (t.render .csv, [])

/-- What a task that cannot go on leads to. -/
def conclusion (q : QueryCommand) (t : Task) (notes : List String) : Outcome :=
  if t.status = .running then .stuck notes
  else if t.status = .failed then
    .failed (.plain ("query failed: " ++ t.error.getD "unknown error")) notes
  else
    let warning := t.error.toList.map ("sift: warning: " ++ ·)
    let (output, left) := printed q (resultTable t)
    .done output (notes ++ warning ++ left)

variable [Regex.Library] [Machine]

/-- Runs a query. -/
def runQuery (now : Int) (files : Files) (config : Config) (q : QueryCommand) :
    Except Refusal Outcome := do
  let options ← engineOptions now q
  let registry ← (registryOf config files).mapError some
  let (handle, e) ← ((Engine.start registry config.engine).runQuery taskName q.profile q.text
    options now).mapError refusal
  let e := e.rest
  let t ← (e.task? taskName).mapError refusal
  let notes := ("sift: querying " ++ Text.join ", " handle.sources)
    :: e.updates.filterMap progressLine?
  return conclusion q t notes

/-- Checks a text. -/
def runCheck (files : Files) (config : Config) (text : String) (cursor : Option Nat) : Outcome :=
  let parsed := Query.parse text
  let known := lines (checkLines text parsed)
  let params := match config.registry files with
    | .ok r => allLabels r
    | .error _ => []
  let length := Text.byteLength text.toList
  let cursor := min (cursor.getD length) length
  match Query.complete? text parsed.markers cursor ⟨[], params⟩ with
  | some completions => .done (known ++ lines (completionLines cursor completions)) []
  | none => .aborted known

/-- Lists plugins, sources and profiles. -/
def runSources (files : Files) (config : Config) : Except Failure Outcome := do
  return .done (lines (sourceLines (← registryOf config files))) []

/-- Prints the labels of a source. -/
def runParams (files : Files) (config : Config) (source : String) : Except Failure Outcome := do
  let labels ← ((← registryOf config files).labels source).mapError fun e => .plain e.message
  return .done (lines [(Json.ofDict Json.ofTexts labels).pretty]) []

/-- Runs a command with its configuration. -/
def runCommand (now : Int) (files : Files) (config : Config) : Command → Except Failure Outcome
  | .query q =>
    match runQuery now files config q with
    | .ok outcome => .ok outcome
    | .error (some failure) => .error failure
    | .error none => .ok (.aborted "")
  | .check text cursor => .ok (runCheck files config text cursor)
  | .sources => runSources files config
  | .params source => runParams files config source

/-- Loads the configuration and runs the command. -/
def Invocation.run (now : Int) (files : Files) (i : Invocation) : Except Failure Outcome := do
  let config ← (Config.load files i.config).mapError fun fault =>
    (Failure.ofConfig fault).context ("loading " ++ i.config)
  runCommand now files config i.command

/-- The outcome of a command line. -/
def run (now : Int) (files : Files) (words : List String) : Outcome :=
  match Invocation.read words with
  | .error .help => .done helpText []
  | .error .version => .done versionText []
  | .error (.usage fault) => .misuse fault
  | .ok i =>
    match i.run now files with
    | .ok outcome => outcome
    | .error failure => .failed failure []

/-! ## Files -/

/-- The configuration file of a command line, if it runs a command. -/
def configFile? (words : List String) : Option String :=
  match Invocation.read words with
  | .ok i => some i.config
  | .error _ => none

/-- The files that a command line makes the program read, once its configuration is known. -/
def filesNeeded (files : Files) (words : List String) : List String :=
  match configFile? words with
  | none => []
  | some name =>
    match Config.load files name with
    | .error _ => [name]
    | .ok c => name :: c.instances.filterMap fun i => Dict.get? LineFile.pathParam i.textParams

end LogSearch.Shell
