import LogSearch.Number.Read
import LogSearch.Source.Registry

/-!
# The command line

A command line is a command with arguments and options; the option that names the configuration may
stand before the command as well.

* `Word.ofText`: a word is an argument or an option.
* `scan`: sorts the words of a command line.
* `Invocation.read`: what a command line asks for, or why nothing is run.
-/

namespace LogSearch.Shell

/-- How the rows of a query are printed. -/
inductive OutputFormat
  | table
  | json
  | csv
deriving DecidableEq, Repr

namespace OutputFormat

/-- All formats. -/
def all : List OutputFormat := [table, json, csv]

/-- The name of a format. -/
def name : OutputFormat → String
  | table => "table"
  | json => "json"
  | csv => "csv"

end OutputFormat

/-- A query with its options. -/
structure QueryCommand where
  text : String
  profile : String
  /-- How far to look back from now. -/
  since : Option String
  start : Option String
  stop : Option String
  limit : Option Nat
  forced : Bool
  format : OutputFormat
  /-- How many rows of a table are printed. -/
  rows : Nat
deriving DecidableEq, Repr

/-- What can be asked for. -/
inductive Command
  | query (q : QueryCommand)
  | check (text : String) (cursor : Option Nat)
  | sources
  | params (source : String)
deriving DecidableEq, Repr

/-- A command and the configuration that it runs with. -/
structure Invocation where
  config : String
  command : Command
deriving DecidableEq, Repr

/-- What is wrong with a command line. -/
inductive UsageFault
  | noCommand
  | unknownCommand (name : String)
  | unknownOption (name : String)
  | repeatedOption (name : String)
  | missingValue (option : String)
  | unexpectedValue (option : String)
  | invalidValue (option value : String)
  | conflict (option other : String)
  | missingArgument (name : String)
  | unexpectedArgument (word : String)
deriving DecidableEq, Repr

/-- The wording of a fault. -/
def UsageFault.message : UsageFault → String
  | noCommand => "no command is given"
  | unknownCommand name => "there is no command '" ++ name ++ "'"
  | unknownOption name => "there is no option '" ++ name ++ "' here"
  | repeatedOption name => "the option '--" ++ name ++ "' is given twice"
  | missingValue option => "the option '--" ++ option ++ "' needs a value"
  | unexpectedValue option => "the option '--" ++ option ++ "' takes no value"
  | invalidValue option value => "'" ++ value ++ "' is no value for '--" ++ option ++ "'"
  | conflict option other => "'--" ++ option ++ "' cannot be used with '--" ++ other ++ "'"
  | missingArgument name => "the argument <" ++ name ++ "> is missing"
  | unexpectedArgument word => "'" ++ word ++ "' is one argument too many"

/-- Why no command is run. -/
inductive Halt
  | help
  | version
  | usage (fault : UsageFault)
deriving DecidableEq, Repr

/-! ## Words -/

/-- What a word of a command line is. -/
inductive Word
  | argument
  /-- All words after this one are arguments. -/
  | separator
  | option (name : String) (value : Option String)
  | letter (c : Char)
deriving DecidableEq, Repr

/-- What a word is. A single dash is an argument. -/
def Word.ofText (s : String) : Word :=
  match s.toList with
  | ['-', '-'] => .separator
  | '-' :: '-' :: cs =>
    let name := String.ofList (cs.takeWhile (· ≠ '='))
    match cs.dropWhile (· ≠ '=') with
    | _ :: value => .option name (some (String.ofList value))
    | [] => .option name none
  | '-' :: c :: _ => .letter c
  | _ => .argument

/-- An option. -/
structure OptionSpec where
  name : String
  takesValue : Bool
deriving DecidableEq, Repr

/-- The words of a command line, sorted. -/
structure Sorted where
  /-- Options with their values; those that take none have an empty one. -/
  options : List (String × String)
  arguments : List String
  /-- The words that were not looked at. -/
  rest : List String
deriving DecidableEq, Repr

namespace Sorted

/-- No words. -/
def empty : Sorted := ⟨[], [], []⟩

/-- The value of an option. -/
def value? (w : Sorted) (name : String) : Option String := w.options.lookup name

/-- Adds an option, which may be given once. -/
def put (w : Sorted) (name value : String) : Except Halt Sorted :=
  if (w.value? name).isSome then .error (.usage (.repeatedOption name))
  else .ok { w with options := w.options ++ [(name, value)] }

/-- Adds an argument. -/
def addArgument (w : Sorted) (word : String) : Sorted :=
  { w with arguments := w.arguments ++ [word] }

end Sorted

/-- Sorts words. With `untilArgument` it stops before the first argument. -/
def scan (specs : List OptionSpec) (untilArgument : Bool) (w : Sorted) :
    List String → Except Halt Sorted
  | [] => .ok w
  | word :: rest =>
    match Word.ofText word with
    | .argument =>
      if untilArgument then .ok { w with rest := word :: rest }
      else scan specs untilArgument (w.addArgument word) rest
    | .separator => .ok { w with arguments := w.arguments ++ rest }
    | .letter c =>
      if c = 'h' then .error .help
      else if untilArgument && c = 'V' then .error .version
      else .error (.usage (.unknownOption ("-" ++ c.toString)))
    | .option name value =>
      match specs.find? fun s => s.name = name with
      | none =>
        if value.isNone && name = "help" then .error .help
        else if value.isNone && untilArgument && name = "version" then .error .version
        else .error (.usage (.unknownOption ("--" ++ name)))
      | some spec =>
        match value with
        | some value =>
          if spec.takesValue then do scan specs untilArgument (← w.put name value) rest
          else .error (.usage (.unexpectedValue name))
        | none =>
          if spec.takesValue then
            match rest with
            | value :: rest =>
              if Word.ofText value = .argument then
                do scan specs untilArgument (← w.put name value) rest
              else .error (.usage (.missingValue name))
            | [] => .error (.usage (.missingValue name))
          else do scan specs untilArgument (← w.put name "") rest

/-! ## Commands -/

/-- The configuration file where nothing else is said. -/
def defaultConfigFile : String := "sift.toml"

/-- The option that names the configuration. -/
def configOption : OptionSpec := ⟨"config", true⟩

/-- The options of a query. -/
def queryOptions : List OptionSpec :=
  [⟨"profile", true⟩, ⟨"since", true⟩, ⟨"from", true⟩, ⟨"to", true⟩, ⟨"limit", true⟩,
    ⟨"forced", false⟩, ⟨"format", true⟩, ⟨"rows", true⟩]

/-- The options of a check. -/
def checkOptions : List OptionSpec := [⟨"cursor", true⟩]

/-- The value of an option that is a count. -/
def countOption (w : Sorted) (name : String) : Except Halt (Option Nat) :=
  match w.value? name with
  | none => .ok none
  | some text =>
    match Number.readCount? text.toList with
    | some n => .ok (some n)
    | none => .error (.usage (.invalidValue name text))

/-- The value of the option for the format. -/
def formatOption (w : Sorted) : Except Halt OutputFormat :=
  match w.value? "format" with
  | none => .ok .table
  | some text =>
    match OutputFormat.all.find? fun f => f.name = text with
    | some f => .ok f
    | none => .error (.usage (.invalidValue "format" text))

/-- The single argument of a command. -/
def onlyArgument (w : Sorted) (name : String) : Except Halt String :=
  match w.arguments with
  | [] => .error (.usage (.missingArgument name))
  | [word] => .ok word
  | _ :: extra :: _ => .error (.usage (.unexpectedArgument extra))

/-- That a command has no arguments. -/
def noArguments (w : Sorted) : Except Halt Unit :=
  match w.arguments with
  | [] => .ok ()
  | extra :: _ => .error (.usage (.unexpectedArgument extra))

/-- That two options are not given together. -/
def exclude (w : Sorted) (option other : String) : Except Halt Unit :=
  if (w.value? option).isSome && (w.value? other).isSome then
    .error (.usage (.conflict option other))
  else .ok ()

/-- A query from its words. -/
def QueryCommand.ofWords (w : Sorted) : Except Halt QueryCommand := do
  let text ← onlyArgument w "text"
  exclude w "since" "from"
  exclude w "since" "to"
  return {
    text
    profile := (w.value? "profile").getD defaultProfile
    since := w.value? "since"
    start := w.value? "from"
    stop := w.value? "to"
    limit := ← countOption w "limit"
    forced := (w.value? "forced").isSome
    format := ← formatOption w
    rows := (← countOption w "rows").getD 50 }

/-- The options of a command and its meaning. -/
def command? : String → Option (List OptionSpec × (Sorted → Except Halt Command))
  | "query" => some (queryOptions, fun w => do return .query (← QueryCommand.ofWords w))
  | "check" =>
    some (checkOptions, fun w => do
      return .check (← onlyArgument w "text") (← countOption w "cursor"))
  | "sources" =>
    some ([], fun w => do
      noArguments w
      return .sources)
  | "params" => some ([], fun w => do return .params (← onlyArgument w "instance"))
  | _ => none

/-- The name of the configuration, which cannot be empty. -/
def configName (outer inner : Sorted) : Except Halt String :=
  let given := (inner.value? "config").toList ++ (outer.value? "config").toList
  if "" ∈ given then .error (.usage (.missingValue "config"))
  else .ok (given.head?.getD defaultConfigFile)

/-- What a command line asks for; the option after the command wins over the one before it. -/
def Invocation.read (words : List String) : Except Halt Invocation := do
  let outer ← scan [configOption] true .empty words
  match outer.rest with
  | [] => throw (.usage .noCommand)
  | name :: rest =>
    if name = "help" then throw .help
    match command? name with
    | none => throw (.usage (.unknownCommand name))
    | some (specs, meaning) =>
      let inner ← scan (configOption :: specs) false .empty rest
      return ⟨← configName outer inner, ← meaning inner⟩

end LogSearch.Shell
