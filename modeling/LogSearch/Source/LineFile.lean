import LogSearch.Json.Reader
import LogSearch.Source.Basic
import LogSearch.Source.Entry
import LogSearch.Source.Files
import LogSearch.Text.Bytes

/-!
# Files with a JSON object on each line

* `LineFile.records`: the records of a file; lines that describe none are skipped.
* `LineFile.source`: the file as a source.
-/

namespace LogSearch

/-- A file with a JSON object on each line. -/
structure LineFile where
  path : String
  timeKey : String
  messageKey : String
  batchSize : Nat
  labels : List String
deriving DecidableEq, Repr

namespace LineFile

/-- The parameter that names the file. -/
def pathParam : String := "path"

/-- The key of the instant where nothing else is said. -/
def defaultTimeKey : String := "timestamp"

/-- The key of the message where nothing else is said. -/
def defaultMessageKey : String := "message"

/-- The size of a batch where nothing else is said. -/
def defaultBatchSize : Nat := 1000

/-- The bytes of each line with the line end. -/
def splitLines : List UInt8 → List (List UInt8)
  | [] => []
  | b :: bytes =>
    if b = 10 then [b] :: splitLines bytes
    else
      match splitLines bytes with
      | [] => [[b]]
      | line :: lines => (b :: line) :: lines

/-- A line as text without its line end. -/
def lineText (line : List UInt8) : Except Utf8.Fault (List Char) := do
  let cs ← Utf8.decode line
  match cs.reverse with
  | '\n' :: '\r' :: rest => return rest.reverse
  | '\n' :: rest => return rest.reverse
  | _ => return cs

/-- The record of a line, if it describes one. -/
def record? (f : LineFile) (line : List Char) : Option Record :=
  if (Text.trim line).isEmpty then none
  else (Json.readNormal? (String.ofList line)).bind (Record.ofEntry? f.timeKey f.messageKey)

/-- The records of a file. -/
def records (f : LineFile) (files : Files) : Except SourceFault (List Record) :=
  match files f.path with
  | .error .isDirectory => .error (.io FileFault.isDirectory.message)
  | .error e => .error (.unavailable (f.path ++ ": " ++ e.message))
  | .ok bytes =>
    match (splitLines bytes).mapM lineText with
    | .error e => .error (.io e.message)
    | .ok lines => .ok (lines.filterMap f.record?)

/-- The answer to a request; opening the file takes a turn. -/
def respond (f : LineFile) (files : Files) (q : Request) : Response :=
  (match f.records files with
    | .error e => Response.failure e
    | .ok rows => .report (q.batches f.batchSize none rows)).later

/-- The file as a source. -/
def source (f : LineFile) (files : Files) : Source :=
  { labels := (f.records files).map fun rows => labelValues rows f.labels
    respond := f.respond files }

end LineFile

end LogSearch
