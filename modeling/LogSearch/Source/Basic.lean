import LogSearch.Source.Batches

/-!
# Sources

* `SourceFault`: why a source fails, with its wording.
* `Response`: what a source answers to a request.
* `Source`: what a source can be asked.
-/

namespace LogSearch

/-- What is wrong with the parameters of a source. -/
inductive ParamFault
  | missing (plugin name : String)
  | notANumber (name text : String)
  | notRecords
  | other (what : String)
deriving DecidableEq, Repr

/-- The wording of a fault of parameters. -/
def ParamFault.message : ParamFault → String
  | missing plugin name => plugin ++ " requires parameter '" ++ name ++ "'"
  | notANumber name text => name ++ " must be a number, got '" ++ text ++ "'"
  | notRecords => "records must be a JSON array: the text is none"
  | other what => what

/-- Why a source fails. -/
inductive SourceFault
  | unavailable (what : String)
  | query (what : String)
  | params (fault : ParamFault)
  | io (what : String)
deriving DecidableEq, Repr

/-- The wording of a fault. -/
def SourceFault.message : SourceFault → String
  | unavailable what => "source unavailable: " ++ what
  | query what => "query failed: " ++ what
  | params fault => "invalid source parameters: " ++ fault.message
  | io what => "io error: " ++ what

/-- What a source answers: batches, one a turn, and how it ends. An empty batch is a turn on which the
source waits. Without an end the source goes on, and what it reports comes from outside. -/
structure Response where
  batches : List (List Record)
  outcome : Option (Except SourceFault Unit)

namespace Response

/-- A complete report. -/
def report (batches : List (List Record)) : Response := ⟨batches, some (.ok ())⟩

/-- Nothing but a fault. -/
def failure (fault : SourceFault) : Response := ⟨[], some (.error fault)⟩

/-- A report that comes from outside. -/
def pending : Response := ⟨[], none⟩

/-- The same after a turn of waiting. -/
def later (r : Response) : Response := { r with batches := [] :: r.batches }

end Response

/-- A source of records. -/
structure Source where
  /-- The labels to filter by, with their values. -/
  labels : Except SourceFault (Dict (List String))
  /-- The answer to a request. -/
  respond : Request → Response

end LogSearch
