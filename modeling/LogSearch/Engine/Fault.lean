import LogSearch.Config
import LogSearch.Query.Problem

/-!
# Why the engine refuses

* `EngineFault`: the causes.
* `EngineFault.message`: their wording.
-/

namespace LogSearch

/-- Why the engine refuses. -/
inductive EngineFault
  | parse (problems : List Query.Problem)
  | registry (fault : RegistryFault)
  | config (fault : ConfigFault)
  /-- The query leaves no source to ask. -/
  | noInstances
  | invalidRange (range : TimeRange)
  /-- The start of the range cannot be computed, which stops the program. -/
  | brokenOff
  | taskNotFound (id : String)
  | noTable (id : String)

/-- The wording of a fault. -/
def EngineFault.message : EngineFault → String
  | parse problems => Query.problemsText problems
  | registry fault => fault.message
  | config fault => fault.message
  | noInstances => "query selects no source instances"
  | invalidRange r =>
    "invalid time range: from " ++ toString r.start ++ " is not before to " ++ toString r.stop
  | brokenOff => "the start of the time range overflows"
  | taskNotFound id => "task '" ++ id ++ "' not found"
  | noTable id => "task '" ++ id ++ "' has no table view"

end LogSearch
