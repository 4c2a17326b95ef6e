import LogSearch.Config
import LogSearch.Text.Width
import LogSearch.Time.Instant

/-!
# Why a command fails

* `Failure`: what happened, and what caused it.
* `Failure.text`: the causes follow the message, indented, and numbered if there are several.
-/

namespace LogSearch.Shell

/-- What happened, and what caused it, the nearest cause first. -/
structure Failure where
  message : String
  causes : List String
deriving DecidableEq, Repr

namespace Failure

/-- A failure without further causes. -/
def plain (message : String) : Failure := ⟨message, []⟩

/-- A failure that makes another one's message its first cause. -/
def context (message : String) (f : Failure) : Failure := ⟨message, f.message :: f.causes⟩

/-- A configuration that cannot be used. -/
def ofConfig (fault : ConfigFault) : Failure :=
  match fault with
  | .unreadable _ reason => ⟨fault.message, [reason]⟩
  | .malformed => ⟨fault.message, [ConfigFault.malformedText]⟩
  | _ => plain fault.message

/-- A text that is no instant. -/
def ofInstant (text : String) (fault : Instant.ReadFault) : Failure :=
  ⟨"invalid RFC 3339 time '" ++ text ++ "'", [fault.message]⟩

/-- A cause with `first` before its first line and `next` before all others. -/
def indented (first next cause : String) : String :=
  first ++ Text.join ("\n" ++ next) ((Text.splitOn '\n' cause.toList).map String.ofList)

/-- The causes, one after the other. -/
def causeLines : List String → List String
  | [cause] => [indented "    " "    " cause]
  | causes => causes.zipIdx.map fun (cause, i) =>
      indented (Text.padLeft 5 (toString i) ++ ": ") "       " cause

/-- The failure in words. -/
def text (f : Failure) : String :=
  if f.causes.isEmpty then f.message
  else Text.join "\n" ((f.message ++ "\n") :: "Caused by:" :: causeLines f.causes)

end Failure

end LogSearch.Shell
