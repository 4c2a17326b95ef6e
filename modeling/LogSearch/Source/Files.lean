import LogSearch.Text.Utf8

/-!
# Files

* `Files`: what is found under each path.
* `Files.text`: a file as text.
-/

namespace LogSearch

/-- Why a file cannot be read. -/
inductive FileFault
  | notFound
  | notDirectory
  | isDirectory
  | denied
deriving DecidableEq, Repr

/-- The wording of a fault, with its usual number. -/
def FileFault.message : FileFault → String
  | notFound => "No such file or directory (os error 2)"
  | notDirectory => "Not a directory (os error 20)"
  | isDirectory => "Is a directory (os error 21)"
  | denied => "Permission denied (os error 13)"

/-- What is found under each path: bytes, or why there are none. -/
abbrev Files := String → Except FileFault (List UInt8)

/-- No files. -/
def Files.none : Files := fun _ => .error .notFound

/-- Whether there is something under a path. -/
def Files.exists (files : Files) (path : String) : Bool :=
  match files path with
  | .ok _ | .error .isDirectory | .error .denied => true
  | _ => false

/-- A file as text, or the reason why it cannot be read as such. -/
def Files.text (files : Files) (path : String) : Except String String :=
  match files path with
  | .error e => .error e.message
  | .ok bytes =>
    match Utf8.decode bytes with
    | .ok cs => .ok (String.ofList cs)
    | .error _ => .error "stream did not contain valid UTF-8"

end LogSearch
