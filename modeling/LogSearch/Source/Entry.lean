import LogSearch.Record

/-!
# Records in plain JSON

* `Record.ofEntry?`: the record that a JSON object describes.
-/

namespace LogSearch

/-- The message that a JSON value is: a text stands for itself, else the value is written out. -/
def messageOfJson : Json → String
  | .string s => s
  | j => j.compact

/-- The record of an object: `timeKey` gives the instant, `messageKey` the message, and every other
key a field. There is none without an instant. -/
def Record.ofEntry? (timeKey messageKey : String) (j : Json) : Option Record := do
  let members ← j.members?
  let time ← (j.member? timeKey).bind fun t => (Field.ofPlainJson t).asDate?
  let message := ((j.member? messageKey).map messageOfJson).getD ""
  let others := members.filter fun m => m.1 ≠ timeKey ∧ m.1 ≠ messageKey
  let r : Record := others.foldl (fun r (key, value) => r.set key (Field.ofPlainJson value))
    (Record.ofMessage message)
  return r.withTime time

end LogSearch
