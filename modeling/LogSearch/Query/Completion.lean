import LogSearch.Dict
import LogSearch.Query.Marks
import LogSearch.Query.Token
import LogSearch.Query.Tree
import LogSearch.Text.Blank
import LogSearch.Text.Bytes
import LogSearch.Text.Case
import LogSearch.Text.Search

/-!
# Completing the word at a cursor

* `wordBefore`: the part of the text that is being typed.
* `complete`: what the markers at the cursor offer for it.
-/

namespace LogSearch.Query

/-- Names that a reader of queries cannot know. -/
structure Catalog where
  /-- Columns of the results so far. -/
  columns : List String
  /-- Keys of pre-filters with their known values. -/
  params : Dict (List String)

/-- What kind of name a completion is. -/
inductive CompletionKind
  | command
  | param
  | paramValue
  | column
  | aggregation
  | function
  | keyword
deriving DecidableEq, Repr

/-- A name that may be typed. -/
structure Completion where
  text : String
  kind : CompletionKind
deriving DecidableEq, Repr

/-- Whether a word being typed cannot go past `c`. -/
def isSeparator (c : Char) : Bool :=
  Text.isBlank c || "|(),=`\"[]!<>+-*/&".toList.contains c

/-- The last separator of a text, its last character first, and what stands after it. -/
def afterSeparator : List Char → List Char → Option Char × List Char
  | word, [] => (none, word)
  | word, c :: rest => if isSeparator c then (some c, word) else afterSeparator (c :: word) rest

/-- The word that ends at a cursor. The separator before it is taken to be one byte long: after a
longer one there is no word to be had. -/
def wordBefore? (text : String) (cursor : Nat) : Option String :=
  let before := (Text.splitAtByte cursor text.toList).1
  match afterSeparator [] before.reverse with
  | (some c, word) => if c.utf8Size = 1 then some (String.ofList word) else none
  | (none, word) => some (String.ofList word)

/-- All that a marker offers. -/
def offers (catalog : Catalog) : MarkerKind → List Completion
  | .commands => Command.all.map fun c => ⟨c.name, .command⟩
  | .params => (Dict.keys catalog.params).map fun k => ⟨k, .param⟩
  | .paramValues key => ((Dict.get? key catalog.params).getD []).map fun v => ⟨v, .paramValue⟩
  | .columns => catalog.columns.map fun c => ⟨c, .column⟩
  | .aggregations => Aggregate.all.map fun a => ⟨a.name, .aggregation⟩
  | .functions => Function.all.map fun f => ⟨f.name, .function⟩
  | .keywords words => words.map fun w => ⟨w, .keyword⟩

/-- What the markers at the cursor offer for the word before it, in the order of the markers and
without repetitions; case does not count. -/
def complete? (text : String) (markers : List Marker) (cursor : Nat) (catalog : Catalog) :
    Option (List Completion) :=
  (wordBefore? text cursor).map fun word =>
    let typed := Text.lowerCase word
    let all := (markersAt markers cursor).flatMap fun m => offers catalog m.kind
    (all.filter fun c => Text.startsWith (Text.lowerCase c.text) typed).eraseDups

end LogSearch.Query
