import LogSearch.Query.Tree
import LogSearch.Record
import LogSearch.Text.Case

/-!
# Which records a query selects

* `Selection`: the filters and the search that a query forwards to its sources.
* `Selection.accepts`: whether a record is selected.
* `labelValues`: the values that records have under some labels.
-/

namespace LogSearch

/-- The part of a query that decides about single records. -/
structure Selection where
  filters : List PreFilter
  search : Option Search
deriving DecidableEq, Repr

/-- The texts of a record that a search looks at. -/
def Record.texts (r : Record) : List String := r.message :: r.fields.values.map Field.display

/-- Whether some text of the record has the literal as a part, whatever the case. -/
def Record.mentions (r : Record) (literal : SearchLiteral) : Bool :=
  r.texts.any fun text => Text.contains (Text.lowerCase text) (Text.lowerCase literal.text)

namespace Selection

/-- Everything. -/
def all : Selection := ⟨[], none⟩

/-- Whether the record passes every filter and the search. -/
def accepts (s : Selection) (r : Record) : Bool :=
  s.filters.all (fun f => f.accepts (r.display f.key)) && s.search.all (Search.holds r.mentions)

end Selection

/-- The head of a query as a selection. -/
def Query.selection (q : Query) : Selection := ⟨q.preFilters, q.search⟩

/-- The texts of the values under a label that are not null, each once, in order. -/
def valuesUnder (records : List Record) (label : String) : List String :=
  Dict.keys <| Dict.ofList <| records.filterMap fun r =>
    ((r.get? label).filter fun f => !f.isNull).map fun f => (f.display, ())

/-- The values under each label. -/
def labelValues (records : List Record) (labels : List String) : Dict (List String) :=
  Dict.ofList (labels.map fun label => (label, valuesUnder records label))

end LogSearch
