import LogSearch.Hash.Sha256
import LogSearch.Json.Writer
import LogSearch.Query.Wire
import LogSearch.Source.Selection
import LogSearch.Time.Range

/-!
# What decides about the result of a fetch

* `CacheIdentity`: the selection, the range and the source.
* `CacheIdentity.canonicalText`: the identity as JSON, with the fields in a fixed order.
* `CacheIdentity.key`: the hash of that text.
-/

namespace LogSearch

/-- Everything that decides about what a source returns. -/
structure CacheIdentity where
  selection : Selection
  range : TimeRange
  source : String
deriving DecidableEq, Repr

namespace CacheIdentity

/-- The identity as JSON. -/
def toJson (i : CacheIdentity) : Json :=
  .object [("pre_filters", Json.ofList PreFilter.toJson i.selection.filters),
    ("search", Json.ofOption Search.toJson i.selection.search), ("from", .integer i.range.start),
    ("to", .integer i.range.stop), ("instance", .string i.source)]

/-- An identity from JSON. -/
def ofJson? (j : Json) : Option CacheIdentity := do
  let f ← Json.fields? ["pre_filters", "search", "from", "to", "instance"] j
  return ⟨⟨← f.required "pre_filters" (Json.list? PreFilter.ofJson?),
      ← f.optional "search" Search.ofJson?⟩,
    ⟨← f.required "from" Json.int64?, ← f.required "to" Json.int64?⟩,
    ← f.required "instance" Json.text?⟩

/-- The text that stands for the identity. -/
def canonicalText (i : CacheIdentity) : String := i.toJson.compact

/-- The key of the identity. -/
def key (i : CacheIdentity) : String := Sha256.hexText (Text.encode i.canonicalText.toList)

end CacheIdentity

end LogSearch
