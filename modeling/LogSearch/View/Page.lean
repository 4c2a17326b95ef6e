/-!
# Pages of a list

* `Page.slice`: some items of a list, and where the pages before and after them start.
-/

namespace LogSearch

/-- Items of a list of `total` items. -/
structure Page (α : Type) where
  data : List α
  total : Nat
  /-- Where the next page starts, if there is one. -/
  next : Option Nat
  /-- Where the page before starts, if there is one. -/
  prev : Option Nat
deriving DecidableEq, Repr

/-- The page of at most `limit` items from `offset` on. -/
def Page.slice {α : Type} (items : List α) (offset limit : Nat) : Page α :=
  let total := items.length
  let start := min offset total
  let stop := min (start + limit) total
  { data := (items.drop start).take (stop - start)
    total
    next := if stop < total then some stop else none
    prev := if 0 < start then some (start - limit) else none }

end LogSearch
