import LogSearch.Field

/-!
# The natural order of fields

Numbers and dates are compared as numbers, texts by character, arrays item by item, objects by
their texts; values of unrelated types by a rank of their types.

* `Field.compareNatural`: the order.
-/

namespace LogSearch.Field

/-- The rank of a type. -/
def typeRank : Field → Nat
  | mk .null _ => 0
  | mk (.boolean _) _ => 1
  | mk (.number _) _ | mk (.date _) _ => 2
  | mk (.string _) _ => 3
  | mk (.array _) _ => 4
  | mk (.object _) _ => 5

/-- The order of texts, by character. -/
def compareText (a b : String) : Ordering := compareOfLessAndEq a b

/-- False before true. -/
def compareBool (a b : Bool) : Ordering := compare a.toNat b.toNat

mutual
/-- The natural order. -/
def compareNatural : Field → Field → Ordering
  | mk (.number x) _, mk (.number y) _ => x.totalCompare y
  | mk (.number x) _, mk (.date b) _ => x.totalCompare (.ofInt b)
  | mk (.date a) _, mk (.number y) _ => (Double.ofInt a).totalCompare y
  | mk (.date a) _, mk (.date b) _ => (Double.ofInt a).totalCompare (.ofInt b)
  | mk (.string a) _, mk (.string b) _ => compareText a b
  | mk (.boolean a) _, mk (.boolean b) _ => compareBool a b
  | mk (.array a) _, mk (.array b) _ => compareItems a b
  | mk (.object a) e, mk (.object b) f =>
    compareText (mk (.object a) e).display (mk (.object b) f).display
  | a, b => compare a.typeRank b.typeRank

/-- The order of arrays: the first difference counts, then the length. -/
def compareItems : List Field → List Field → Ordering
  | [], [] => .eq
  | [], _ :: _ => .lt
  | _ :: _, [] => .gt
  | a :: as, b :: bs =>
    match compareNatural a b with
    | .eq => compareItems as bs
    | o => o
end

end LogSearch.Field
