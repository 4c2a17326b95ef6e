import LogSearch.Field.Order
import LogSearch.Proofs.Number.TotalOrder

/-!
# The natural order is a total preorder

Fields of two types are told apart by the ranks of these, and fields of one type by one thing only: a
number, a text or items. So the natural order is a chain of comparisons, of which at most two say
anything, and each of these is a total preorder.

* `Ordering.Composes`: how the comparisons of three things fit together.
* `Field.compareNatural_eq`: the natural order as a chain of comparisons.
* `Field.composes_compareNatural`: it fits together, whatever is nested in the fields.
* `Field.compareNatural_preorder`: the laws of a total preorder, which on numbers is that of doubles.
-/

namespace LogSearch

/-! ## Comparisons that fit together -/

/-- How three things compare, the first with the second, the second with the third and the first with
the third: of equal things one can stand for the other, and two steps in one direction lead there. -/
structure Ordering.Composes (first second both : Ordering) : Prop where
  of_eq_left : first = .eq → both = second
  of_eq_right : second = .eq → both = first
  of_eq : first = second → both = first

namespace Ordering.Composes

variable {first second both : Ordering}

/-- A comparison, and another one for what it finds equal. -/
theorem «then» {first' second' both' : Ordering} (h : Composes first second both)
    (h' : Composes first' second' both') :
    Composes (first.then first') (second.then second') (both.then both') := by
  obtain ⟨hleft, hright, hsame⟩ := h
  cases first with
  | eq =>
    obtain rfl : both = second := hleft rfl
    cases both with
    | eq => exact h'
    | lt => exact ⟨fun _ => rfl, nofun, fun h => h.symm⟩
    | gt => exact ⟨fun _ => rfl, nofun, fun h => h.symm⟩
  | lt =>
    cases second with
    | eq => cases hright rfl; exact ⟨nofun, fun _ => rfl, fun _ => rfl⟩
    | lt => cases hsame rfl; exact ⟨nofun, nofun, fun _ => rfl⟩
    | gt => exact ⟨nofun, nofun, nofun⟩
  | gt =>
    cases second with
    | eq => cases hright rfl; exact ⟨nofun, fun _ => rfl, fun _ => rfl⟩
    | lt => exact ⟨nofun, nofun, nofun⟩
    | gt => cases hsame rfl; exact ⟨nofun, nofun, fun _ => rfl⟩

/-- Two steps that do not go down do not go down together. -/
theorem isLE (h : Composes first second both) (hfirst : first.isLE = true)
    (hsecond : second.isLE = true) : both.isLE = true := by
  cases first with
  | lt =>
    cases second with
    | lt => rw [h.of_eq rfl]; rfl
    | eq => rw [h.of_eq_right rfl]; rfl
    | gt => cases hsecond
  | eq => rw [h.of_eq_left rfl]; exact hsecond
  | gt => cases hfirst

/-- Comparisons of a total preorder fit together. -/
theorem of_transCmp {α : Type} (cmp : α → α → Ordering) [Std.TransCmp cmp] (a b c : α) :
    Composes (cmp a b) (cmp b c) (cmp a c) where
  of_eq_left h := Std.TransCmp.congr_left h
  of_eq_right h := (Std.TransCmp.congr_right h).symm
  of_eq h := by
    cases hab : cmp a b with
    | lt => exact Std.TransCmp.lt_trans hab (h ▸ hab)
    | eq => rw [Std.TransCmp.congr_left hab, ← h, hab]
    | gt => exact Std.TransCmp.gt_trans hab (h ▸ hab)

end Ordering.Composes

namespace Field

/-! ## A chain of comparisons -/

/-- The number by which a field is compared. -/
def numberKey : Field → Int
  | mk (.number x) _ => x.orderKey
  | mk (.date ms) _ => (Double.ofInt ms).orderKey
  | mk (.boolean b) _ => b.toNat
  | _ => 0

/-- The text by which a field is compared. -/
def textKey : Field → String
  | mk (.string s) _ => s
  | mk (.object entries) errors => (mk (.object entries) errors).display
  | _ => ""

/-- The items by which a field is compared. -/
def itemsKey : Field → List Field
  | mk (.array items) _ => items
  | _ => []

/-- The items of a field are smaller than the field. -/
theorem sizeOf_itemsKey_lt (f : Field) : sizeOf f.itemsKey < sizeOf f := by
  obtain ⟨value, errors⟩ := f
  cases value <;> simp [itemsKey] <;> omega

instance : Std.TransCmp compareText :=
  inferInstanceAs (Std.TransCmp (compare : String → String → Ordering))

/-- Empty lists are equal. -/
theorem compareItems_nil : compareItems [] [] = .eq := by rw [compareItems]

/-- Lists are compared item by item. -/
theorem compareItems_cons (a b : Field) (as bs : List Field) :
    compareItems (a :: as) (b :: bs) = (a.compareNatural b).then (compareItems as bs) := by
  rw [compareItems]
  cases a.compareNatural b <;> rfl

/-- Truth values compare as zero and one. -/
theorem compareBool_eq (a b : Bool) : compareBool a b = compare (a.toNat : Int) b.toNat := by
  cases a <;> cases b <;> rfl

/-- Fields of two types are compared by rank. -/
theorem compareNatural_of_typeRank_ne {a b : Field} (h : a.typeRank ≠ b.typeRank) :
    a.compareNatural b = compare a.typeRank b.typeRank := by
  obtain ⟨value, errors⟩ := a
  obtain ⟨value', errors'⟩ := b
  cases value <;> cases value' <;> first | rfl | exact absurd rfl h

/-- Fields of one type are compared by one of number, text and items; the others are the same. -/
theorem compareNatural_of_typeRank_eq {a b : Field} (h : a.typeRank = b.typeRank) :
    a.compareNatural b = (compare a.numberKey b.numberKey).then
      ((compareText a.textKey b.textKey).then (compareItems a.itemsKey b.itemsKey)) := by
  obtain ⟨value, errors⟩ := a
  obtain ⟨value', errors'⟩ := b
  cases value <;> cases value' <;> first
    | (simp [typeRank] at h; done)
    | simp [compareNatural, numberKey, textKey, itemsKey, Double.totalCompare, Std.ReflCmp.compare_self,
        compareItems_nil, compareBool_eq, typeRank]

/-- Fields are compared by rank, and those of one rank by number, text and items. -/
theorem compareNatural_eq (a b : Field) :
    a.compareNatural b =
      (compare a.typeRank b.typeRank).then ((compare a.numberKey b.numberKey).then
        ((compareText a.textKey b.textKey).then (compareItems a.itemsKey b.itemsKey))) := by
  by_cases h : a.typeRank = b.typeRank
  · rw [compareNatural_of_typeRank_eq h, Nat.compare_eq_eq.2 h]
    rfl
  · rw [compareNatural_of_typeRank_ne h]
    cases hrank : compare a.typeRank b.typeRank with
    | eq => exact absurd (Nat.compare_eq_eq.1 hrank) h
    | lt => rfl
    | gt => rfl

/-! ## The laws -/

mutual
/-- Turned around, a comparison of fields is turned around. -/
theorem compareNatural_swap : (a b : Field) → a.compareNatural b = (b.compareNatural a).swap
  | a, b => by
    have hsize := sizeOf_itemsKey_lt a
    rw [compareNatural_eq a b, compareNatural_eq b a, Ordering.swap_then, Ordering.swap_then,
      Ordering.swap_then, ← compareItems_swap, ← @Std.OrientedCmp.eq_swap _ compareText,
      ← Std.OrientedOrd.eq_swap, ← Std.OrientedOrd.eq_swap]
termination_by a => sizeOf a

/-- Turned around, a comparison of lists is turned around. -/
theorem compareItems_swap : (as bs : List Field) → compareItems as bs = (compareItems bs as).swap
  | [], [] => by rw [compareItems_nil]; rfl
  | [], b :: bs => by rw [compareItems, compareItems]; rfl
  | a :: as, [] => by rw [compareItems, compareItems]; rfl
  | a :: as, b :: bs => by
    rw [compareItems_cons, compareItems_cons, Ordering.swap_then, ← compareNatural_swap,
      ← compareItems_swap]
termination_by as => sizeOf as
end

mutual
/-- Comparisons of any three fields fit together. -/
theorem composes_compareNatural : (a b c : Field) →
    Ordering.Composes (a.compareNatural b) (b.compareNatural c) (a.compareNatural c)
  | a, b, c => by
    have hsize := sizeOf_itemsKey_lt a
    rw [compareNatural_eq a b, compareNatural_eq b c, compareNatural_eq a c]
    exact (Ordering.Composes.of_transCmp compare a.typeRank b.typeRank c.typeRank).then
      ((Ordering.Composes.of_transCmp compare a.numberKey b.numberKey c.numberKey).then
        ((Ordering.Composes.of_transCmp compareText a.textKey b.textKey c.textKey).then
          (composes_compareItems a.itemsKey b.itemsKey c.itemsKey)))
termination_by a => sizeOf a

/-- So do comparisons of items, of which none is less than any. -/
theorem composes_compareItems : (as bs cs : List Field) →
    Ordering.Composes (compareItems as bs) (compareItems bs cs) (compareItems as cs)
  | [], [], cs => by
    rw [compareItems_nil]
    exact ⟨fun _ => rfl, fun h => h, fun h => h.symm⟩
  | [], b :: bs, [] => by
    rw [compareItems, compareItems]
    exact ⟨nofun, nofun, nofun⟩
  | [], b :: bs, c :: cs => by
    rw [compareItems, compareItems]
    exact ⟨nofun, fun _ => rfl, fun _ => rfl⟩
  | a :: as, [], [] => by
    rw [compareItems_nil, compareItems]
    exact ⟨nofun, fun _ => rfl, fun _ => rfl⟩
  | a :: as, [], c :: cs => by
    rw [compareItems, compareItems]
    exact ⟨nofun, nofun, nofun⟩
  | a :: as, b :: bs, [] => by
    rw [compareItems, compareItems]
    exact ⟨fun _ => rfl, nofun, fun h => h.symm⟩
  | a :: as, b :: bs, c :: cs => by
    rw [compareItems_cons, compareItems_cons, compareItems_cons]
    exact (composes_compareNatural a b c).then (composes_compareItems as bs cs)
termination_by as => sizeOf as
end

instance : Std.TransCmp compareNatural where
  eq_swap := compareNatural_swap _ _
  isLE_trans := (composes_compareNatural _ _ _).isLE

/-- The laws of the natural order, whatever the fields: turned round it is the reverse, each field is
equal to itself, and what is no greater than a second one is no greater than what that is no greater
than. On numbers it is the total order of doubles, in which also what is no number has its place. -/
theorem compareNatural_preorder :
    (∀ a b : Field, a.compareNatural b = (b.compareNatural a).swap) ∧
    (∀ a : Field, a.compareNatural a = .eq) ∧
    (∀ a b c : Field, a.compareNatural b ≠ .gt → b.compareNatural c ≠ .gt →
      a.compareNatural c ≠ .gt) ∧
    ∀ (x y : Double) (errors errors' : List String),
      (mk (.number x) errors).compareNatural (mk (.number y) errors') = .lt ↔ x.Below y := by
  refine ⟨compareNatural_swap, fun a => Std.ReflCmp.compare_self, fun a b c hab hbc => ?_,
    fun x y errors errors' => ?_⟩
  · rw [ne_eq, Ordering.ne_gt_iff_isLE] at hab hbc ⊢
    exact Std.TransCmp.isLE_trans hab hbc
  · rw [compareNatural, Double.totalCompare_eq_lt_iff]

end Field

end LogSearch
