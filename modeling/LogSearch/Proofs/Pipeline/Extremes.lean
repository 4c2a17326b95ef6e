import LogSearch.Proofs.Number.Comparison
import LogSearch.Proofs.Pipeline.Misfits

/-!
# The least and the greatest value of a group

Both extremes are folds that start from an infinity, which every number replaces or equals and what is
no number leaves. So an extreme is one of the values as soon as one of these is a number; if none is,
the infinity that the fold starts from comes out.

* `place?_foldl`: on the number line, the fold is the least or the greatest of the places.
* `extremes_attained_iff`: the extremes bound the values, and are attained if one value is a number.
* `invalid_numbers_have_no_extremes`: over the results of failed divisions, they are the infinities.
-/

namespace LogSearch

/-- The place of a double on the number line. -/
noncomputable def Double.place? (x : Double) : Option EReal := Number.place? x.toFloat

open Double (place?)
open Number (lt_iff le_iff beq_iff isNaN_iff not_lt_of_isNaN)

variable {x y : Double}

/-- Two doubles are the same number, or both of them are none. -/
def SameNumber (x y : Double) : Prop :=
  (x.toFloat == y.toFloat) = true ∨ x.isNaN = true ∧ y.isNaN = true

instance : Decidable (SameNumber x y) := inferInstanceAs (Decidable (_ ∨ _))

/-- Two doubles are the same number if they have the same place, or none. -/
theorem sameNumber_iff : SameNumber x y ↔ place? x = place? y := by
  unfold SameNumber Double.isNaN
  rw [beq_iff, isNaN_iff, isNaN_iff]
  change (∃ a, place? x = some a ∧ place? y = some a) ∨ place? x = none ∧ place? y = none ↔ _
  constructor
  · rintro (⟨a, hx, hy⟩ | ⟨hx, hy⟩)
    · rw [hx, hy]
    · rw [hx, hy]
  · intro h
    cases hx : place? x with
    | none => exact .inr ⟨rfl, h ▸ hx⟩
    | some a => exact .inl ⟨a, rfl, h ▸ hx⟩

/-! ## Folds on the number line -/

/-- Infinity stands above all numbers. -/
theorem place?_infinity : place? (.ofFloat infinity) = some ⊤ := by
  have hvalue : Number.Value.ofFloat infinity = .infinite false := by decide +kernel
  rw [place?, Double.toFloat_ofFloat, Number.place?, hvalue]
  rfl

/-- Negative infinity stands below all numbers. -/
theorem place?_neg_infinity : place? (.ofFloat (-infinity)) = some ⊥ := by
  have hvalue : Number.Value.ofFloat (-infinity) = .infinite true := by decide +kernel
  rw [place?, Double.toFloat_ofFloat, Number.place?, hvalue]
  rfl

/-- One of two numbers is picked, and the first one stays if the second one is none. -/
theorem place?_ite {p : Prop} [Decidable p] {best : EReal → EReal → EReal}
    (hpos : p → ∃ a b, place? x = some a ∧ place? y = some b ∧ best a b = b)
    (hneg : ∀ a b, place? x = some a → place? y = some b → ¬p → best a b = a) :
    place? (if p then y else x) = (place? x).map fun a => (place? y).elim a (best a) := by
  by_cases h : p
  · obtain ⟨a, b, hx, hy, hbest⟩ := hpos h
    rw [if_pos h, hx, hy, Option.map_some, Option.elim_some, hbest]
  · rw [if_neg h]
    cases hx : place? x with
    | none => rfl
    | some a =>
      cases hy : place? y with
      | none => rfl
      | some b => rw [Option.map_some, Option.elim_some, hneg a b hx hy h]

/-- The lesser of two doubles has the lesser place; what is no number does not count. -/
theorem place?_lesser (x y : Double) :
    place? (lesser x y) = (place? x).map fun a => (place? y).elim a (min a) := by
  apply place?_ite
  · intro h
    obtain ⟨b, a, hy, hx, hlt⟩ := lt_iff.1 h
    exact ⟨a, b, hx, hy, min_eq_right hlt.le⟩
  · intro a b hx hy h
    exact min_eq_left (not_lt.1 fun hlt => h (lt_iff.2 ⟨b, a, hy, hx, hlt⟩))

/-- The greater of two doubles has the greater place; what is no number does not count. -/
theorem place?_greater (x y : Double) :
    place? (greater x y) = (place? x).map fun a => (place? y).elim a (max a) := by
  apply place?_ite
  · intro h
    obtain ⟨a, b, hx, hy, hlt⟩ := lt_iff.1 h
    exact ⟨a, b, hx, hy, max_eq_right hlt.le⟩
  · intro a b hx hy h
    exact max_eq_left (not_lt.1 fun hlt => h (lt_iff.2 ⟨a, b, hx, hy, hlt⟩))

section

variable {pick : Double → Double → Double} {best : EReal → EReal → EReal}

/-- A fold that picks one of two numbers picks on the number line, where what is no number is not. -/
theorem place?_foldl
    (hpick : ∀ x y, place? (pick x y) = (place? x).map fun a => (place? y).elim a (best a))
    (xs : List Double) {seed : Double} {a : EReal} (hseed : place? seed = some a) :
    place? (xs.foldl pick seed) = some ((xs.filterMap place?).foldl best a) := by
  induction xs generalizing seed a with
  | nil => exact hseed
  | cons x xs ih =>
    have hstep := hpick seed x
    rw [hseed, Option.map_some] at hstep
    rw [List.foldl_cons, ih hstep]
    cases hx : place? x with
    | none => rw [List.filterMap_cons_none hx, Option.elim_none]
    | some b => rw [List.filterMap_cons_some hx, List.foldl_cons, Option.elim_some]

/-- What is no number leaves what the fold starts from. -/
theorem foldl_eq_seed {xs : List Double} {seed : Double} (h : ∀ x ∈ xs, pick seed x = seed) :
    xs.foldl pick seed = seed := by
  induction xs with
  | nil => rfl
  | cons x xs ih =>
    rw [List.foldl_cons, h x List.mem_cons_self]
    exact ih fun y hy => h y (List.mem_cons_of_mem x hy)

end

/-! ## The extremes of numbers -/

section

variable {xs : List Double}

/-- A fold over places gives one of them, or the end of the line that it starts from; where all of them
are that end, it is one of them as well. -/
theorem mem_of_mem_end {a e : EReal} {places : List EReal} (hmem : a ∈ e :: places)
    (hend : ∀ b ∈ places, a = e → b = e) (hne : places ≠ []) : a ∈ places := by
  rcases List.mem_cons.1 hmem with heq | hmem
  · obtain ⟨b, hb⟩ := List.exists_mem_of_ne_nil _ hne
    rw [heq, ← hend b hb heq]
    exact hb
  · exact hmem

/-- The least of doubles, starting from infinity, is below all numbers among them, and one of them
if there are any. -/
theorem exists_least (xs : List Double) : ∃ a, place? (xs.foldl lesser (.ofFloat infinity)) = some a ∧
    (∀ b ∈ xs.filterMap place?, a ≤ b) ∧ (xs.filterMap place? ≠ [] → a ∈ xs.filterMap place?) := by
  have hmin : (⊤ :: xs.filterMap place?).min? = some ((xs.filterMap place?).foldl min ⊤) :=
    List.min?_cons'
  obtain ⟨hmem, hle⟩ := List.min?_eq_some_iff.1 hmin
  have hbound := fun b hb => hle b (List.mem_cons_of_mem _ hb)
  refine ⟨_, place?_foldl place?_lesser xs place?_infinity, hbound, mem_of_mem_end hmem ?_⟩
  intro b hb htop
  exact top_le_iff.1 (htop ▸ hbound b hb)

/-- The greatest of doubles, starting from negative infinity, is above all numbers among them, and
one of them if there are any. -/
theorem exists_greatest (xs : List Double) :
    ∃ a, place? (xs.foldl greater (.ofFloat (-infinity))) = some a ∧
      (∀ b ∈ xs.filterMap place?, b ≤ a) ∧
      (xs.filterMap place? ≠ [] → a ∈ xs.filterMap place?) := by
  have hmax : (⊥ :: xs.filterMap place?).max? = some ((xs.filterMap place?).foldl max ⊥) :=
    List.max?_cons'
  obtain ⟨hmem, hle⟩ := List.max?_eq_some_iff.1 hmax
  have hbound := fun b hb => hle b (List.mem_cons_of_mem _ hb)
  refine ⟨_, place?_foldl place?_greater xs place?_neg_infinity, hbound, mem_of_mem_end hmem ?_⟩
  intro b hb hbot
  exact le_bot_iff.1 (hbot ▸ hbound b hb)

/-- What is a number has a place among the numbers. -/
theorem exists_place (hx : x ∈ xs) (h : x.isNaN = false) :
    ∃ a, place? x = some a ∧ a ∈ xs.filterMap place? := by
  obtain ⟨a, ha⟩ : ∃ a, place? x = some a := by
    apply Option.ne_none_iff_exists'.1
    intro hnone
    exact Bool.false_ne_true (h ▸ isNaN_iff.2 hnone)
  exact ⟨a, ha, List.mem_filterMap.2 ⟨x, hx, ha⟩⟩

/-- An extreme is attained exactly if one of the doubles is a number. -/
theorem attained_iff {a : EReal} (hy : place? y = some a)
    (hmem : xs.filterMap place? ≠ [] → a ∈ xs.filterMap place?) :
    (∃ x ∈ xs, SameNumber y x) ↔ ∃ x ∈ xs, x.isNaN = false := by
  constructor
  · rintro ⟨x, hx, hsame⟩
    refine ⟨x, hx, Bool.eq_false_iff.2 fun hnan => ?_⟩
    have hnone : place? x = none := isNaN_iff.1 hnan
    rw [← sameNumber_iff.1 hsame, hy] at hnone
    cases hnone
  · rintro ⟨x, hx, hnumber⟩
    obtain ⟨b, -, hb⟩ := exists_place hx hnumber
    obtain ⟨z, hz, hplace⟩ := List.mem_filterMap.1 (hmem (List.ne_nil_of_mem hb))
    exact ⟨z, hz, sameNumber_iff.2 (hy.trans hplace.symm)⟩

/-- The minimum of some numbers is the least of them and infinity. -/
theorem numericAggregate_min [Machine] (h : xs ≠ []) :
    numericAggregate .min xs = .number (xs.foldl lesser (.ofFloat infinity)) := by
  cases xs with
  | nil => exact absurd rfl h
  | cons x xs => rfl

/-- The maximum of some numbers is the greatest of them and negative infinity. -/
theorem numericAggregate_max [Machine] (h : xs ≠ []) :
    numericAggregate .max xs = .number (xs.foldl greater (.ofFloat (-infinity))) := by
  cases xs with
  | nil => exact absurd rfl h
  | cons x xs => rfl

/-- What is no number is never the lesser one. -/
theorem lesser_of_isNaN (h : y.isNaN = true) (x : Double) : lesser x y = x :=
  if_neg (not_lt_of_isNaN (.inl h))

/-- What is no number is never the greater one. -/
theorem greater_of_isNaN (h : y.isNaN = true) (x : Double) : greater x y = x :=
  if_neg (not_lt_of_isNaN (.inr h))

end

/-! ## The extremes of a column -/

/-- The numbers that the values of a column count as. -/
def numericViews (column : String) (rows : List Record) : List Double :=
  (presentValues column rows).filterMap Field.asNumber?

section

variable {stage column : String} {rows : List Record} {newName newName' : Option String}

/-- A column of which all values count as numbers gives these numbers. -/
theorem columnNumbers_eq_ok {values : List Field}
    (h : ∀ f ∈ values, f.asNumber?.isSome = true) :
    columnNumbers stage column values = .ok (values.filterMap Field.asNumber?) := by
  unfold columnNumbers
  induction values with
  | nil => rfl
  | cons f values ih =>
    obtain ⟨x, hx⟩ := Option.isSome_iff_exists.1 (h f List.mem_cons_self)
    rw [List.mapM_cons, ih fun g hg => h g (List.mem_cons_of_mem f hg), hx,
      List.filterMap_cons_some hx]
    rfl

/-- A column with values that count as numbers has numbers. -/
theorem numericViews_ne_nil (hpresent : presentValues column rows ≠ [])
    (hnumeric : ∀ f ∈ presentValues column rows, f.asNumber?.isSome = true) :
    numericViews column rows ≠ [] := by
  obtain ⟨f, hf⟩ := List.exists_mem_of_ne_nil _ hpresent
  obtain ⟨x, hx⟩ := Option.isSome_iff_exists.1 (hnumeric f hf)
  exact List.ne_nil_of_mem (List.mem_filterMap.2 ⟨f, hf, hx⟩)

/-- An aggregation of a column of which all values count as numbers takes these numbers. -/
theorem compute_of_asNumber? [Machine] {a : AggregateCall} (hfunction : a.function.isNumeric = true)
    (hcolumn : a.column = some column)
    (hnumeric : ∀ f ∈ presentValues column rows, f.asNumber?.isSome = true) :
    a.compute stage rows = .ok (numericAggregate a.function (numericViews column rows)) := by
  rw [compute_of_isNumeric hfunction hcolumn, columnNumbers_eq_ok hnumeric]
  rfl

/-- Over values that all count as numbers, and of which there are some, the extremes are numbers with
every value that is a number between them. They are attained if and only if one of the values is a
number; if none is, they are the infinities that the folds start from. -/
theorem extremes_attained_iff [Machine] (hpresent : presentValues column rows ≠ [])
    (hnumeric : ∀ f ∈ presentValues column rows, f.asNumber?.isSome = true) :
    ∃ low high,
      (AggregateCall.mk .min (some column) newName).compute stage rows = .ok (.number low) ∧
      (AggregateCall.mk .max (some column) newName').compute stage rows = .ok (.number high) ∧
      (∀ x ∈ numericViews column rows, x.isNaN = false → low ≤ x ∧ x ≤ high) ∧
      ((∃ x ∈ numericViews column rows, SameNumber low x) ↔
        ∃ x ∈ numericViews column rows, x.isNaN = false) ∧
      ((∃ x ∈ numericViews column rows, SameNumber high x) ↔
        ∃ x ∈ numericViews column rows, x.isNaN = false) ∧
      ((∀ x ∈ numericViews column rows, x.isNaN = true) →
        low = .ofFloat infinity ∧ high = .ofFloat (-infinity)) := by
  obtain ⟨a, ha, hleast, hmem⟩ := exists_least (numericViews column rows)
  obtain ⟨b, hb, hgreatest, hmem'⟩ := exists_greatest (numericViews column rows)
  have hne := numericViews_ne_nil hpresent hnumeric
  refine ⟨_, _, ?_, ?_, ?_, attained_iff ha hmem, attained_iff hb hmem', ?_⟩
  · rw [compute_of_asNumber? rfl rfl hnumeric, numericAggregate_min hne]
  · rw [compute_of_asNumber? rfl rfl hnumeric, numericAggregate_max hne]
  · intro x hx hnumber
    obtain ⟨c, hc, hplace⟩ := exists_place hx hnumber
    exact ⟨le_iff.2 ⟨a, c, ha, hc, hleast c hplace⟩, le_iff.2 ⟨c, b, hc, hb, hgreatest c hplace⟩⟩
  · intro hnan
    exact ⟨foldl_eq_seed fun x hx => lesser_of_isNaN (hnan x hx) _,
      foldl_eq_seed fun x hx => greater_of_isNaN (hnan x hx) _⟩

end

attribute [local instance] Machine.stopping

/-- The result of a failed division, a text and a truth value: the extremes are those of the two that
are numbers. -/
theorem mixed_values_attain_extremes :
    let rows := [("x", Field.invalidNumber "division by zero"), ("x", .string " 2.5 "),
      ("x", .boolean true)].map fun (name, f) => (Record.ofMessage "").set name f
    presentValues "x" rows ≠ [] ∧ (∀ f ∈ presentValues "x" rows, f.asNumber?.isSome = true) ∧
      ∃ low high,
        (AggregateCall.mk .min (some "x") none).compute "stats" rows = .ok (.number low) ∧
        (AggregateCall.mk .max (some "x") none).compute "stats" rows = .ok (.number high) ∧
        (∃ x ∈ numericViews "x" rows, SameNumber low x) ∧
        ∃ x ∈ numericViews "x" rows, SameNumber high x := by
  intro rows
  have hpresent : presentValues "x" rows ≠ [] := by decide +kernel
  have hnumeric : ∀ f ∈ presentValues "x" rows, f.asNumber?.isSome = true := by decide +kernel
  obtain ⟨low, high, hmin, hmax, -, hlow, hhigh, -⟩ := extremes_attained_iff hpresent hnumeric
  have hnumber : ∃ x ∈ numericViews "x" rows, x.isNaN = false := by decide +kernel
  exact ⟨hpresent, hnumeric, low, high, hmin, hmax, hlow.2 hnumber, hhigh.2 hnumber⟩

/-- Over the results of failed divisions alone the extremes are the infinities, and none of the
values. -/
theorem invalid_numbers_have_no_extremes :
    let rows := [(Record.ofMessage "").set "x" (.invalidNumber "division by zero")]
    presentValues "x" rows ≠ [] ∧ (∀ f ∈ presentValues "x" rows, f.asNumber?.isSome = true) ∧
      (AggregateCall.mk .min (some "x") none).compute "stats" rows = .ok (.number (.ofFloat infinity)) ∧
      (AggregateCall.mk .max (some "x") none).compute "stats" rows =
        .ok (.number (.ofFloat (-infinity))) ∧
      (¬∃ x ∈ numericViews "x" rows, SameNumber (.ofFloat infinity) x) ∧
      ¬∃ x ∈ numericViews "x" rows, SameNumber (.ofFloat (-infinity)) x := by
  intro rows
  have hnumeric : ∀ f ∈ presentValues "x" rows, f.asNumber?.isSome = true := by decide +kernel
  have hnan : ∀ x ∈ [Double.notANumber], x.isNaN = true := by decide +kernel
  have hleast : [Double.notANumber].foldl lesser (.ofFloat infinity) = .ofFloat infinity :=
    foldl_eq_seed fun x hx => lesser_of_isNaN (hnan x hx) _
  have hgreatest : [Double.notANumber].foldl greater (.ofFloat (-infinity)) = .ofFloat (-infinity) :=
    foldl_eq_seed fun x hx => greater_of_isNaN (hnan x hx) _
  refine ⟨by decide +kernel, hnumeric, ?_, ?_, by decide +kernel, by decide +kernel⟩
  · rw [compute_of_asNumber? rfl rfl hnumeric]
    exact congrArg (fun x => Except.ok (Field.number x)) hleast
  · rw [compute_of_asNumber? rfl rfl hnumeric]
    exact congrArg (fun x => Except.ok (Field.number x)) hgreatest

end LogSearch
