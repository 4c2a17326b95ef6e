import LogSearch.Proofs.Json.Numbers

/-!
# What a written value is read as

A compact text is read as the value that was written, but for its numbers: those are read as their
own texts are. It is read if the value nests no deeper than a text may.

* `Json.reread`: the value with its numbers read from their texts, if all of them can be read.
* `read?_compact`: reading a compact text gives that value, within the depth that a text may have.
-/

namespace LogSearch.Json

/-! ## Numbers -/

/-- What the text of a number is read as. -/
def rereadNumber (text : String) : Option Json := (readNumber? text.toList).map Prod.fst

/-- What a double is read as; one that JSON does not have is written as null. -/
def rereadReal (x : Float) : Option Json :=
  match Number.jsonText? x with
  | some text => rereadNumber text
  | none => some null

mutual
/-- The value with each number read from its text. -/
def reread : Json → Option Json
  | integer n => rereadNumber (toString n)
  | real x => rereadReal x
  | array items => (rereadItems items).map array
  | object members => (rereadMembers members).map object
  | value => some value

/-- `reread` on the items of an array. -/
def rereadItems : List Json → Option (List Json)
  | [] => some []
  | item :: items => do
    let item ← reread item
    let items ← rereadItems items
    return item :: items

/-- `reread` on the values of an object. -/
def rereadMembers : List (String × Json) → Option (List (String × Json))
  | [] => some []
  | (key, value) :: members => do
    let value ← reread value
    let members ← rereadMembers members
    return (key, value) :: members
end

/-! ## Texts of values -/

/-- A value is read from its text wherever the text stands, with two steps for each character. -/
def Rereads (j : Json) : Prop :=
  ∀ (fuel depth : Nat) (rest : List Char), 2 * j.compact.length ≤ fuel → EndsNumber rest →
    readValue? fuel depth (j.compact.toList ++ rest) =
      if j.depth ≤ depth then j.reread.map (·, rest) else none

/-- A value that starts like a number is read as one. -/
theorem readValue?_number {c : Char} (h : inNumber c = true) (fuel depth : Nat) (cs : List Char) :
    readValue? (fuel + 1) depth (c :: cs) = readNumber? (c :: cs) := by
  have hne : ∀ d, inNumber d = false → c ≠ d := by
    rintro d hd rfl
    exact absurd (h.symm.trans hd) (by decide)
  have hspace : skipSpace (c :: cs) = c :: cs := by
    refine List.dropWhile_cons_of_neg ?_
    simp [isSpace, hne ' ' rfl, hne '\n' rfl, hne '\t' rfl, hne '\r' rfl]
  rw [readValue?, hspace]
  simp only [if_neg (hne '"' rfl), if_neg (hne '[' rfl), if_neg (hne '\x7b' rfl), if_neg (hne 't' rfl),
    if_neg (hne 'f' rfl), if_neg (hne 'n' rfl)]

/-- A written number is read as such. -/
theorem readValue?_written {text : String} (htext : IsWritten text.toList) {fuel depth : Nat}
    {rest : List Char} (hfuel : 2 * text.length ≤ fuel) (hrest : EndsNumber rest) :
    readValue? fuel depth (text.toList ++ rest) = (rereadNumber text).map (·, rest) := by
  obtain ⟨c, more, hcons, hc⟩ := htext.exists_cons
  have hlength : text.length = more.length + 1 := by
    rw [← String.length_toList, hcons, List.length_cons]
  obtain ⟨fuel, rfl⟩ := Nat.exists_eq_succ_of_ne_zero (by omega : fuel ≠ 0)
  rw [rereadNumber, Option.map_map]
  rw [hcons, List.cons_append, readValue?_number hc, ← List.cons_append, ← hcons]
  exact htext.readNumber?_append hrest

/-- The text of a value starts neither with a blank nor with a closing bracket. -/
theorem exists_start (j : Json) :
    ∃ c cs, j.compact.toList = c :: cs ∧ isSpace c = false ∧ c ≠ ']' := by
  have hnumber : ∀ {text : String}, IsWritten text.toList →
      ∃ c cs, text.toList = c :: cs ∧ isSpace c = false ∧ c ≠ ']' := by
    intro text htext
    obtain ⟨c, more, hcons, hc⟩ := htext.exists_cons
    refine ⟨c, more, hcons, ?_, ?_⟩
    · by_contra hspace
      simp only [isSpace, Bool.not_eq_false, Bool.or_eq_true, decide_eq_true_eq] at hspace
      rcases hspace with ((rfl | rfl) | rfl) | rfl <;> exact absurd hc (by decide)
    · rintro rfl
      exact absurd hc (by decide)
  cases j with
  | null => exact ⟨'n', _, rfl, rfl, by decide⟩
  | bool b => cases b <;> exact ⟨_, _, rfl, rfl, by decide⟩
  | integer n => exact hnumber (isWritten_integer n)
  | real x =>
    rw [compact, realText]
    cases htext : Number.jsonText? x with
    | some text => exact hnumber (isWritten_real htext)
    | none => exact ⟨'n', _, rfl, rfl, by decide⟩
  | string s => exact ⟨'"', _, toList_escape s, rfl, by decide⟩
  | array items =>
    have htext := toList_array items []
    rw [List.append_nil] at htext
    exact ⟨'[', _, htext, rfl, by decide⟩
  | object members =>
    have htext := toList_object members []
    rw [List.append_nil] at htext
    exact ⟨'\x7b', _, htext, rfl, by decide⟩

/-- Joined texts are as long as the first, a comma and the others. -/
theorem length_join_cons (text next : String) (texts : List String) :
    (Text.join "," (text :: next :: texts)).length =
      text.length + 1 + (Text.join "," (next :: texts)).length := by
  have hjoin : Text.join "," (text :: next :: texts) =
      text ++ "," ++ Text.join "," (next :: texts) := rfl
  rw [hjoin, String.length_append, String.length_append]
  rfl

/-- What follows a joined text ends a number, since commas and brackets do. -/
theorem endsNumber_following {close : Char} (hclose : inNumber close = false) (rest : List Char)
    (texts : List String) : EndsNumber (following close rest texts) := by
  cases texts with
  | nil => exact endsNumber_cons hclose _
  | cons text texts => exact endsNumber_cons rfl _

/-! ## Arrays -/

section items

variable {item : Json} {items : List Json} {fuel depth : Nat} {rest : List Char}

/-- The items of an array are read one after the other, up to the closing bracket. -/
theorem readItems?_join (h : ∀ i ∈ item :: items, Rereads i)
    (hfuel : 2 * (Text.join "," ((item :: items).map compact)).length + 1 ≤ fuel) :
    readItems? fuel depth ((Text.join "," ((item :: items).map compact)).toList ++ ']' :: rest) =
      if Json.depth.depths (item :: items) ≤ depth then (rereadItems (item :: items)).map (·, rest)
      else none := by
  induction items generalizing item fuel with
  | nil =>
    obtain ⟨fuel, rfl⟩ := Nat.exists_eq_succ_of_ne_zero (by omega : fuel ≠ 0)
    have hitem := h item List.mem_cons_self
    have hend : EndsNumber (']' :: rest) := endsNumber_cons rfl rest
    have hlength : 2 * item.compact.length ≤ fuel := Nat.le_of_succ_le_succ hfuel
    have hdepth : Json.depth.depths [item] = item.depth := Nat.max_zero _
    rw [List.map_cons, join_cons, List.map_nil, following, readItems?, hitem fuel depth _ hlength hend,
      hdepth, rereadItems, rereadItems]
    split
    · cases item.reread <;> rfl
    · rfl
  | cons next items ih =>
    obtain ⟨fuel, rfl⟩ := Nat.exists_eq_succ_of_ne_zero (by omega : fuel ≠ 0)
    have hitem := h item List.mem_cons_self
    have hend : EndsNumber (following ']' rest ((next :: items).map compact)) :=
      endsNumber_following rfl _ _
    rw [List.map_cons, List.map_cons, length_join_cons] at hfuel
    have hnext := @ih next fuel (fun i hi => h i (List.mem_cons_of_mem _ hi))
      (by rw [List.map_cons]; omega)
    have hafter : skipSpace (following ']' rest ((next :: items).map compact)) =
        ',' :: ((Text.join "," ((next :: items).map compact)).toList ++ ']' :: rest) := rfl
    have hdepth : Json.depth.depths (item :: next :: items) ≤ depth ↔
        item.depth ≤ depth ∧ Json.depth.depths (next :: items) ≤ depth := Nat.max_le
    rw [List.map_cons, join_cons, readItems?, hitem fuel depth _ (by omega) hend, rereadItems]
    simp only [hdepth]
    by_cases hfirst : item.depth ≤ depth
    · rw [if_pos hfirst]
      cases item.reread with
      | none => simp
      | some value =>
        simp only [Option.map_some, Option.bind_eq_bind, Option.bind_some, hafter, hnext, hfirst,
          true_and]
        split
        · cases rereadItems (next :: items) <;> rfl
        · rfl
    · rw [if_neg hfirst, if_neg (not_and_of_not_left _ hfirst)]
      rfl

end items

/-! ## Objects -/

/-- A member is written as its key in quotes, a colon and its value. -/
theorem toList_memberText (key : String) (value : Json) (after : List Char) :
    (memberText (key, value)).toList ++ after =
      '"' :: (key.toList.flatMap escapeChar ++ '"' :: ':' :: (value.compact.toList ++ after)) := by
  rw [memberText, String.toList_append, String.toList_append, toList_escape]
  simp

/-- A member is longer than its value. -/
theorem length_memberText (key : String) (value : Json) :
    value.compact.length < (memberText (key, value)).length := by
  have hcolon : (":" : String).length = 1 := rfl
  show value.compact.length < (escape key ++ ":" ++ value.compact).length
  rw [String.length_append, String.length_append]
  omega

section members

variable {key : String} {value : Json} {members : List (String × Json)} {fuel depth : Nat}
  {rest : List Char}

/-- The key of a member is read, and then its value. -/
theorem readMembers?_member (after : List Char) :
    readMembers? (fuel + 1) depth ((memberText (key, value)).toList ++ after) = (do
      let (value, rest) ← readValue? fuel depth (value.compact.toList ++ after)
      match skipSpace rest with
      | ',' :: rest =>
        let (members, rest) ← readMembers? fuel depth rest
        return ((key, value) :: members, rest)
      | '\x7d' :: rest => return ([(key, value)], rest)
      | _ => none) := by
  have hopen : ∀ cs, skipSpace ('"' :: cs) = '"' :: cs := fun _ => rfl
  rw [toList_memberText, readMembers?, hopen]
  simp only [readString?_escape]
  rfl

/-- The members of an object are read one after the other, up to the closing brace. -/
theorem readMembers?_join (h : ∀ m ∈ (key, value) :: members, Rereads m.2)
    (hfuel : 2 * (Text.join "," (((key, value) :: members).map memberText)).length + 1 ≤ fuel) :
    readMembers? fuel depth
        ((Text.join "," (((key, value) :: members).map memberText)).toList ++ '\x7d' :: rest) =
      if Json.depth.memberDepths ((key, value) :: members) ≤ depth then
        (rereadMembers ((key, value) :: members)).map (·, rest)
      else none := by
  induction members generalizing key value fuel with
  | nil =>
    obtain ⟨fuel, rfl⟩ := Nat.exists_eq_succ_of_ne_zero (by omega : fuel ≠ 0)
    have hvalue : value.Rereads := h (key, value) List.mem_cons_self
    have hend : EndsNumber ('\x7d' :: rest) := endsNumber_cons rfl rest
    have hlength := length_memberText key value
    have hlong : 2 * (memberText (key, value)).length ≤ fuel := Nat.le_of_succ_le_succ hfuel
    have hdepth : Json.depth.memberDepths [(key, value)] = value.depth := Nat.max_zero _
    rw [List.map_cons, join_cons, List.map_nil, following, readMembers?_member,
      hvalue fuel depth _ (by omega) hend, hdepth, rereadMembers, rereadMembers]
    split
    · cases value.reread <;> rfl
    · rfl
  | cons next members ih =>
    obtain ⟨nextKey, nextValue⟩ := next
    obtain ⟨fuel, rfl⟩ := Nat.exists_eq_succ_of_ne_zero (by omega : fuel ≠ 0)
    have hvalue : value.Rereads := h (key, value) List.mem_cons_self
    have hend : EndsNumber (following '\x7d' rest (((nextKey, nextValue) :: members).map memberText)) :=
      endsNumber_following rfl _ _
    have hlength := length_memberText key value
    rw [List.map_cons, List.map_cons, length_join_cons] at hfuel
    have hnext := @ih nextKey nextValue fuel (fun m hm => h m (List.mem_cons_of_mem _ hm))
      (by rw [List.map_cons]; omega)
    have hafter : skipSpace (following '\x7d' rest (((nextKey, nextValue) :: members).map memberText)) =
        ',' :: ((Text.join "," (((nextKey, nextValue) :: members).map memberText)).toList ++
          '\x7d' :: rest) := rfl
    have hdepth : Json.depth.memberDepths ((key, value) :: (nextKey, nextValue) :: members) ≤ depth ↔
        value.depth ≤ depth ∧ Json.depth.memberDepths ((nextKey, nextValue) :: members) ≤ depth := Nat.max_le
    rw [List.map_cons, join_cons, readMembers?_member, hvalue fuel depth _ (by omega) hend,
      rereadMembers]
    simp only [hdepth]
    by_cases hfirst : value.depth ≤ depth
    · rw [if_pos hfirst]
      cases value.reread with
      | none => simp
      | some reread =>
        simp only [Option.map_some, Option.bind_eq_bind, Option.bind_some, hafter, hnext, hfirst,
          true_and]
        split
        · cases rereadMembers ((nextKey, nextValue) :: members) <;> rfl
        · rfl
    · rw [if_neg hfirst, if_neg (not_and_of_not_left _ hfirst)]
      rfl

end members

/-! ## Values -/

/-- What stands in brackets, if anything, is read as items. -/
theorem readValue?_items {c : Char} (hspace : isSpace c = false) (hclose : c ≠ ']') (fuel depth : Nat)
    (cs : List Char) : readValue? (fuel + 1) (depth + 1) ('[' :: c :: cs) =
      (readItems? fuel depth (c :: cs)).map fun p => (array p.1, p.2) := by
  have hopen : skipSpace ('[' :: c :: cs) = '[' :: c :: cs := rfl
  have hskip : skipSpace (c :: cs) = c :: cs := List.dropWhile_cons_of_neg (by rw [hspace]; decide)
  rw [readValue?, hopen]
  simp only [Char.reduceEq, if_false, if_true, hskip]
  split
  next heq => exact absurd (List.cons.inj heq).1 hclose
  next => rfl

/-- An array takes two characters more than its items. -/
theorem length_array (items : List Json) :
    (array items).compact.length = (Text.join "," (items.map compact)).length + 2 := by
  have htext := congrArg List.length (toList_array items [])
  rw [List.append_nil, String.length_toList, List.length_cons, List.length_append,
    String.length_toList] at htext
  exact htext

/-- An object takes two characters more than its members. -/
theorem length_object (members : List (String × Json)) :
    (object members).compact.length = (Text.join "," (members.map memberText)).length + 2 := by
  have htext := congrArg List.length (toList_object members [])
  rw [List.append_nil, String.length_toList, List.length_cons, List.length_append,
    String.length_toList] at htext
  exact htext

/-- An array is read from its text if its items are. -/
theorem rereads_array {items : List Json} (h : ∀ i ∈ items, Rereads i) : Rereads (array items) := by
  intro fuel depth rest hfuel _
  rw [length_array] at hfuel
  obtain ⟨fuel, rfl⟩ := Nat.exists_eq_succ_of_ne_zero (by omega : fuel ≠ 0)
  rw [toList_array, Json.depth, reread]
  cases depth with
  | zero => rfl
  | succ depth =>
    simp only [Nat.add_le_add_iff_right]
    cases items with
    | nil => rfl
    | cons item items =>
      obtain ⟨c, cs, hstart, hspace, hclose⟩ := exists_start item
      have hitems := @readItems?_join item items fuel depth rest h (by omega)
      have htext : (Text.join "," ((item :: items).map compact)).toList ++ ']' :: rest =
          c :: (cs ++ following ']' rest (items.map compact)) := by
        rw [List.map_cons, join_cons, hstart, List.cons_append]
      rw [htext] at hitems ⊢
      rw [readValue?_items hspace hclose, hitems]
      split
      · cases rereadItems (item :: items) <;> rfl
      · rfl

/-- An object is read from its text if its values are. -/
theorem rereads_object {members : List (String × Json)} (h : ∀ m ∈ members, Rereads m.2) :
    Rereads (object members) := by
  intro fuel depth rest hfuel _
  rw [length_object] at hfuel
  obtain ⟨fuel, rfl⟩ := Nat.exists_eq_succ_of_ne_zero (by omega : fuel ≠ 0)
  rw [toList_object, Json.depth, reread]
  cases depth with
  | zero => rfl
  | succ depth =>
    simp only [Nat.add_le_add_iff_right]
    cases members with
    | nil => rfl
    | cons member members =>
      obtain ⟨key, value⟩ := member
      have hmembers := @readMembers?_join key value members fuel depth rest h (by omega)
      have hopen : ∀ cs, readValue? (fuel + 1) (depth + 1) ('\x7b' :: '"' :: cs) =
          (readMembers? fuel depth ('"' :: cs)).map fun p => (object p.1, p.2) :=
        fun _ => rfl
      rw [List.map_cons, join_cons, toList_memberText] at hmembers ⊢
      rw [hopen, hmembers]
      split
      · cases rereadMembers ((key, value) :: members) <;> rfl
      · rfl

/-- A text is read from its text. -/
theorem rereads_string (s : String) : Rereads (string s) := by
  intro fuel depth rest hfuel _
  have htext : (string s).compact.toList ++ rest =
      '"' :: (s.toList.flatMap escapeChar ++ '"' :: rest) := by
    rw [compact, toList_escape, List.cons_append, List.append_assoc]
    rfl
  have hlength : 0 < (string s).compact.length := by
    rw [compact, ← String.length_toList, toList_escape]
    exact Nat.zero_lt_succ _
  obtain ⟨fuel, rfl⟩ := Nat.exists_eq_succ_of_ne_zero (by omega : fuel ≠ 0)
  have hopen : ∀ cs, readValue? (fuel + 1) depth ('"' :: cs) =
      (readString? cs).map fun p => (string p.1, p.2) := fun _ => rfl
  have hdepth : (string s).depth ≤ depth := Nat.zero_le depth
  rw [htext, hopen, readString?_escape, if_pos hdepth]
  rfl

/-- Null is read from its text. -/
theorem rereads_null : Rereads null := by
  intro fuel depth rest hfuel _
  obtain ⟨fuel, rfl⟩ := Nat.exists_eq_succ_of_ne_zero (by change 8 ≤ fuel at hfuel; omega : fuel ≠ 0)
  rfl

/-- A truth value is read from its text. -/
theorem rereads_bool (b : Bool) : Rereads (bool b) := by
  intro fuel depth rest hfuel _
  cases b with
  | false =>
    obtain ⟨fuel, rfl⟩ := Nat.exists_eq_succ_of_ne_zero (by change 10 ≤ fuel at hfuel; omega : fuel ≠ 0)
    rfl
  | true =>
    obtain ⟨fuel, rfl⟩ := Nat.exists_eq_succ_of_ne_zero (by change 8 ≤ fuel at hfuel; omega : fuel ≠ 0)
    rfl

/-- An integer is read from its text. -/
theorem rereads_integer (n : Int) : Rereads (integer n) := by
  intro fuel depth rest hfuel hrest
  have hdepth : (integer n).depth ≤ depth := Nat.zero_le depth
  rw [if_pos hdepth]
  exact readValue?_written (isWritten_integer n) hfuel hrest

/-- A double is read from its text, as null if JSON does not have it. -/
theorem rereads_real (x : Float) : Rereads (real x) := by
  intro fuel depth rest hfuel hrest
  have hdepth : (real x).depth ≤ depth := Nat.zero_le depth
  rw [if_pos hdepth]
  rw [compact, realText] at hfuel ⊢
  cases htext : Number.jsonText? x with
  | none =>
    rw [htext] at hfuel
    obtain ⟨fuel, rfl⟩ := Nat.exists_eq_succ_of_ne_zero (by change 8 ≤ fuel at hfuel; omega : fuel ≠ 0)
    rw [reread, rereadReal, htext]
    rfl
  | some text =>
    rw [htext] at hfuel
    rw [reread, rereadReal, htext]
    exact readValue?_written (isWritten_real htext) hfuel hrest

mutual
/-- Every value is read from its text as the value with its numbers read from theirs. -/
theorem rereads : ∀ j : Json, Rereads j
  | null => rereads_null
  | bool b => rereads_bool b
  | integer n => rereads_integer n
  | real x => rereads_real x
  | string s => rereads_string s
  | array items => rereads_array (rereads_items items)
  | object members => rereads_object (rereads_members members)

/-- The items of an array are read from their texts. -/
theorem rereads_items : ∀ items : List Json, ∀ i ∈ items, Rereads i
  | [] => List.forall_mem_nil _
  | item :: items => List.forall_mem_cons.2 ⟨rereads item, rereads_items items⟩

/-- The values of an object are read from their texts. -/
theorem rereads_members : ∀ members : List (String × Json), ∀ m ∈ members, Rereads m.2
  | [] => List.forall_mem_nil _
  | (_, value) :: members => List.forall_mem_cons.2 ⟨rereads value, rereads_members members⟩
end

/-- A compact text is read if the value nests no deeper than a text may and its numbers can be read;
the numbers are then what their own texts are read as. -/
theorem read?_compact (j : Json) :
    read? j.compact = if j.depth ≤ maxDepth then j.reread else none := by
  have hread := rereads j (2 * j.compact.length + 2) maxDepth [] (by omega) endsNumber_nil
  rw [List.append_nil] at hread
  rw [read?, hread]
  split
  · cases j.reread <;> rfl
  · rfl

end LogSearch.Json
