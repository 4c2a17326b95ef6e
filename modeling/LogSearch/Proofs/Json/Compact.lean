import LogSearch.Json.Reader
import LogSearch.Json.Writer
import Std.Data.String.ToInt

/-!
# Compact texts are unambiguous

A compact text says where it ends: a string at its closing quote, an array or an object at its
closing bracket, and a number at the mark that has to follow. So no two values that a text can hold
exactly are written alike, however deep they nest.

* `readString?_escape`: what is written between quotes reads back.
* `Json.Exact`: values without doubles, whose text would be a rounded one.
* `Json.Told`: a value that is known from its text, wherever the text stands.
* `Json.Exact.told`, `Json.Exact.compact_inj`: every exact value is.
-/

namespace LogSearch.Json

/-! ## Strings -/

/-- A hexadecimal digit is read as the number it stands for. -/
theorem hexValue?_hexDigit (n : Nat) : hexValue? (hexDigit n) = some (n % 16) := by
  have hall : ∀ d < 16, hexValue? (Nat.digitChar d) = some d := by decide
  exact hall _ (Nat.mod_lt _ (by decide))

/-- The escape of a control character is read as that character. -/
theorem readUnicode?_control {c : Char} (h : c.toNat < 0x20) (rest : List Char) :
    readUnicode? ('0' :: '0' :: hexDigit (c.toNat / 16) :: hexDigit c.toNat :: rest) =
      some (c, rest) := by
  have hvalue : ((0 * 16 + 0) * 16 + c.toNat / 16 % 16) * 16 + c.toNat % 16 = c.toNat := by omega
  have hzero : hexValue? '0' = some 0 := rfl
  have hread : readHex? ('0' :: '0' :: hexDigit (c.toNat / 16) :: hexDigit c.toNat :: rest) =
      some (c.toNat, rest) := by
    simp only [readHex?, hzero, hexValue?_hexDigit, bind, Option.bind, pure]
    rw [hvalue]
  have hlow : ¬(0xDC00 ≤ c.toNat ∧ c.toNat < 0xE000) := by omega
  have hhigh : ¬(0xD800 ≤ c.toNat ∧ c.toNat < 0xDC00) := by omega
  simp only [readUnicode?, hread, bind, Option.bind, if_neg hlow, if_neg hhigh, Char.ofNat_toNat, pure]

/-- The reader takes in one character for one that was written. -/
theorem go_escapeChar (c : Char) (fuel : Nat) (read rest : List Char) :
    readString?.go (fuel + 1) read (escapeChar c ++ rest) = readString?.go fuel (c :: read) rest := by
  unfold escapeChar
  split
  · next h => subst h; rfl
  split
  · next h => subst h; rfl
  split
  · next h => subst h; rfl
  split
  · next h => subst h; rfl
  split
  · next h => subst h; rfl
  split
  · next h => subst h; rfl
  split
  · next h => subst h; rfl
  split
  · next hcontrol =>
    have hescape : readEscape? ('u' :: '0' :: '0' :: hexDigit (c.toNat / 16) :: hexDigit c.toNat :: rest) =
        some (c, rest) := readUnicode?_control hcontrol rest
    simp only [List.cons_append, List.nil_append, readString?.go, hescape]
    rfl
  · next hquote hbackslash _ _ _ _ _ hplain =>
    simp [readString?.go, hquote, hbackslash, hplain]

/-- What is written between quotes reads back, whatever follows. -/
theorem readString?_escape (s : String) (rest : List Char) :
    readString? (s.toList.flatMap escapeChar ++ '"' :: rest) = some (s, rest) := by
  have hgo : ∀ (cs read : List Char) (fuel : Nat), cs.length < fuel →
      readString?.go fuel read (cs.flatMap escapeChar ++ '"' :: rest) =
        some (String.ofList (read.reverse ++ cs), rest) := by
    intro cs
    induction cs with
    | nil =>
      intro read fuel hfuel
      obtain ⟨fuel, rfl⟩ := Nat.exists_eq_succ_of_ne_zero (Nat.ne_of_gt hfuel)
      simp [readString?.go]
    | cons c cs ih =>
      intro read fuel hfuel
      obtain ⟨fuel, rfl⟩ := Nat.exists_eq_succ_of_ne_zero (Nat.ne_zero_of_lt hfuel)
      rw [List.flatMap_cons, List.append_assoc, go_escapeChar,
        ih (c :: read) fuel (Nat.lt_of_succ_lt_succ hfuel), List.reverse_cons, List.append_assoc]
      rfl
  have hlength : ∀ cs : List Char, cs.length ≤ (cs.flatMap escapeChar).length := by
    intro cs
    induction cs with
    | nil => exact Nat.le_refl _
    | cons c cs ih =>
      have hone : 0 < (escapeChar c).length := by
        unfold escapeChar
        repeat' split
        all_goals exact Nat.zero_lt_succ _
      rw [List.flatMap_cons, List.length_append, List.length_cons]
      omega
  have hfuel : s.toList.length < (s.toList.flatMap escapeChar ++ '"' :: rest).length := by
    have hcode := hlength s.toList
    rw [List.length_append, List.length_cons]
    omega
  rw [readString?, hgo _ _ _ hfuel, List.reverse_nil, List.nil_append, String.ofList_toList]

/-- A text is written in quotes, character by character. -/
theorem toList_escape (s : String) :
    (escape s).toList = '"' :: (s.toList.flatMap escapeChar ++ ['"']) := by
  rw [escape, String.toList_ofList, List.cons_append]

/-- A written string is known, and where it ends. -/
theorem escape_cancel {s t : String} {r q : List Char}
    (h : (escape s).toList ++ r = (escape t).toList ++ q) : s = t ∧ r = q := by
  rw [toList_escape, toList_escape, List.cons_append, List.cons_append, List.append_assoc,
    List.append_assoc] at h
  have hs := readString?_escape s r
  have ht := readString?_escape t q
  have hsame : s.toList.flatMap escapeChar ++ '"' :: r = t.toList.flatMap escapeChar ++ '"' :: q :=
    (List.cons.inj h).2
  rw [hsame, ht] at hs
  have hpair := Option.some.inj hs
  exact ⟨(Prod.mk.inj hpair).1.symm, (Prod.mk.inj hpair).2.symm⟩

/-! ## Numbers -/

/-- Whether a character can stand in the text of an integer. -/
def inInteger (c : Char) : Bool := c = '-' || c.isDigit

/-- An integer is written as its sign and the digits of its magnitude. -/
theorem toList_integer (n : Int) :
    (toString n).toList = (if n < 0 then ['-'] else []) ++ Nat.toDigits 10 n.natAbs := by
  cases n with
  | ofNat m =>
    have hpositive : ¬Int.ofNat m < 0 := Int.not_lt.2 (Int.natCast_nonneg m)
    rw [if_neg hpositive, List.nil_append]
    exact Nat.toList_repr
  | negSucc m =>
    rw [if_pos (Int.negSucc_lt_zero m)]
    change ("-" ++ (m + 1).repr).toList = _
    rw [String.toList_append, Nat.toList_repr]
    rfl

/-- An integer is written with characters of integers. -/
theorem inInteger_of_mem {n : Int} {c : Char} (h : c ∈ (toString n).toList) : inInteger c = true := by
  rw [toList_integer] at h
  rcases List.mem_append.1 h with h | h
  · split at h
    · rw [List.mem_singleton.1 h]
      rfl
    · exact absurd h List.not_mem_nil
  · unfold inInteger
    rw [Nat.isDigit_of_mem_toDigits (by decide) (by decide) h, Bool.or_true]

/-- What may follow a value: the end, or a character that no integer holds. -/
def EndsValue (rest : List Char) : Prop := ∀ c ∈ rest.head?, inInteger c = false

/-- A character that no integer holds ends a value. -/
theorem endsValue_cons {c : Char} (h : inInteger c = false) (rest : List Char) :
    EndsValue (c :: rest) := fun d hd => by
  rw [List.head?_cons, Option.mem_some_iff] at hd
  rwa [← hd]

/-- A written integer is known, and where it ends. -/
theorem integer_cancel {m n : Int} {r q : List Char} (hr : EndsValue r) (hq : EndsValue q)
    (h : (toString m).toList ++ r = (toString n).toList ++ q) : m = n ∧ r = q := by
  have hspan : ∀ {k : Int} {rest : List Char}, EndsValue rest →
      ((toString k).toList ++ rest).takeWhile inInteger = (toString k).toList := by
    intro k rest hrest
    rw [List.takeWhile_append_of_pos fun c hc => inInteger_of_mem hc]
    cases rest with
    | nil => rw [List.takeWhile_nil, List.append_nil]
    | cons c rest => rw [List.takeWhile_cons_of_neg (by rw [hrest c rfl]; decide), List.append_nil]
  have htext : (toString m).toList = (toString n).toList := by rw [← hspan hr, h, hspan hq]
  refine ⟨Int.repr_injective (String.toList_inj.1 htext), ?_⟩
  rw [htext] at h
  exact List.append_cancel_left h

/-! ## Lists -/

section lists

variable {α : Type}

/-- An item that is known from its text, wherever the text stands, among items of some kind. -/
def Told (text : α → String) (among : α → Prop) (a : α) : Prop :=
  ∀ {b : α} {r q : List Char}, among b → EndsValue r → EndsValue q →
    (text a).toList ++ r = (text b).toList ++ q → a = b ∧ r = q

/-- What follows the first of some joined texts. -/
def following (close : Char) (rest : List Char) : List String → List Char
  | [] => close :: rest
  | text :: texts => ',' :: ((Text.join "," (text :: texts)).toList ++ close :: rest)

/-- The first of joined texts is followed by a comma and the others, or by what closes them. -/
theorem join_cons (close : Char) (rest : List Char) (text : String) (texts : List String) :
    (Text.join "," (text :: texts)).toList ++ close :: rest =
      text.toList ++ following close rest texts := by
  cases texts with
  | nil => rfl
  | cons next texts =>
    have hjoin : Text.join "," (text :: next :: texts) =
        text ++ "," ++ Text.join "," (next :: texts) := rfl
    rw [hjoin, following, String.toList_append, String.toList_append, List.append_assoc,
      List.append_assoc]
    rfl

/-- What follows a joined text ends a value, since commas and brackets do. -/
theorem endsValue_following {close : Char} (hclose : inInteger close = false) (rest : List Char)
    (texts : List String) : EndsValue (following close rest texts) := by
  cases texts with
  | nil => exact endsValue_cons hclose _
  | cons text texts => exact endsValue_cons rfl _

/-- Items that are told apart are so in a list as well, which ends at its closing mark. -/
theorem join_cancel {text : α → String} {among : α → Prop} {close : Char}
    (hclose : inInteger close = false) (hcomma : close ≠ ',')
    (hstart : ∀ a, among a → ∀ r q, (text a).toList ++ r ≠ close :: q) {as bs : List α}
    (htold : ∀ a ∈ as, Told text among a) (ha : ∀ a ∈ as, among a) (hb : ∀ b ∈ bs, among b)
    {r q : List Char}
    (h : (Text.join "," (as.map text)).toList ++ close :: r =
      (Text.join "," (bs.map text)).toList ++ close :: q) : as = bs ∧ r = q := by
  induction as generalizing bs with
  | nil =>
    cases bs with
    | nil => exact ⟨rfl, (List.cons.inj h).2⟩
    | cons b bs =>
      rw [List.map_cons, join_cons] at h
      exact absurd h.symm (hstart b (hb b List.mem_cons_self) _ _)
  | cons a as ih =>
    rw [List.map_cons, join_cons] at h
    cases bs with
    | nil => exact absurd h (hstart a (ha a List.mem_cons_self) _ _)
    | cons b bs =>
      rw [List.map_cons, join_cons] at h
      obtain ⟨rfl, hrest⟩ := htold a List.mem_cons_self (hb b List.mem_cons_self)
        (endsValue_following hclose _ _) (endsValue_following hclose _ _) h
      have hnext : (Text.join "," (as.map text)).toList ++ close :: r =
          (Text.join "," (bs.map text)).toList ++ close :: q := by
        cases as with
        | nil =>
          cases bs with
          | nil => exact hrest
          | cons => exact absurd (List.cons.inj hrest).1 hcomma
        | cons =>
          cases bs with
          | nil => exact absurd (List.cons.inj hrest).1.symm hcomma
          | cons => exact (List.cons.inj hrest).2
      obtain ⟨rfl, hend⟩ := ih (fun a' ha' => htold a' (List.mem_cons_of_mem _ ha'))
        (fun a' ha' => ha a' (List.mem_cons_of_mem _ ha'))
        (fun b' hb' => hb b' (List.mem_cons_of_mem _ hb')) hnext
      exact ⟨rfl, hend⟩

end lists

/-! ## Values -/

/-- A value without doubles. -/
inductive Exact : Json → Prop
  | null : Exact null
  | bool (b : Bool) : Exact (bool b)
  | integer (n : Int) : Exact (integer n)
  | string (s : String) : Exact (string s)
  | array {items : List Json} (h : ∀ item ∈ items, Exact item) : Exact (array items)
  | object {members : List (String × Json)} (h : ∀ member ∈ members, Exact member.2) :
    Exact (object members)

/-- The text of a member. -/
def memberText (member : String × Json) : String := escape member.1 ++ ":" ++ member.2.compact

/-- Items are written one by one. -/
theorem compactItems_eq (items : List Json) : compactItems items = items.map compact := by
  induction items with
  | nil => rfl
  | cons item items ih => rw [compactItems, ih, List.map_cons]

/-- Members are written one by one. -/
theorem compactMembers_eq (members : List (String × Json)) :
    compactMembers members = members.map memberText := by
  induction members with
  | nil => rfl
  | cons member members ih => rw [compactMembers, ih, List.map_cons]; rfl

/-- An array is written in brackets, with commas between its items. -/
theorem toList_array (items : List Json) (rest : List Char) :
    (compact (array items)).toList ++ rest =
      '[' :: ((Text.join "," (items.map compact)).toList ++ ']' :: rest) := by
  rw [compact, compactItems_eq, String.toList_append, String.toList_append, List.append_assoc,
    List.append_assoc]
  rfl

/-- An object is written in braces, with commas between its members. -/
theorem toList_object (members : List (String × Json)) (rest : List Char) :
    (compact (object members)).toList ++ rest =
      '\x7b' :: ((Text.join "," (members.map memberText)).toList ++ '\x7d' :: rest) := by
  rw [compact, compactMembers_eq, String.toList_append, String.toList_append, List.append_assoc,
    List.append_assoc]
  rfl

/-- The kinds of values. -/
inductive Kind
  | null
  | bool
  | integer
  | real
  | string
  | array
  | object

/-- Which kind of value it is. -/
def kind : Json → Kind
  | null => .null
  | bool _ => .bool
  | integer _ => .integer
  | real _ => .real
  | string _ => .string
  | array _ => .array
  | object _ => .object

/-- The kind of value that a text starts. -/
def kindOfText : List Char → Option Kind
  | [] => none
  | c :: _ =>
    if inInteger c then some .integer
    else if c = 'n' then some .null
    else if c = 't' ∨ c = 'f' then some .bool
    else if c = '"' then some .string
    else if c = '[' then some .array
    else if c = '\x7b' then some .object
    else none

/-- The first character of a text gives the kind of its value away. -/
theorem kindOfText_compact {v : Json} (hv : v.Exact) (rest : List Char) :
    kindOfText (v.compact.toList ++ rest) = some v.kind := by
  cases hv with
  | null => rfl
  | bool b => cases b <;> rfl
  | integer n =>
    cases htext : (toString n).toList with
    | nil =>
      rw [toList_integer] at htext
      exact absurd (List.append_eq_nil_iff.1 htext).2 Nat.toDigits_ne_nil
    | cons c cs =>
      have hc : inInteger c = true :=
        inInteger_of_mem (n := n) (by rw [htext]; exact List.mem_cons_self)
      rw [compact, htext, List.cons_append, kindOfText, if_pos hc]
      rfl
  | string s =>
    rw [compact, toList_escape]
    rfl
  | array =>
    rw [toList_array]
    rfl
  | object =>
    rw [toList_object]
    rfl

/-- Members are told apart if their values are. -/
theorem told_member {member : String × Json} (h : Told compact Exact member.2) :
    Told memberText (fun m => Exact m.2) member := by
  intro other r q hother hr hq htext
  unfold memberText at htext
  simp only [String.toList_append, List.append_assoc] at htext
  obtain ⟨hkey, hrest⟩ := escape_cancel htext
  obtain ⟨hvalue, hend⟩ := h hother hr hq (List.append_cancel_left hrest)
  exact ⟨Prod.ext hkey hvalue, hend⟩

/-- Values whose texts start alike are of one kind. -/
theorem Exact.kind_eq {v w : Json} (hv : v.Exact) (hw : w.Exact) {r q : List Char}
    (h : v.compact.toList ++ r = w.compact.toList ++ q) : v.kind = w.kind := by
  have hkind := kindOfText_compact hv r
  rw [h, kindOfText_compact hw q] at hkind
  exact (Option.some.inj hkind).symm

/-- No value starts with the bracket that closes an array. -/
theorem Exact.not_rightBracket {v : Json} (hv : v.Exact) (r q : List Char) :
    v.compact.toList ++ r ≠ ']' :: q := by
  intro heq
  have hkind := kindOfText_compact hv r
  rw [heq] at hkind
  cases hkind

/-- No member starts with the brace that closes an object. -/
theorem memberText_not_rightBrace (m : String × Json) (r q : List Char) :
    (memberText m).toList ++ r ≠ '\x7d' :: q := by
  intro heq
  unfold memberText at heq
  simp only [String.toList_append, List.append_assoc, toList_escape, List.cons_append] at heq
  exact absurd (List.cons.inj heq).1 (by decide)

/-- An exact value is known from its text, wherever the text stands. -/
theorem Exact.told {v : Json} (hv : v.Exact) : Told compact Exact v := by
  induction hv with
  | null =>
    intro w r q hw _ _ h
    have hkind := Exact.null.kind_eq hw h
    cases hw <;> cases hkind
    exact ⟨rfl, List.append_cancel_left h⟩
  | bool b =>
    intro w r q hw _ _ h
    have hkind := (Exact.bool b).kind_eq hw h
    cases hw with
    | bool b' =>
      cases b <;> cases b'
      · exact ⟨rfl, List.append_cancel_left h⟩
      · exact absurd (List.cons.inj h).1 (by decide)
      · exact absurd (List.cons.inj h).1 (by decide)
      · exact ⟨rfl, List.append_cancel_left h⟩
    | _ => cases hkind
  | integer n =>
    intro w r q hw hr hq h
    have hkind := (Exact.integer n).kind_eq hw h
    cases hw with
    | integer n' =>
      rw [compact, compact] at h
      obtain ⟨rfl, hend⟩ := integer_cancel hr hq h
      exact ⟨rfl, hend⟩
    | _ => cases hkind
  | string s =>
    intro w r q hw _ _ h
    have hkind := (Exact.string s).kind_eq hw h
    cases hw with
    | string t =>
      rw [compact, compact] at h
      obtain ⟨rfl, hend⟩ := escape_cancel h
      exact ⟨rfl, hend⟩
    | _ => cases hkind
  | @array items hitems ih =>
    intro w r q hw _ _ h
    have hkind := (Exact.array hitems).kind_eq hw h
    cases hw with
    | @array others hothers =>
      rw [toList_array, toList_array] at h
      obtain ⟨rfl, hend⟩ := join_cancel rfl (by decide)
        (fun _ hv => hv.not_rightBracket) ih hitems hothers (List.cons.inj h).2
      exact ⟨rfl, hend⟩
    | _ => cases hkind
  | @object members hmembers ih =>
    intro w r q hw _ _ h
    have hkind := (Exact.object hmembers).kind_eq hw h
    cases hw with
    | @object others hothers =>
      rw [toList_object, toList_object] at h
      obtain ⟨rfl, hend⟩ := join_cancel rfl (by decide)
        (fun m _ => memberText_not_rightBrace m) (fun m hm => told_member (ih m hm)) hmembers
        hothers (List.cons.inj h).2
      exact ⟨rfl, hend⟩
    | _ => cases hkind

/-- Exact values with the same compact text are the same. -/
theorem Exact.compact_inj {v w : Json} (hv : v.Exact) (hw : w.Exact) (h : v.compact = w.compact) :
    v = w := by
  have hend : EndsValue [] := fun c hc => absurd hc (by simp)
  exact (hv.told hw hend hend (by rw [h])).1

end LogSearch.Json
