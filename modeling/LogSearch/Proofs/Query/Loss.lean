import LogSearch.Proofs.Query.Leaves

/-!
# What a canonical text loses

A canonical text that is read as tokens of its own query holds no key that an equals sign splits and
no comment.

* `filters_of_spelled`: the keys of pre-filters whose tokens come out of their canonical texts.
* `uncommented_of_yields`: a comment takes a word with it that no other place makes up for.
-/

namespace LogSearch

open LogSearch.Query

namespace Query

variable {s : Segment} {ts us : List Token} {ks : List Spelling}

/-! ## Keys -/

/-- Cutting off the end of a text makes no comment of its start. -/
theorem opensComment_take {c : Char} {rest : List Char} {n : Nat}
    (h : opensComment (c :: rest) = false) : opensComment (c :: rest.take n) = false := by
  cases ho : opensComment (c :: rest.take n) with
  | false => rfl
  | true =>
    obtain ⟨hc, hr⟩ := opensComment_iff.1 ho
    have hr' : rest.head? = some '/' := by
      cases n with
      | zero => simp at hr
      | succ n => cases rest <;> simp_all
    rw [opensComment_iff.2 ⟨hc, hr'⟩] at h
    exact absurd h (by simp)

/-- A word that starts at a fresh place starts no comment, wherever its token stands first. -/
theorem opensComment_of_spell {p : Place} {skip : Nat} {text : List Char} {w x : String}
    (h : spell (pieces p skip text) = some ((.word w, x) :: ks))
    (hf : p.fresh = true ∨ text.drop skip = []) : opensComment x.toList = false := by
  induction text generalizing p skip with
  | nil => simp [pieces, spell] at h
  | cons c rest ih =>
    cases skip with
    | succ skip => exact ih h hf
    | zero =>
      have hfresh : p.fresh = true := by simpa using hf
      simp only [pieces] at h
      cases hs : scan p c rest with
      | mk piece n =>
        simp only [hs] at h
        cases piece with
        | blank => exact ih h (fresh_of_scan hs (.inl rfl))
        | comment => exact ih h (fresh_of_scan hs (.inr rfl))
        | fault f => simp [spell] at h
        | token kind =>
          simp only [spell, Option.map_eq_some_iff, List.cons.injEq, Prod.mk.injEq] at h
          obtain ⟨_, -, ⟨hk, rfl⟩, -⟩ := h
          cases scans_of_eq hs with
          | word _ hc =>
            rw [String.toList_ofList]
            exact opensComment_take (hc hfresh)
          | symbol => simp at hk
          | quoted => simp at hk
          | backtick => simp at hk

/-- Where the lexer finds a token, the text is spelled from that token on. -/
theorem eq_of_spelled?_token {p : Place} {c : Char} {rest : List Char} {kind : TokenKind} {n : Nat}
    {k : Spelling} (hscan : scan p c rest = ⟨.token kind, n⟩)
    (h : spelled? p (c :: rest) = some (k :: ks)) :
    k = (kind, String.ofList (c :: rest.take n)) := by
  rw [spelled?_token hscan, Option.map_eq_some_iff] at h
  obtain ⟨_, -, heq⟩ := h
  exact (List.cons.inj heq).1.symm

/-- A word stops before a negation with an equals sign. -/
theorem wordLength_bang (v rest : List Char) :
    wordLength s (v ++ '!' :: '=' :: rest) ≤ v.length := by
  induction v with
  | nil => simp [wordLength, continuesWord]
  | cons c v ih =>
    rw [List.cons_append, wordLength]
    split
    · simpa using ih
    · simp

/-- A name whose token comes first in a text is a whole word of the text and starts no comment. -/
theorem word_of_spelled {name : String} {rest : List Char} (h : IsName s name)
    (hrest : rest.head? ≠ some '/')
    (hs : spelled? ⟨s, true⟩ (name.toList ++ rest) = some ((.word name, name) :: ks)) :
    NoComment name ∧ wordLength s (name.toList ++ rest) = name.toList.length := by
  have hno : NoComment name := opensComment_of_spell hs (.inl rfl)
  refine ⟨hno, ?_⟩
  have hblank := mem_word_spec h.word.length
  cases hn : name.toList with
  | nil => exact absurd hn h.word.ne_nil
  | cons c w =>
    rw [hn] at hs hblank
    simp only [NoComment, hn] at hno
    rw [List.cons_append] at hs ⊢
    cases hscan : scan ⟨s, true⟩ c (w ++ rest) with
    | mk piece n =>
      cases scans_of_eq hscan with
      | blank hc =>
        have hc' := (hblank c (List.mem_cons_self ..)).1
        simp [hc] at hc'
      | comment _ ho =>
        obtain ⟨hc, hhead⟩ := opensComment_iff.1 ho
        cases w with
        | nil => exact absurd hhead hrest
        | cons d w =>
          have ho' := opensComment_iff.2 ⟨hc, hhead⟩
          simp [opensComment] at hno ho'
          exact absurd ho'.2 (hno ho'.1)
      | fault => simp [spelled?_fault hscan] at hs
      | word hc _ =>
        have htext := (Prod.mk.inj (eq_of_spelled?_token hscan hs)).2
        have hlen := congrArg (fun x => x.toList.length) htext
        simp only [hn, String.toList_ofList, List.length_cons, List.length_take] at hlen
        have hle := wordLength_le s (w ++ rest)
        rw [wordLength, if_pos hc, List.length_cons]
        omega
      | symbol => simpa using eq_of_spelled?_token hscan hs
      | quoted => simpa using eq_of_spelled?_token hscan hs
      | backtick => simpa using eq_of_spelled?_token hscan hs

/-- A word that ends at an equals sign does not end in a negation. -/
theorem getLast?_ne_of_wordLength {w rest : List Char}
    (h : wordLength s (w ++ '=' :: rest) = w.length) : w.getLast? ≠ some '!' := by
  intro hl
  obtain ⟨v, rfl⟩ := List.getLast?_eq_some_iff.1 hl
  have hle := wordLength_bang (s := s) v rest
  simp only [List.append_assoc, List.singleton_append, List.length_append,
    List.length_singleton] at h
  omega

/-- The text of a layout with others after it, and what is read after the layout. -/
theorem exists_chars_blankLayout (items : List Item) (layouts : List (List Item)) :
    ∃ rest, chars (blankLayout (items :: layouts)) = chars items ++ rest ∧
      ∀ s fresh, spelled? ⟨s, fresh⟩ rest = spelled? ⟨s, true⟩ (chars (blankLayout layouts)) := by
  cases layouts with
  | nil => exact ⟨[], by simp [blankLayout], by simp [blankLayout]⟩
  | cons more layouts =>
    refine ⟨' ' :: chars (blankLayout (more :: layouts)), ?_, fun s fresh => spelled?_blank⟩
    rw [blankLayout, chars_append, chars_cons]
    · rfl
    · simp

/-- A pre-filter that is read back has a key that starts no comment and ends in no exclamation mark
before an equals sign; what is read after it is the rest of the text. -/
theorem WritesPreFilter.of_spelled {f : PreFilter} {layouts : List (List Item)}
    (hname : IsName .search f.key) (h : WritesPreFilter ts f us) (hf : FitIn .search ts)
    (vs : List Token)
    (hs : spelled? ⟨.search, true⟩ (chars (blankLayout (f.layout :: layouts))) =
      some ((ts ++ vs).map Token.spelling)) :
    (NoComment f.key ∧ (f.op = .equal → f.key.toList.getLast? ≠ some '!')) ∧
      spelled? ⟨.search, true⟩ (chars (blankLayout layouts)) =
        some ((us ++ vs).map Token.spelling) := by
  obtain ⟨rest, hrest, hread⟩ := exists_chars_blankLayout f.layout layouts
  obtain @⟨key, value, op, k, o, v, us, hk, -, -⟩ := h
  rw [hrest] at hs
  have hkey : NoComment key ∧ (op = .equal → key.toList.getLast? ≠ some '!') := by
    have hfirst : spelled? ⟨.search, true⟩
        (key.toList ++ (op.symbol.text.toList ++ ((patternItem value).text ++ rest))) =
          some ((.word key, key) :: (o :: v :: us ++ vs).map Token.spelling) := by
      have hspelling : k.spelling = (.word key, key) := by rw [Token.spelling, hk, hf.text_eq hk]
      simpa [PreFilter.layout, hspelling] using hs
    obtain ⟨hno, hlen⟩ := word_of_spelled hname (by cases op <;> simp [FilterOp.symbol, Symbol.text]) hfirst
    refine ⟨hno, ?_⟩
    rintro rfl
    exact getLast?_ne_of_wordLength hlen
  refine ⟨hkey, ?_⟩
  let f : PreFilter := ⟨key, op, value⟩
  have hin : LegibleIn .search f.layout rest := f.legibleIn hname hkey.2
  have hlegible := hin.legible (by simp) f.inner
  rw [spelled?_layout hlegible (f.uncommented_iff.2 hkey.1), hread, f.inner.segmentAfter (by simp),
    Option.map_eq_some_iff] at hs
  obtain ⟨ks, hks, heq⟩ := hs
  have hthree : ∃ a b c, spellings .search f.layout = [a, b, c] := by
    rw [f.inner.spellings (by simp)]
    unfold PreFilter.layout patternItem
    split <;> exact ⟨_, _, _, rfl⟩
  obtain ⟨a, b, c, hthree⟩ := hthree
  have hrest : ks = (us ++ vs).map Token.spelling := by
    rw [hthree] at heq
    simpa using congrArg (List.drop 3) heq
  rw [hks, hrest]

/-- Pre-filters that are read back have keys that start no comment and end in no exclamation mark
before an equals sign; what is read after them is the rest of the text. -/
theorem filters_of_spelled {filters : List PreFilter} {more : List (List Item)}
    (hw : ∀ f ∈ filters, IsName .search f.key) (h : Repeated WritesPreFilter ts filters us)
    (hf : FitIn .search ts) (vs : List Token)
    (hs : spelled? ⟨.search, true⟩ (chars (blankLayout (filters.map PreFilter.layout ++ more))) =
      some ((ts ++ vs).map Token.spelling)) :
    (∀ f ∈ filters, NoComment f.key ∧ (f.op = .equal → f.key.toList.getLast? ≠ some '!')) ∧
      spelled? ⟨.search, true⟩ (chars (blankLayout more)) = some ((us ++ vs).map Token.spelling) := by
  induction h with
  | nil => exact ⟨by simp, hs⟩
  | cons h _ ih =>
    rw [List.forall_mem_cons] at hw
    obtain ⟨hkey, hs⟩ := h.of_spelled hw.1 hf vs hs
    obtain ⟨hkeys, hs⟩ := ih hw.2 (hf.of_passes h.passes) hs
    exact ⟨List.forall_mem_cons.2 ⟨hkey, hkeys⟩, hs⟩

/-! ## Comments -/

/-- A layout with a comment has a first piece that starts one, which is a word. -/
theorem exists_of_not_uncommented {fresh : Bool} {items : List Item}
    (h : ¬ Uncommented fresh items) :
    ∃ front w back, items = front ++ .word w :: back ∧ Uncommented fresh front ∧
      freshAfter fresh front = true ∧ opensComment w.toList = true := by
  induction items generalizing fresh with
  | nil => exact absurd trivial h
  | cons i items ih =>
    by_cases hi : fresh = true → i.opensComment = false
    · obtain ⟨front, w, back, rfl, hfront, hfresh, hw⟩ := ih fun hitems => h ⟨hi, hitems⟩
      exact ⟨i :: front, w, back, rfl, ⟨hi, hfront⟩, hfresh, hw⟩
    · have hopens : fresh = true ∧ i.opensComment = true := by simpa using hi
      cases i with
      | word w => exact ⟨[], w, items, rfl, trivial, hopens.1, hopens.2⟩
      | _ => exact absurd hopens.2 (by simp)

/-- What can be told has no stray quotes. -/
theorem bare_of_legible {items : List Item} {rest : List Char} (h : Legible s items rest) :
    ∀ i ∈ items, i.Bare := by
  induction items generalizing s with
  | nil => simp
  | cons i items ih =>
    refine List.forall_mem_cons.2 ⟨?_, ih h.2⟩
    obtain ⟨h, -⟩ := h
    cases i with
    | blank => simp [Item.Bare]
    | word w =>
      have hword := isWord_of_append h.1 (Nat.le_of_eq h.2.symm)
      intro c hc
      obtain ⟨hblank, hquote, htick⟩ := mem_word_spec hword.length c hc
      refine ⟨hquote, htick, ?_⟩
      rintro rfl
      exact absurd hblank (by decide)
    | symbol m =>
      have hm : ∀ c ∈ m.text.toList, c ≠ '"' ∧ c ≠ '\x60' ∧ c ≠ '\n' := by
        cases m <;> simp [Symbol.text]
      exact hm
    | quoted t => trivial
    | backtick t => exact h

/-- What is read from a comment on is what is read after its line, or nothing. -/
theorem exists_spelled?_comment {c : Char} {rest : List Char}
    (h : opensComment (c :: rest) = true) :
    ∃ p more, spelled? ⟨s, true⟩ (c :: rest) = spelled? p more ∧
      (more = [] ∨ ∃ line, rest = line ++ '\n' :: more) := by
  obtain ⟨hc, hr⟩ := opensComment_iff.1 h
  have hscan : scan ⟨s, true⟩ c rest = ⟨.comment, commentLength rest⟩ := by
    have hblank : Text.isBlank '/' = false := by decide
    simp [scan, hc, hr, hblank]
  refine ⟨_, _, spelled?_skipped hscan (.inr rfl), ?_⟩
  rcases commentLength_spec rest with ⟨line, more, hrest, -, hn⟩ | ⟨-, hn⟩
  · refine .inr ⟨line, ?_⟩
    rw [hn, hrest, List.append_cons, List.drop_left' (by simp), List.append_assoc,
      List.singleton_append]
  · left
    rw [hn, List.drop_length]

/-- What is behind a part no longer than another is in what is behind that one. -/
theorem sublist_of_append {α : Type} {xs ys xs' ys' : List α}
    (h : (xs ++ ys).Sublist (xs' ++ ys')) (hlen : xs'.length ≤ xs.length) : ys.Sublist ys' := by
  obtain ⟨l, l', heq, hl, hl'⟩ := List.sublist_append_iff.1 h
  have hle := hl.length_le
  rcases List.append_eq_append_iff.1 heq with ⟨z, rfl, rfl⟩ | ⟨z, rfl, rfl⟩
  · have hz : z = [] := by
      rw [List.length_append] at hle
      exact List.length_eq_zero_iff.1 (by omega)
    simpa [hz] using hl'
  · exact (List.sublist_append_right z ys).trans hl'

/-- The text that a leaf quotes. -/
def Leaf.string? : Leaf → Option (List Char)
  | .comment => none
  | .string t => some t

/-- A leaf that is a word quotes nothing. -/
theorem wordLeaf?_string? (w : String) : (wordLeaf? w).bind Leaf.string? = none := by
  unfold wordLeaf?
  split <;> rfl

/-- The quoted texts of spelled tokens are those of their leaves. -/
theorem strings_eq (ks : List Spelling) :
    strings ks = (ks.filterMap spellingLeaf?).filterMap Leaf.string? := by
  rw [List.filterMap_filterMap, strings]
  congr 1
  funext k
  obtain ⟨kind, text⟩ := k
  cases kind <;> simp [TokenKind.string?, spellingLeaf?, wordLeaf?_string?, Leaf.string?]

/-- The quoted texts of a layout are those of its leaves. -/
theorem itemStrings_eq (items : List Item) :
    itemStrings items = (leaves items).filterMap Leaf.string? := by
  rw [leaves, List.filterMap_filterMap, itemStrings]
  congr 1
  funext i
  cases i <;> simp [Item.string?, Item.leaf?, wordLeaf?_string?, Leaf.string?]

/-- A line break that is not in the front is behind it. -/
theorem exists_append_of_not_mem {α : Type} {a : α} {xs ys line more : List α} (hx : a ∉ xs)
    (h : xs ++ ys = line ++ a :: more) : ∃ z, ys = z ++ a :: more := by
  rcases List.append_eq_append_iff.1 h with ⟨z, -, rfl⟩ | ⟨z, rfl, hz⟩
  · exact ⟨z, rfl⟩
  · cases z with
    | nil => exact ⟨[], hz.symm⟩
    | cons b z =>
      obtain ⟨rfl, -⟩ := List.cons.inj hz
      simp at hx

/-- Tokens that yield a layout with a comment have the leaf of the comment, and those behind it, among the
tokens that follow the pieces before it. -/
theorem sublist_of_comment {front back : List Item} {w : String} {ks : List Spelling}
    (hw : opensComment w.toList = true) (hts : ts.map Token.spelling = spellings s front ++ ks)
    (hy : Yields ts (front ++ .word w :: back) []) :
    (.comment :: leaves back).Sublist (ks.filterMap spellingLeaf?) := by
  have hall : tokenLeaves ts =
      (spellings s front).filterMap spellingLeaf? ++ ks.filterMap spellingLeaf? := by
    rw [← List.filterMap_append, ← hts, List.filterMap_map]
    rfl
  have hword : leaves (.word w :: back) = .comment :: leaves back :=
    List.filterMap_cons_some (by simp [Item.leaf?, wordLeaf?, hw])
  rw [Yields, leaves_append, hword, hall] at hy
  refine sublist_of_append ?_ (spellingLeaf?_sublist s front).length_le
  simpa [tokenLeaves] using hy

/-- What is read from inside the first pieces of a layout on has fewer quoted texts than the layout. -/
theorem not_strings_sublist {back : List Item} (hb : ∀ i ∈ back, i.Bare) {cs line more : List Char}
    (hline : cs ++ chars back = line ++ '\n' :: more) (hcs : '\n' ∉ cs) {p : Place} {ks : List Spelling}
    (hks : spelled? p more = some ks) : ¬ (itemStrings back).Sublist (strings ks) := by
  intro hstrings
  obtain ⟨before, hbefore, hplain⟩ := exists_chars_fromString hb
  have hfree : '\n' ∉ cs ++ before := by
    intro hm
    rcases List.mem_append.1 hm with hm | hm
    · exact hcs hm
    · exact (hplain _ hm).2.2 rfl
  rw [hbefore, ← List.append_assoc] at hline
  obtain ⟨z, hz⟩ := exists_append_of_not_mem hfree hline
  have hsuffix : more <:+ chars back := ⟨before ++ z ++ ['\n'], by simp [hbefore, hz]⟩
  have hle := length_le_of_embeds hb (embeds_of_spell hks hstrings) hsuffix
  rw [hz, List.drop_zero] at hle
  simp only [List.length_append, List.length_cons] at hle
  omega

/-- A layout with a comment is not read as tokens that have all its leaves: a comment takes its word
with it, and its line can only end inside a quoted text, which is lost as well. -/
theorem uncommented_of_yields {items : List Item} (hl : Legible s items [])
    (hs : spelled? ⟨s, true⟩ (chars items) = some (ts.map Token.spelling))
    (hy : Yields ts items []) : Uncommented true items := by
  refine Classical.byContradiction fun hno => ?_
  obtain ⟨front, w, back, rfl, hfront, hfresh, hw⟩ := exists_of_not_uncommented hno
  obtain ⟨hlfront, hlw, hlback⟩ := legible_append.1 hl
  obtain ⟨c, cs, hcs⟩ := List.exists_cons_of_ne_nil hlw.1
  have hopens : opensComment (c :: (cs ++ chars back)) = true := by
    rw [hcs] at hw
    obtain ⟨hc, hr⟩ := opensComment_iff.1 hw
    exact opensComment_iff.2 ⟨hc, by simp [hr]⟩
  -- the text is read up to the comment, and on after it
  obtain ⟨p, more, hread, hmore⟩ := exists_spelled?_comment (s := segmentAfter s front) hopens
  rw [List.append_nil] at hlfront
  rw [chars_append, spelled?_layout hlfront hfront, hfresh, chars_cons, Item.text_word, hcs,
    List.cons_append, hread, Option.map_eq_some_iff] at hs
  obtain ⟨ks, hks, hts⟩ := hs
  have hleaves := sublist_of_comment hw hts.symm hy
  rcases hmore with rfl | ⟨line, hline⟩
  · obtain rfl : ks = [] := by simpa using hks.symm
    simp at hleaves
  · have hword := mem_word_spec (isWord_of_append hlw.1 (Nat.le_of_eq hlw.2.symm)).length
    rw [hcs] at hword
    have hfree : '\n' ∉ cs := fun hm =>
      absurd (hword _ (List.mem_cons_of_mem _ hm)).1 (by decide)
    refine not_strings_sublist (bare_of_legible hlback) hline hfree hks ?_
    have hquoted := hleaves.filterMap Leaf.string?
    rwa [List.filterMap_cons_none rfl, ← itemStrings_eq, ← strings_eq] at hquoted

end Query
end LogSearch
