import LogSearch.Proofs.Query.Layout

/-!
# Quoted texts inside a layout

A part of a layout holds the quoted texts of the layout again only if it holds them where they
stand: what begins inside the first of them has lost it for good.

* `Quotes`: a stretch of text that is one quoted text.
* `Embeds`: a text that holds quoted texts one after another.
* `embeds_of_spell`: the quoted texts among the tokens of a text are embedded in it.
* `length_le_of_embeds`: an end of a layout that embeds all its quoted texts begins before them.
-/

namespace LogSearch.Query

/-! ## Quoted texts -/

/-- A stretch of text that is a text between quotes or backticks. -/
inductive Quotes : List Char → List Char → Prop
  | quoted {body t : List Char} :
      (∀ more, quotedText? (body ++ more) = some (t, body.length)) → Quotes ('"' :: body) t
  | backtick {t : List Char} : '\x60' ∉ t → Quotes ('\x60' :: t ++ ['\x60']) t

/-- What a quoted text takes of a text is a stretch of its own, longer than what it quotes, that
ends in a quote. -/
theorem quotedText?_spec {text t : List Char} {n : Nat} (h : quotedText? text = some (t, n)) :
    (∀ more, quotedText? (text.take n ++ more) = some (t, n)) ∧ n ≤ text.length ∧ t.length < n ∧
      ∃ front, text.take n = front ++ ['"'] := by
  induction text using quotedText?.induct generalizing t n with
  | case1 => simp [quotedText?] at h
  | case2 tail =>
    obtain ⟨rfl, rfl⟩ : _ ∧ _ := by simpa [quotedText?] using h
    exact ⟨by simp [quotedText?], by simp, by simp, [], rfl⟩
  | case3 => simp [quotedText?] at h
  | case4 c rest ih =>
    rw [quotedText?, Option.map_eq_some_iff] at h
    obtain ⟨⟨t', n'⟩, h, heq⟩ := h
    obtain ⟨rfl, rfl⟩ := Prod.mk.inj heq
    obtain ⟨hmore, hn, ht, front, hfront⟩ := ih h
    refine ⟨fun more => ?_, by simpa using hn, ?_, '\\' :: c :: front, by simp [hfront]⟩
    · rw [List.take_succ_cons, List.take_succ_cons, List.cons_append, List.cons_append, quotedText?,
        hmore more]
      rfl
    · split <;> simp <;> omega
  | case5 c rest hquote hend hslash ih =>
    have hc : c ≠ '\\' := by
      rintro rfl
      cases rest with
      | nil => exact hend rfl rfl
      | cons d rest => exact hslash d rest rfl rfl
    rw [quotedText?_plain hquote hc, Option.map_eq_some_iff] at h
    obtain ⟨⟨t', n'⟩, h, heq⟩ := h
    obtain ⟨rfl, rfl⟩ := Prod.mk.inj heq
    obtain ⟨hmore, hn, ht, front, hfront⟩ := ih h
    refine ⟨fun more => ?_, by simpa using hn, by simpa using ht, c :: front, by simp [hfront]⟩
    rw [List.take_succ_cons, List.cons_append, quotedText?_plain hquote hc, hmore more]
    rfl

/-- A quoted text is shorter than the stretch that it stands in, by its quotes. -/
theorem Quotes.length_lt {e t : List Char} (h : Quotes e t) : t.length + 2 ≤ e.length := by
  cases h with
  | quoted h =>
    have ht := (quotedText?_spec (h [])).2.2.1
    simp only [List.length_cons]
    omega
  | backtick h => simp

/-- A quoted text ends in a quote or a backtick. -/
theorem Quotes.exists_concat {e t : List Char} (h : Quotes e t) :
    ∃ front c, e = front ++ [c] ∧ (c = '"' ∨ c = '\x60') := by
  cases h with
  | @quoted body t h =>
    obtain ⟨front, hfront⟩ := (quotedText?_spec (h [])).2.2.2
    rw [List.append_nil, List.take_length] at hfront
    exact ⟨'"' :: front, '"', by rw [hfront, List.cons_append], .inl rfl⟩
  | @backtick t h => exact ⟨'\x60' :: t, '\x60', rfl, .inr rfl⟩

/-! ## Texts that hold quoted texts -/

/-- A text that holds quoted texts, one after another. -/
inductive Embeds : List (List Char) → List Char → Prop
  | nil {text : List Char} : Embeds [] text
  | cons {t e before after : List Char} {ts : List (List Char)} :
      Quotes e t → Embeds ts after → Embeds (t :: ts) (before ++ e ++ after)

/-- A text that holds quoted texts does so behind any other. -/
theorem Embeds.prepend {ts : List (List Char)} {text : List Char} (before : List Char)
    (h : Embeds ts text) : Embeds ts (before ++ text) := by
  cases h with
  | nil => exact .nil
  | @cons t e b after ts hq h =>
    have hcons : Embeds (t :: ts) (before ++ b ++ e ++ after) := .cons hq h
    simpa only [List.append_assoc] using hcons

/-- What is found behind a quoted text is found behind its stretch. -/
theorem Embeds.of_sublist {ts us : List (List Char)} {e t after : List Char} (hq : Quotes e t)
    (h : ∀ {us'}, us'.Sublist us → Embeds us' after) (hts : ts.Sublist (t :: us)) :
    Embeds ts (e ++ after) := by
  cases hts with
  | cons _ hts => exact (h hts).prepend e
  | cons_cons _ hts => exact show Embeds _ ([] ++ e ++ after) from .cons hq (h hts)

/-- The text of a token between quotes or backticks. -/
def TokenKind.string? : TokenKind → Option (List Char)
  | .quoted t | .backtick t => some t.toList
  | _ => none

/-- The quoted texts among spelled tokens. -/
def strings (ks : List Spelling) : List (List Char) := ks.filterMap fun k => k.1.string?

/-- What is no quoted text adds none. -/
theorem strings_cons_none {k : Spelling} (ks : List Spelling) (h : k.1.string? = none) :
    strings (k :: ks) = strings ks := List.filterMap_cons_none h

/-- A quoted text is one of those among the tokens. -/
theorem strings_cons_some {k : Spelling} (ks : List Spelling) {t : List Char}
    (h : k.1.string? = some t) : strings (k :: ks) = t :: strings ks := List.filterMap_cons_some h

/-- A word is no quoted text. -/
theorem wordKind_string? (s : Segment) (w : List Char) : (wordKind s w).string? = none := by
  unfold wordKind
  dsimp only
  split
  · split <;> rfl
  · split
    · rfl
    · split <;> rfl

/-- The quoted texts among the tokens of a text are embedded in it. -/
theorem embeds_of_spell {p : Place} {skip : Nat} {text : List Char} {ks : List Spelling}
    {ts : List (List Char)} (h : spell (pieces p skip text) = some ks)
    (hts : ts.Sublist (strings ks)) : Embeds ts (text.drop skip) := by
  induction text generalizing p skip ks ts with
  | nil =>
    obtain rfl : ks = [] := by simpa [pieces, spell] using h.symm
    obtain rfl : ts = [] := by simpa [strings] using hts
    exact .nil
  | cons c rest ih =>
    cases skip with
    | succ skip => exact ih h hts
    | zero =>
      simp only [pieces] at h
      cases hs : scan p c rest with
      | mk piece n =>
        simp only [hs] at h
        have htext : c :: rest = (c :: rest.take n) ++ rest.drop n := by simp
        rw [List.drop_zero, htext]
        cases piece with
        | blank => exact (ih (p := p.after .blank _) h hts).prepend _
        | comment => exact (ih (p := p.after .comment _) h hts).prepend _
        | fault f => simp [spell] at h
        | token kind =>
          simp only [spell, Option.map_eq_some_iff] at h
          obtain ⟨ks', h, rfl⟩ := h
          have hrest : ∀ {us : List (List Char)}, us.Sublist (strings ks') →
              Embeds us (rest.drop n) := fun hus => ih h hus
          cases scans_of_eq hs with
          | word hc hf =>
            rw [strings_cons_none _ (wordKind_string? _ _)] at hts
            exact (hrest hts).prepend _
          | symbol => exact (hrest hts).prepend _
          | @quoted t n hc ht =>
            subst hc
            obtain ⟨hmore, hn, -⟩ := quotedText?_spec ht
            have hq : Quotes ('"' :: rest.take n) t := by
              refine .quoted fun more => ?_
              rw [hmore more, List.length_take, Nat.min_eq_left hn]
            rw [strings_cons_some ks' rfl, String.toList_ofList] at hts
            exact .of_sublist hq hrest hts
          | @backtick t more hc ht hr =>
            subst hc
            have htake : rest.take (t.length + 1) = t ++ ['\x60'] := by
              rw [hr, List.append_cons, List.take_left' (by simp)]
            rw [htake]
            rw [strings_cons_some ks' rfl, String.toList_ofList] at hts
            exact .of_sublist (.backtick ht) hrest hts

/-! ## Ends of a quoted text -/

/-- A quote ends what is written for a character. -/
theorem quoteChar_eq_append {c : Char} {x y : List Char} (h : quoteChar c = x ++ '"' :: y) :
    y = [] := by
  have hlen : (quoteChar c).length ≤ 2 := by
    unfold quoteChar
    repeat' split
    all_goals simp
  cases x with
  | cons d x =>
    rw [h] at hlen
    simp only [List.cons_append, List.length_cons, List.length_append] at hlen
    exact List.length_eq_zero_iff.1 (by omega)
  | nil =>
    unfold quoteChar at h
    repeat' split at h
    all_goals simp_all

/-- A backtick is written for itself alone. -/
theorem tick_mem_quoteChar {c : Char} (h : '\x60' ∈ quoteChar c) : c = '\x60' := by
  unfold quoteChar at h
  repeat' split at h
  all_goals simp at h
  exact h.symm

/-- A quote inside a quoted text stands for a quote of what is quoted. -/
theorem exists_of_quote {t x y : List Char} (hy : y ≠ [])
    (h : t.flatMap quoteChar ++ ['"'] = x ++ '"' :: y) :
    ∃ t' : List Char, t'.length < t.length ∧ y = t'.flatMap quoteChar ++ ['"'] := by
  induction t generalizing x with
  | nil =>
    cases x with
    | nil => exact absurd (by simpa using h.symm) hy
    | cons c x => simp at h
  | cons c t ih =>
    rw [List.flatMap_cons, List.append_assoc] at h
    have hlift : ∀ {x}, t.flatMap quoteChar ++ ['"'] = x ++ '"' :: y →
        ∃ t' : List Char, t'.length < (c :: t).length ∧ y = t'.flatMap quoteChar ++ ['"'] := by
      intro x hx
      obtain ⟨t', hlen, hy⟩ := ih hx
      exact ⟨t', by simp only [List.length_cons]; omega, hy⟩
    rcases List.append_eq_append_iff.1 h with ⟨x', -, hrest⟩ | ⟨z, hz, hrest⟩
    · exact hlift hrest
    · cases z with
      | nil => exact hlift (x := []) hrest.symm
      | cons d z =>
        rw [List.cons_append, List.cons.injEq] at hrest
        obtain ⟨rfl, hrest⟩ := hrest
        obtain rfl := quoteChar_eq_append hz
        exact ⟨t, by simp, hrest⟩

/-- No quoted text holds itself after its first character. -/
theorem not_quotes_inside {t x e y : List Char}
    (h : t.flatMap quoteChar ++ ['"'] = x ++ e ++ y) : ¬ Quotes e t := by
  intro hq
  cases hq with
  | @quoted body t hbody =>
    rw [List.append_assoc, List.cons_append] at h
    have hne : body ≠ [] := by
      rintro rfl
      have := (quotedText?_spec (hbody [])).2.2.1
      simp at this
    obtain ⟨t', hlen, hy⟩ := exists_of_quote (by simp [hne]) h
    have hread := hbody y
    rw [hy] at hread
    have hread' : quotedText? (t'.flatMap quoteChar ++ ['"']) = _ := quotedText?_quoted t'
    rw [hread] at hread'
    obtain ⟨rfl, -⟩ := Prod.mk.inj (Option.some.inj hread')
    exact Nat.lt_irrefl _ hlen
  | @backtick t ht =>
    have hmem : '\x60' ∈ t.flatMap quoteChar ++ ['"'] := by
      rw [h]
      simp
    have hmem' : '\x60' ∈ t.flatMap quoteChar := by simpa using hmem
    obtain ⟨c, hc, htick⟩ := List.mem_flatMap.1 hmem'
    exact ht (tick_mem_quoteChar htick ▸ hc)

/-! ## Ends of a layout -/

/-- The quoted text that a piece is. -/
def Item.string? : Item → Option (List Char)
  | quoted t | backtick t => some t.toList
  | _ => none

/-- The quoted texts of a layout. -/
def itemStrings (items : List Item) : List (List Char) := items.filterMap Item.string?

/-- A layout from its first quoted text on. -/
def fromString (items : List Item) : List Item := items.dropWhile fun i => i.string?.isNone

/-- A layout starts with its first quoted text no later for a piece that is none. -/
theorem fromString_cons_none {i : Item} {items : List Item} (h : i.string? = none) :
    fromString (i :: items) = fromString items := by
  simp [fromString, h]

/-- A layout that starts with a quoted text is the same from there on. -/
theorem fromString_cons_some {i : Item} {items : List Item} {t : List Char}
    (h : i.string? = some t) : fromString (i :: items) = i :: items := by
  simp [fromString, h]

/-- A piece without quotes, backticks and line breaks, unless it is a quoted text. -/
def Item.Bare : Item → Prop
  | quoted _ => True
  | backtick t => '\x60' ∉ t.toList
  | i => ∀ c ∈ i.text, c ≠ '"' ∧ c ≠ '\x60' ∧ c ≠ '\n'

/-- A piece that is no quoted text has no quotes, backticks and line breaks. -/
theorem Item.Bare.of_string?_eq_none {i : Item} (h : i.Bare) (hs : i.string? = none) :
    ∀ c ∈ i.text, c ≠ '"' ∧ c ≠ '\x60' ∧ c ≠ '\n' := by
  cases i with
  | quoted t => simp [Item.string?] at hs
  | backtick t => simp [Item.string?] at hs
  | _ => exact h

/-- No quoted piece holds its text again after its first character. -/
theorem Item.Bare.not_quotes {i : Item} (h : i.Bare) {t e x y : List Char}
    (ht : i.string? = some t) (hi : i.text.tail = x ++ e ++ y) : ¬ Quotes e t := by
  cases i with
  | quoted w =>
    obtain rfl : w.toList = t := by simpa [Item.string?] using ht
    exact not_quotes_inside hi
  | backtick w =>
    obtain rfl : w.toList = t := by simpa [Item.string?] using ht
    intro hq
    have hlen := hq.length_lt
    have htail := congrArg List.length hi
    simp only [Item.text, List.cons_append, List.tail_cons, List.length_append,
      List.length_singleton] at htail
    omega
  | _ => simp [Item.string?] at ht

/-- Before the first quoted text of a layout there are no quotes, backticks and line breaks. -/
theorem exists_chars_fromString {items : List Item} (hb : ∀ i ∈ items, i.Bare) :
    ∃ front, chars items = front ++ chars (fromString items) ∧
      ∀ c ∈ front, c ≠ '"' ∧ c ≠ '\x60' ∧ c ≠ '\n' := by
  induction items with
  | nil => exact ⟨[], rfl, by simp⟩
  | cons i items ih =>
    rw [List.forall_mem_cons] at hb
    cases hs : i.string? with
    | some t => exact ⟨[], by rw [fromString_cons_some hs]; rfl, by simp⟩
    | none =>
      obtain ⟨front, hfront, hbare⟩ := ih hb.2
      refine ⟨i.text ++ front, ?_, ?_⟩
      · rw [fromString_cons_none hs, chars_cons, hfront, List.append_assoc]
      · intro c hc
        rcases List.mem_append.1 hc with hc | hc
        · exact hb.1.of_string?_eq_none hs c hc
        · exact hbare c hc

/-- A quoted text before a stretch without quotes lies in what stands before the stretch. -/
theorem Quotes.exists_append {e t x y u v : List Char} (h : Quotes e t)
    (hv : ∀ c ∈ v, c ≠ '"' ∧ c ≠ '\x60' ∧ c ≠ '\n') (heq : u ++ v = x ++ e ++ y) :
    ∃ z, u = x ++ e ++ z := by
  obtain ⟨front, q, rfl, hq⟩ := h.exists_concat
  rcases List.append_eq_append_iff.1 heq with ⟨w, hw, rfl⟩ | ⟨z, rfl, -⟩
  · rcases List.eq_nil_or_concat w with rfl | ⟨w', d, rfl⟩
    · exact ⟨[], by simpa using hw.symm⟩
    · have hd : q = d := by
        have hlast := congrArg List.getLast? hw
        simpa [← List.append_assoc] using hlast
      have hbare := hv d (by simp)
      rcases hq with rfl | rfl
      · exact absurd hd.symm hbare.1
      · exact absurd hd.symm hbare.2.1
  · exact ⟨z, rfl⟩

/-- A quoted text is not embedded after its first character, with the quoted texts behind it in an end
that holds those pieces. -/
theorem not_embeds_inside {i : Item} {items : List Item} (hi : i.Bare) (hb : ∀ i ∈ items, i.Bare)
    {t : List Char} (ht : i.string? = some t)
    (hend : ∀ text, Embeds (itemStrings items) text → text <:+ chars (i :: items) →
      (chars (fromString items)).length ≤ text.length)
    {c : Char} {x text : List Char} (hx : c :: x ++ text = chars (i :: items)) :
    ¬ Embeds (t :: itemStrings items) text := by
  obtain ⟨front, hfront, hbare⟩ := exists_chars_fromString hb
  intro h
  generalize htext : text = text' at h
  cases h with
  | @cons t e before after ts hq hafter =>
    subst htext
    have hsuffix : after <:+ chars (i :: items) := ⟨c :: x ++ (before ++ e), by simp [← hx]⟩
    have hsuffix' : chars (fromString items) <:+ chars (i :: items) :=
      ⟨i.text ++ front, by simp [hfront]⟩
    obtain ⟨y, rfl⟩ := List.suffix_of_suffix_length_le hsuffix' hsuffix (hend _ hafter hsuffix)
    have heq : i.text ++ front = (c :: x ++ before) ++ e ++ y := by
      rw [chars_cons, hfront] at hx
      have hcancel : (c :: x ++ before ++ e ++ y) ++ chars (fromString items) =
          (i.text ++ front) ++ chars (fromString items) := by simpa using hx
      exact (List.append_cancel_right hcancel).symm
    obtain ⟨z, hz⟩ := hq.exists_append hbare heq
    exact hi.not_quotes ht (congrArg List.tail hz) hq

/-- An end of a layout that embeds all its quoted texts begins before the first of them. -/
theorem length_le_of_embeds {items : List Item} (hb : ∀ i ∈ items, i.Bare) {text : List Char}
    (h : Embeds (itemStrings items) text) (ht : text <:+ chars items) :
    (chars (fromString items)).length ≤ text.length := by
  induction items generalizing text with
  | nil => simp [fromString]
  | cons i items ih =>
    rw [List.forall_mem_cons] at hb
    -- an end that embeds the quoted texts after the piece begins before them
    have hend : ∀ text, Embeds (itemStrings items) text → text <:+ chars (i :: items) →
        (chars (fromString items)).length ≤ text.length := by
      intro text h ht
      by_cases hlen : text.length ≤ (chars items).length
      · exact ih hb.2 h (List.suffix_of_suffix_length_le ht (List.suffix_append _ _) hlen)
      · obtain ⟨front, hfront, -⟩ := exists_chars_fromString hb.2
        have hle : (chars (fromString items)).length ≤ (chars items).length := by simp [hfront]
        omega
    cases hs : i.string? with
    | none =>
      rw [itemStrings, List.filterMap_cons_none hs] at h
      rw [fromString_cons_none hs]
      exact hend text h ht
    | some t =>
      rw [itemStrings, List.filterMap_cons_some hs] at h
      rw [fromString_cons_some hs]
      obtain ⟨x, hx⟩ := ht
      cases x with
      | nil => simp [← hx]
      | cons c x => exact absurd h (not_embeds_inside hb.1 hb.2 hs hend hx)

end LogSearch.Query
