import LogSearch.Cache.Identity
import LogSearch.Proofs.Json.Compact

/-!
# Keys are addresses of contents

What decides about the result of a fetch is written as JSON, encoded in UTF-8 and hashed. Every one
of these steps but the hash can be undone, so that two identities share a key only where the hash of
their texts collides.

* `CacheIdentity.toJson_inj`, `CacheIdentity.canonicalText_inj`: an identity is known from its text.
* `Text.encode_inj`: a text is known from its bytes.
* `Sha256.hexText_eq_iff`: a hash is known from its digits.
* `CacheIdentity.content_addressed`: equal texts, and equal keys, for equal identities only.
-/

namespace LogSearch

/-! ## Identities as JSON -/

/-- A filter is known from its JSON value. -/
theorem PreFilter.toJson_inj {f g : PreFilter} (h : f.toJson = g.toJson) : f = g := by
  obtain ⟨key, op, value⟩ := f
  obtain ⟨key', op', value'⟩ := g
  simp only [toJson, Json.object.injEq, List.cons.injEq, Prod.mk.injEq, Json.string.injEq, true_and,
    and_true] at h
  obtain ⟨rfl, hop, rfl⟩ := h
  cases op <;> cases op' <;> first | rfl | exact absurd hop (by decide)

/-- The JSON value of a filter has no doubles. -/
theorem PreFilter.exact_toJson (f : PreFilter) : f.toJson.Exact := by
  refine .object fun member hmember => ?_
  simp only [List.mem_cons, List.not_mem_nil, or_false] at hmember
  rcases hmember with rfl | rfl | rfl <;> exact .string _

/-- A search literal is known from its JSON value. -/
theorem SearchLiteral.toJson_inj {l m : SearchLiteral} (h : l.toJson = m.toJson) : l = m := by
  cases l <;> cases m <;> simp_all [toJson]

/-- The JSON value of a search literal has no doubles. -/
theorem SearchLiteral.exact_toJson (l : SearchLiteral) : l.toJson.Exact := by
  cases l with
  | term s =>
    refine .object fun member hmember => ?_
    rw [List.mem_singleton.1 hmember]
    exact .string s
  | phrase s =>
    refine .object fun member hmember => ?_
    rw [List.mem_singleton.1 hmember]
    exact .string s

/-- A search is known from its JSON value, with the order of its literals. -/
theorem Search.toJson_inj {s t : Search} (h : s.toJson = t.toJson) : s = t := by
  induction s generalizing t with
  | literal l =>
    cases t with
    | literal m =>
      simp only [toJson, Json.object.injEq, List.cons.injEq, Prod.mk.injEq, true_and, and_true] at h
      rw [SearchLiteral.toJson_inj h]
    | and | or => simp [toJson] at h
  | and l r ihl ihr =>
    cases t with
    | and l' r' =>
      simp only [toJson, Json.object.injEq, Json.array.injEq, List.cons.injEq, Prod.mk.injEq, true_and,
        and_true] at h
      rw [ihl h.1, ihr h.2]
    | literal | or => simp [toJson] at h
  | or l r ihl ihr =>
    cases t with
    | or l' r' =>
      simp only [toJson, Json.object.injEq, Json.array.injEq, List.cons.injEq, Prod.mk.injEq, true_and,
        and_true] at h
      rw [ihl h.1, ihr h.2]
    | literal | and => simp [toJson] at h

/-- The JSON value of a search has no doubles. -/
theorem Search.exact_toJson (s : Search) : s.toJson.Exact := by
  have hpair : ∀ (name : String) (l r : Json), l.Exact → r.Exact →
      (Json.object [(name, .array [l, r])]).Exact := by
    intro name l r hl hr
    refine .object fun member hmember => ?_
    rw [List.mem_singleton.1 hmember]
    refine .array fun item hitem => ?_
    simp only [List.mem_cons, List.not_mem_nil, or_false] at hitem
    rcases hitem with rfl | rfl
    · exact hl
    · exact hr
  induction s with
  | literal l =>
    refine .object fun member hmember => ?_
    rw [List.mem_singleton.1 hmember]
    exact l.exact_toJson
  | and l r ihl ihr => exact hpair _ _ _ ihl ihr
  | or l r ihl ihr => exact hpair _ _ _ ihl ihr

/-- A search is no null, so that a search that is there is told from none. -/
theorem Search.ofOption_toJson_inj {s t : Option Search}
    (h : Json.ofOption toJson s = Json.ofOption toJson t) : s = t := by
  have hnull : ∀ s : Search, s.toJson ≠ .null := by
    intro s hs
    cases s <;> cases hs
  cases s with
  | none =>
    cases t with
    | none => rfl
    | some t => exact absurd h.symm (hnull t)
  | some s =>
    cases t with
    | none => exact absurd h (hnull s)
    | some t => rw [toJson_inj h]

namespace CacheIdentity

/-- An identity is known from its JSON value. -/
theorem toJson_inj {i j : CacheIdentity} (h : i.toJson = j.toJson) : i = j := by
  obtain ⟨⟨filters, search⟩, ⟨start, stop⟩, source⟩ := i
  obtain ⟨⟨filters', search'⟩, ⟨start', stop'⟩, source'⟩ := j
  simp only [toJson, Json.ofList, Json.object.injEq, List.cons.injEq, Prod.mk.injEq, Json.array.injEq,
    Json.integer.injEq, Json.string.injEq, true_and, and_true] at h
  obtain ⟨hfilters, hsearch, rfl, rfl, rfl⟩ := h
  rw [(List.map_inj_right fun _ _ => PreFilter.toJson_inj).1 hfilters,
    Search.ofOption_toJson_inj hsearch]

/-- The JSON value of an identity has no doubles. -/
theorem exact_toJson (i : CacheIdentity) : i.toJson.Exact := by
  refine .object fun member hmember => ?_
  simp only [List.mem_cons, List.not_mem_nil, or_false] at hmember
  rcases hmember with rfl | rfl | rfl | rfl | rfl
  · refine .array fun item hitem => ?_
    obtain ⟨f, -, rfl⟩ := List.mem_map.1 hitem
    exact f.exact_toJson
  · cases i.selection.search with
    | none => exact .null
    | some s => exact s.exact_toJson
  · exact .integer _
  · exact .integer _
  · exact .string _

/-- An identity is known from its text. -/
theorem canonicalText_inj {i j : CacheIdentity} (h : i.canonicalText = j.canonicalText) : i = j :=
  toJson_inj (i.exact_toJson.compact_inj j.exact_toJson h)

end CacheIdentity

/-! ## Bytes and digits -/

/-- A text is known from its bytes. -/
theorem Text.encode_inj {cs ds : List Char} (h : Text.encode cs = Text.encode ds) : cs = ds := by
  have hbytes : cs.utf8Encode = ds.utf8Encode := congrArg List.toByteArray h
  have hdecode := List.utf8Decode?_utf8Encode (l := cs)
  rw [hbytes, List.utf8Decode?_utf8Encode] at hdecode
  exact (List.toArray_inj (Option.some.inj hdecode)).symm

namespace Sha256

/-- A hexadecimal digit is known from its character. -/
theorem digitChar_inj {m n : Nat} (hm : m < 16) (hn : n < 16) (h : m.digitChar = n.digitChar) :
    m = n := by
  have hall : ∀ m < 16, ∀ n < 16, m.digitChar = n.digitChar → m = n := by decide
  exact hall m hm n hn h

/-- A word takes eight hexadecimal digits. -/
theorem length_hexWord (w : UInt32) : (hexWord w).toList.length = 8 := by
  simp [hexWord]

/-- A word is known from its digits. -/
theorem hexWord_inj {v w : UInt32} (h : hexWord v = hexWord w) : v = w := by
  have hdigits : ∀ i < 8, v.toNat / Nat.pow 16 i % 16 = w.toNat / Nat.pow 16 i % 16 := by
    intro i hi
    have hchars := List.map_inj_left.1 (String.ofList_inj.1 h) i
      (List.mem_reverse.2 (List.mem_range.2 hi))
    exact digitChar_inj (Nat.mod_lt _ (by decide)) (Nat.mod_lt _ (by decide)) hchars
  have hv : v.toNat < 4294967296 := v.toNat_lt
  have hw : w.toNat < 4294967296 := w.toNat_lt
  have h0 := hdigits 0 (by decide)
  have h1 := hdigits 1 (by decide)
  have h2 := hdigits 2 (by decide)
  have h3 := hdigits 3 (by decide)
  have h4 := hdigits 4 (by decide)
  have h5 := hdigits 5 (by decide)
  have h6 := hdigits 6 (by decide)
  have h7 := hdigits 7 (by decide)
  refine UInt32.toNat_inj.1 ?_
  simp only [Nat.pow_eq, Nat.reducePow] at h0 h1 h2 h3 h4 h5 h6 h7
  omega

/-- Words are known from their digits one behind the other. -/
theorem join_hexWord_inj {vs ws : List UInt32}
    (h : String.join (vs.map hexWord) = String.join (ws.map hexWord)) : vs = ws := by
  have hsome : ∀ (w : UInt32) (ws : List UInt32),
      String.join ((w :: ws).map hexWord) ≠ String.join ([].map hexWord) := by
    intro w ws heq
    have hlength := congrArg (fun s => s.toList.length) heq
    simp only [List.map_cons, String.join_cons, String.toList_append, List.length_append,
      length_hexWord] at hlength
    exact absurd hlength (by simp)
  induction vs generalizing ws with
  | nil =>
    cases ws with
    | nil => rfl
    | cons w ws => exact absurd h.symm (hsome w ws)
  | cons v vs ih =>
    cases ws with
    | nil => exact absurd h (hsome v vs)
    | cons w ws =>
      rw [List.map_cons, List.map_cons, String.join_cons, String.join_cons, ← String.toList_inj,
        String.toList_append, String.toList_append] at h
      obtain ⟨hfirst, hrest⟩ := List.append_inj h (by rw [length_hexWord, length_hexWord])
      rw [hexWord_inj (String.toList_inj.1 hfirst), ih (String.toList_inj.1 hrest)]

/-- A hash is known from its digits. -/
theorem hexText_eq_iff (bytes more : List UInt8) :
    hexText bytes = hexText more ↔ hash bytes = hash more := by
  refine ⟨fun h => ?_, fun h => by unfold hexText; rw [h]⟩
  have hwords := join_hexWord_inj h
  simp only [List.cons.injEq, and_true] at hwords
  obtain ⟨ha, hb, hc, hd, he, hf, hg, hh⟩ := hwords
  cases hs : hash bytes
  cases ht : hash more
  simp_all only

end Sha256

/-! ## Keys -/

/-- Identities have the same text exactly if they are the same; and where the hash of their texts does
not collide, they have the same key exactly if they are the same. -/
theorem CacheIdentity.content_addressed (i j : CacheIdentity) :
    (i.canonicalText = j.canonicalText ↔ i = j) ∧
    ((Sha256.hash (Text.encode i.canonicalText.toList) =
        Sha256.hash (Text.encode j.canonicalText.toList) →
      Text.encode i.canonicalText.toList = Text.encode j.canonicalText.toList) →
      (i.key = j.key ↔ i = j)) := by
  refine ⟨⟨canonicalText_inj, fun h => by rw [h]⟩, fun hcollision => ⟨fun hkey => ?_, fun h => by rw [h]⟩⟩
  have hbytes := hcollision ((Sha256.hexText_eq_iff _ _).1 hkey)
  exact canonicalText_inj (String.toList_inj.1 (Text.encode_inj hbytes))

end LogSearch
