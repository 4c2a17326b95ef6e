import LogSearch.Proofs.Query.Highlights
import LogSearch.Proofs.Query.Marking
import LogSearch.Query.Completion
import LogSearch.Regex.Program

/-!
# Which segments offer something at a cursor

The markers of a text are those of its segments. Behind the first token of a segment the segments
before it offer nothing more, with one exception: where the aggregations of a stage break off, `by` is
offered up to the end of the text.

* `readings`: the segments of a text with the markers that they leave.
* `Reading.BreaksOff`: the segments that go on offering `by`.
* `Reading.Later`: what a segment offers behind the first token of a later one.
* `MarkersStay`, `MarkersReach`: that segments keep to themselves, and what an editor can rely on.
* `markers_stay_iff`: the segments of a text keep to themselves if and only if none that breaks off has
  a further token behind it.
-/

namespace LogSearch.Query

open LogSearch.Query.Parser

/-! ## What is said of segments -/

/-- A segment, behind its pipe unless it is the head, with the markers that it leaves. -/
structure Reading where
  pipe : Option Token
  tokens : List Token
  markers : List Marker
deriving DecidableEq

namespace Reading

/-- Where the segment starts. -/
def start (r : Reading) : Nat := (r.pipe.map fun t => t.span.stop).getD 0

/-- The segment is a stage whose aggregations break off. -/
def BreaksOff (r : Reading) : Prop := r.pipe.isSome ∧ BreaksOffStage r.tokens

/-- The tokens of the segment with its pipe. -/
def allTokens (r : Reading) : List Token := r.pipe.toList ++ r.tokens

/-- A segment before `s` offers something behind the first token of `s` if and only if it breaks off, and
then nothing but `by`. -/
def Later (r s : Reading) : Prop :=
  ∀ u ∈ s.tokens.head?, ∀ cursor, u.span.stop ≤ cursor →
    ((∃ m ∈ r.markers, m.covers cursor) ↔ r.BreaksOff) ∧
      ∀ m ∈ r.markers, m.covers cursor → m.kind = .keywords ["by"] ∧ m.stop = none

/-- A cursor is behind the first token of the segment and not in those after it. -/
def Typed (r : Reading) (after : List Reading) (cursor : Nat) : Prop :=
  (∃ u ∈ r.tokens.head?, u.span.stop ≤ cursor) ∧ ∀ s ∈ after, cursor < s.start

end Reading

/-- The segments after the head, as they are read. -/
def stageReadings [Regex.Library] (final : Token) : List (Token × List Token) → List Reading
  | [] => []
  | (pipe, tokens) :: rest =>
    ⟨some pipe, tokens, (readStage pipe tokens (segmentEnd final rest)).marks.markers⟩ ::
      stageReadings final rest

/-- The segments of a text, as they are read. -/
def readings [Regex.Library] (text : String) : List Reading :=
  let tokens := (tokenize text).tokens
  let split := splitAtPipes (tokensBeforeEnd tokens)
  let final := finalToken tokens
  ⟨none, split.1, (readHead split.1 (segmentEnd final split.2)).marks.markers⟩ ::
    stageReadings final split.2

/-- Behind the first token of a segment no segment before it offers anything. -/
def MarkersStay [Regex.Library] (text : String) : Prop :=
  (readings text).Pairwise fun r s => ∀ u ∈ s.tokens.head?, ∀ cursor, u.span.stop ≤ cursor →
    ∀ m ∈ r.markers, m.covers cursor = false

/-- What an editor can rely on, whether segments keep to themselves or not. -/
structure MarkersReach [Regex.Library] (text : String) : Prop where
  /-- The segments are those of the text. -/
  tokens : (readings text).flatMap Reading.allTokens = tokensBeforeEnd (tokenize text).tokens
  /-- The markers are those of the segments, in their order. -/
  markers : (parse text).markers = (readings text).flatMap Reading.markers
  /-- A marker that is closed does not end before its start. -/
  closed : ∀ m ∈ (parse text).markers, ∀ stop ∈ m.stop, m.start ≤ stop
  /-- A segment offers nothing before its start. -/
  start : ∀ r ∈ readings text, ∀ m ∈ r.markers, r.start ≤ m.start
  /-- Behind the first token of a later segment it offers nothing but `by`, and that if it breaks off. -/
  later : (readings text).Pairwise Reading.Later
  /-- In a text without problems none breaks off. -/
  valid : (parse text).problems = [] → ∀ r ∈ readings text, ¬ r.BreaksOff
  /-- Where a segment is being typed exactly what it offers is offered, if and only if no segment before
  it breaks off. -/
  typed : ∀ before r after cursor, readings text = before ++ r :: after → r.Typed after cursor →
    (markersAt (parse text).markers cursor = markersAt r.markers cursor ↔ ∀ q ∈ before, ¬ q.BreaksOff)
  /-- Then completion goes by the markers of that segment alone. -/
  completed : ∀ before r after cursor, readings text = before ++ r :: after → r.Typed after cursor →
    (∀ q ∈ before, ¬ q.BreaksOff) → ∀ catalog,
      complete? text (parse text).markers cursor catalog = complete? text r.markers cursor catalog

/-! ## The tokens behind a segment -/

variable {final u : Token} {n : Nat} {ts : List Token} {segments : List (Token × List Token)}

/-- Behind a segment comes the pipe of the next one. -/
theorem segmentEnd_cons (final pipe : Token) (ts : List Token)
    (segments : List (Token × List Token)) : segmentEnd final ((pipe, ts) :: segments) =
      (pipe, (ts ++ joinSegments segments).headD final) := by
  rw [segmentEnd, segmentEnd_eq]
  cases ts <;> rfl

/-- What ends a segment and the token after that come next. -/
theorem segmentEnd_sublist (final : Token) (segments : List (Token × List Token)) :
    [(segmentEnd final segments).1, (segmentEnd final segments).2].Sublist
      (joinSegments segments ++ [final, final]) := by
  cases segments with
  | nil => exact List.Sublist.refl _
  | cons segment segments =>
    obtain ⟨pipe, ts⟩ := segment
    have hjoin : joinSegments ((pipe, ts) :: segments) = pipe :: (ts ++ joinSegments segments) := rfl
    rw [segmentEnd_cons, hjoin, List.cons_append]
    refine List.Sublist.cons_cons pipe (List.singleton_sublist.2 ?_)
    cases ts ++ joinSegments segments <;> simp

/-- A token of a later segment is not before the second token behind the segment. -/
theorem exists_of_mem_segment (final : Token) {segment : Token × List Token} (hs : segment ∈ segments)
    (hu : u ∈ segment.2) : ∃ more, joinSegments segments =
      (segmentEnd final segments).1 :: (segmentEnd final segments).2 :: more ∧
        u ∈ (segmentEnd final segments).2 :: more := by
  cases segments with
  | nil => cases hs
  | cons first segments =>
    obtain ⟨pipe, ts⟩ := first
    have hjoin : joinSegments ((pipe, ts) :: segments) = pipe :: (ts ++ joinSegments segments) := rfl
    have hmem : u ∈ ts ++ joinSegments segments := by
      rcases List.mem_cons.1 hs with rfl | hs
      · exact List.mem_append_left _ hu
      · exact List.mem_append_right _ (List.mem_flatMap.2 ⟨segment, hs, List.mem_cons_of_mem _ hu⟩)
    rw [segmentEnd_cons, hjoin]
    cases hmore : ts ++ joinSegments segments with
    | nil =>
      rw [hmore] at hmem
      cases hmem
    | cons v more => exact ⟨more, rfl, hmore ▸ hmem⟩

/-! ## Segments on their own -/

/-- The cursor at the start of a segment of a text. -/
theorem follows_ofSegment (h : InOrder n (ts ++ joinSegments segments ++ [final, final])) :
    (Cursor.ofSegment n ts (segmentEnd final segments)).Follows
      (Cursor.ofSegment n ts (segmentEnd final segments)) := by
  refine ⟨h.sublist ?_, Nat.le_refl n, rfl, id⟩
  rw [List.append_assoc]
  exact (List.Sublist.refl ts).append (segmentEnd_sublist final segments)

/-- The head of a query leaves no open marker. -/
theorem head_leaves {o c : Cursor} (hat : c.At ts) (hc : c.Follows o) :
    Cursor.Leaves o c False (endOf (head.run c)) := by
  obtain ⟨_, d, _, _, -, hhead, hfilters, hsearch⟩ := head_steps (fun _ => False) hat
  rw [hhead]
  have hleaves := hfilters.leaves hc
  exact (hleaves.trans (hsearch.leaves hleaves.follows)).congr (or_self False).to_iff

/-- The markers of a segment are those left from its start to its end. -/
theorem Cursor.Leaves.left {start : Nat} {ends : Token × Token} {P : Prop} {d : Cursor}
    (h : Cursor.Leaves (.ofSegment start ts ends) (.ofSegment start ts ends) P d) :
    LeftIn (.ofSegment start ts ends) P d.marks.markers := by
  obtain ⟨left, hd, hleft⟩ := h.markers
  exact hd ▸ hleft

section

variable (hf : final.kind = .endOfInput) (hpipes : ∀ s ∈ segments, s.1.kind = .symbol .pipe)
  (h : InOrder n (ts ++ joinSegments segments ++ [final, final]))

include hf hpipes h

/-- The head of a query leaves closed markers inside it. -/
theorem left_readHead (hn : n = 0) : LeftIn (.ofSegment n ts (segmentEnd final segments)) False
    (readHead ts (segmentEnd final segments)).marks.markers := by
  subst hn
  have hleft := (head_leaves (at_ofSegment (segmentEnd_ends hf hpipes)) (follows_ofSegment h)).left
  rw [readHead]
  cases hr : head.run (.ofSegment 0 ts (segmentEnd final segments)) <;> rwa [hr] at hleft

/-- A stage leaves an open marker only where its aggregations break off. -/
theorem left_readStage [Regex.Library] {pipe : Token} (hn : pipe.span.stop = n) :
    LeftIn (.ofSegment n ts (segmentEnd final segments)) (BreaksOffStage ts)
      (readStage pipe ts (segmentEnd final segments)).marks.markers := by
  subst hn
  have hleft := (stage_leaves (at_ofSegment (segmentEnd_ends hf hpipes)) (follows_ofSegment h)).left
  rw [readStage]
  cases hr : stage.run (.ofSegment pipe.span.stop ts (segmentEnd final segments)) <;>
    rwa [hr] at hleft

end

/-- Behind its segment a marker covers a cursor exactly if it is open. -/
theorem Marker.Within.covers_iff {m : Marker} {o : Cursor} {cursor : Nat} (h : m.Within o)
    (hcursor : o.beyond.span.start ≤ cursor) : m.covers cursor = true ↔ m.IsOpen := by
  have hstart : m.start ≤ cursor := Nat.le_trans h.start_le hcursor
  cases hstop : m.stop with
  | none => simp [covers, IsOpen, hstop, hstart]
  | some n =>
    have hn : n ≤ cursor := Nat.le_trans (h.stop n hstop).2 hcursor
    simp [covers, IsOpen, hstop, hn]

/-- The stages are read from their segments. -/
theorem mem_stageReadings [Regex.Library] {s : Reading} (h : s ∈ stageReadings final segments) :
    ∃ segment ∈ segments, s.pipe = some segment.1 ∧ s.tokens = segment.2 := by
  induction segments with
  | nil => cases h
  | cons segment segments ih =>
    rcases List.mem_cons.1 h with rfl | h
    · exact ⟨segment, List.mem_cons_self, rfl, rfl⟩
    · obtain ⟨segment', hmem, heq⟩ := ih h
      exact ⟨segment', List.mem_cons_of_mem _ hmem, heq⟩

/-- The markers that a segment leaves say what it offers behind the first token of a later one. -/
theorem later_of_left [Regex.Library] {r : Reading} {P : Prop}
    (hkinds : ∀ t ∈ r.tokens ++ joinSegments segments, t.kind ≠ .endOfInput)
    (h : InOrder r.start (r.tokens ++ joinSegments segments ++ [final, final]))
    (hleft : LeftIn (.ofSegment r.start r.tokens (segmentEnd final segments)) P r.markers)
    (hbreaks : P ↔ r.BreaksOff) : ∀ s ∈ stageReadings final segments, r.Later s := by
  intro s hs u hu cursor hcursor
  obtain ⟨segment, hmem, -, htokens⟩ := mem_stageReadings hs
  obtain ⟨more, hjoin, hu⟩ := exists_of_mem_segment final hmem
    (htokens ▸ List.mem_of_mem_head? hu)
  rw [hjoin] at h hkinds
  have hin : (Cursor.ofSegment r.start r.tokens (segmentEnd final segments)).Inside := fun t ht =>
    hkinds t (((List.Sublist.refl r.tokens).append (List.sublist_append_left [_, _] more)).subset ht)
  have hbehind : InOrder r.start ((segmentEnd final segments).2 :: more) :=
    h.sublist <| (List.sublist_cons_self _ _).trans <|
      (List.sublist_append_right r.tokens _).trans (List.sublist_append_left _ _)
  have hbeyond : (segmentEnd final segments).2.span.start ≤ cursor :=
    Nat.le_trans (hbehind.start_le hu) (Nat.le_trans (hbehind.spans u hu) hcursor)
  have hcovers : ∀ m ∈ r.markers, (m.covers cursor = true ↔ m.IsOpen) := fun m hm =>
    (hleft.within m hm).covers_iff hbeyond
  rw [← hbreaks]
  refine ⟨⟨?_, fun hp => ?_⟩, fun m hm hc => ?_⟩
  · rintro ⟨m, hm, hc⟩
    exact (hleft.closed hin m hm ((hcovers m hm).1 hc)).1
  · obtain ⟨m, hm, hopen⟩ := hleft.stays hp
    exact ⟨m, hm, (hcovers m hm).2 hopen⟩
  · have hopen := (hcovers m hm).1 hc
    exact ⟨(hleft.closed hin m hm hopen).2, hopen.2⟩

/-! ## Segments of a text -/

/-- What a segment's markers are known to be, on its own. -/
structure Reading.Local (r : Reading) : Prop where
  start : ∀ m ∈ r.markers, r.start ≤ m.start
  closed : ∀ m ∈ r.markers, ∀ stop ∈ m.stop, m.start ≤ stop

/-- What a segment leaves is known of its markers. -/
theorem local_of_left {r : Reading} {ends : Token × Token} {P : Prop}
    (h : LeftIn (.ofSegment r.start r.tokens ends) P r.markers) : r.Local where
  start m hm := (h.within m hm).start_ge
  closed m hm stop hstop := ((h.within m hm).stop stop hstop).1

/-- No stage offers anything behind the start of a later one, unless it breaks off. -/
theorem stageReadings_later [Regex.Library] (hf : final.kind = .endOfInput)
    (hpipes : ∀ s ∈ segments, s.1.kind = .symbol .pipe)
    (hkinds : ∀ t ∈ joinSegments segments, t.kind ≠ .endOfInput)
    (h : InOrder n (joinSegments segments ++ [final, final])) :
    (∀ r ∈ stageReadings final segments, r.Local) ∧
      (stageReadings final segments).Pairwise Reading.Later := by
  induction segments generalizing n with
  | nil => exact ⟨nofun, .nil⟩
  | cons segment segments ih =>
    obtain ⟨pipe, ts⟩ := segment
    obtain ⟨-, hpipes⟩ := List.forall_mem_cons.1 hpipes
    have hjoin : joinSegments ((pipe, ts) :: segments) = pipe :: (ts ++ joinSegments segments) := rfl
    rw [hjoin, List.cons_append] at h
    rw [hjoin] at hkinds
    obtain ⟨-, hkinds⟩ := List.forall_mem_cons.1 hkinds
    have hrest : (joinSegments segments ++ [final, final]).Sublist
        (ts ++ joinSegments segments ++ [final, final]) := by
      rw [List.append_assoc]
      exact List.sublist_append_right _ _
    have hleft := left_readStage hf hpipes h.tail rfl
    obtain ⟨hlocal, hlater⟩ := ih hpipes (fun t ht => hkinds t (List.mem_append_right _ ht))
      (h.tail.sublist hrest)
    rw [stageReadings]
    exact ⟨List.forall_mem_cons.2 ⟨local_of_left hleft, hlocal⟩,
      List.pairwise_cons.2 ⟨later_of_left hkinds h.tail hleft (and_iff_right rfl).symm, hlater⟩⟩

/-- The tokens of the stages are those of the segments. -/
theorem tokens_stageReadings [Regex.Library] (final : Token)
    (segments : List (Token × List Token)) :
    (stageReadings final segments).flatMap Reading.allTokens = joinSegments segments := by
  induction segments with
  | nil => rfl
  | cons segment segments ih =>
    rw [stageReadings, List.flatMap_cons, ih]
    rfl

/-- The markers of joined marks are those of each. -/
theorem markers_foldl [Regex.Library] (segments : List (Token × List Token)) (m : Marks) :
    ((readStages final segments).foldl (fun marks r => marks ++ r.marks) m).markers =
      m.markers ++ (stageReadings final segments).flatMap Reading.markers := by
  induction segments generalizing m with
  | nil => exact (List.append_nil _).symm
  | cons segment segments ih =>
    rw [readStages, List.foldl_cons, ih, stageReadings, List.flatMap_cons, ← List.append_assoc]
    rfl

/-! ## Texts -/

/-- The last token of a text is its end. -/
theorem finalToken_tokenize (text : String) : finalToken (tokenize text).tokens =
    ⟨.endOfInput, ⟨text.utf8ByteSize, text.utf8ByteSize⟩, ""⟩ := by
  have hnone : (tokensBeforeEnd (tokenize text).tokens).find? (fun t => t.kind = .endOfInput) =
      none := List.find?_eq_none.2 fun t ht => by simpa using tokensBeforeEnd_kind _ t ht
  rw [tokenize_tokens, finalToken, List.find?_append, hnone]
  rfl

/-- The tokens of a text with its end twice, as far as readers look ahead. -/
theorem inOrder_tokenize (text : String) :
    InOrder 0 (tokensBeforeEnd (tokenize text).tokens ++
      [finalToken (tokenize text).tokens, finalToken (tokenize text).tokens]) := by
  have hpairwise := pairwise_tokens_tokenize text
  have htake := takeBytes_tokenize text
  rw [tokenize_tokens, List.pairwise_append] at hpairwise
  obtain ⟨hbody, -, hend⟩ := hpairwise
  rw [finalToken_tokenize]
  constructor
  · exact fun t _ => Nat.zero_le t.span.start
  · refine List.forall_mem_append.2 ⟨fun t ht => Nat.le_of_lt (htake t ht), ?_⟩
    simp
  · refine List.pairwise_append.2 ⟨hbody.imp fun h => h.stop_le, by simp, fun t ht u hu => ?_⟩
    have hu : u = ⟨.endOfInput, ⟨text.utf8ByteSize, text.utf8ByteSize⟩, ""⟩ := by simpa using hu
    exact hu ▸ (hend t ht _ (List.mem_singleton_self _)).stop_le

/-- No segment offers anything behind the start of a later one, unless it breaks off. -/
theorem readings_later [Regex.Library] (text : String) :
    (∀ r ∈ readings text, r.Local) ∧ (readings text).Pairwise Reading.Later := by
  have hin := inOrder_tokenize text
  have hkinds := tokensBeforeEnd_kind (tokenize text).tokens
  have hfinal : (finalToken (tokenize text).tokens).kind = .endOfInput := finalToken_kind _
  obtain ⟨hjoin, hpipes⟩ := splitAtPipes_join (tokensBeforeEnd (tokenize text).tokens)
  rw [readings]
  generalize splitAtPipes (tokensBeforeEnd (tokenize text).tokens) = split at hjoin hpipes ⊢
  rw [← hjoin] at hin hkinds
  have hleft := left_readHead hfinal hpipes hin rfl
  have hrest : (joinSegments split.2).Sublist (split.1 ++ joinSegments split.2) :=
    List.sublist_append_right _ _
  obtain ⟨hlocal, hlater⟩ := stageReadings_later hfinal hpipes
    (fun t ht => hkinds t (hrest.subset ht)) (hin.sublist (hrest.append (List.Sublist.refl _)))
  exact ⟨List.forall_mem_cons.2 ⟨local_of_left hleft, hlocal⟩,
    List.pairwise_cons.2 ⟨later_of_left hkinds hin hleft (by simp [Reading.BreaksOff]), hlater⟩⟩

/-- The tokens of the segments are those of the text. -/
theorem tokens_readings [Regex.Library] (text : String) :
    (readings text).flatMap Reading.allTokens = tokensBeforeEnd (tokenize text).tokens := by
  rw [readings, List.flatMap_cons, tokens_stageReadings]
  exact (splitAtPipes_join _).1

/-- The markers of a text are those of its segments. -/
theorem markers_parse [Regex.Library] (text : String) :
    (parse text).markers = (readings text).flatMap Reading.markers := markers_foldl _ _

/-- Nothing is offered where no marker covers the cursor. -/
theorem markersAt_eq_nil {markers : List Marker} {cursor : Nat} :
    markersAt markers cursor = [] ↔ ∀ m ∈ markers, ¬ m.covers cursor := List.filter_eq_nil_iff

/-- What segments offer together is what each of them does. -/
theorem markersAt_flatMap {rs : List Reading} {cursor : Nat} :
    markersAt (rs.flatMap Reading.markers) cursor = rs.flatMap fun r => markersAt r.markers cursor :=
  List.filter_flatMap

/-- Stages that are read to the end do not break off. -/
theorem whole_stageReadings [Regex.Library] {stages : List Stage}
    (h : List.Forall₂ IsStage segments stages) :
    ∀ r ∈ stageReadings final segments, ¬ r.BreaksOff := by
  induction h with
  | nil => exact nofun
  | cons hs _ ih =>
    exact List.forall_mem_cons.2 ⟨fun hbreaks => hs.2.not_breaksOff hbreaks.2, ih⟩

/-- In a text without problems no segment breaks off. -/
theorem whole_readings [Regex.Library] {text : String} (h : (parse text).problems = []) :
    ∀ r ∈ readings text, ¬ r.BreaksOff := by
  have hfinal : (finalToken (tokenize text).tokens).kind = .endOfInput := finalToken_kind _
  have hpipes := (splitAtPipes_join (tokensBeforeEnd (tokenize text).tokens)).2
  have hproblems := (parse_problems_eq_nil.1 h).2
  rw [problems_parseTokens] at hproblems
  have hstages := (List.append_eq_nil_iff.1 hproblems).2
  exact List.forall_mem_cons.2 ⟨fun hbreaks => by simp [Reading.BreaksOff] at hbreaks,
    whole_stageReadings ((readStages_iff hfinal hpipes).1 ⟨hstages, rfl⟩)⟩

/-- Of the segments around one, only those before it that break off offer something in it. -/
theorem markersAt_typed {before after : List Reading} {r : Reading} {cursor : Nat}
    (hlater : ∀ q ∈ before, q.Later r) (hlocal : ∀ s ∈ after, s.Local) (h : r.Typed after cursor) :
    markersAt ((before ++ r :: after).flatMap Reading.markers) cursor = markersAt r.markers cursor ↔
      ∀ q ∈ before, ¬ q.BreaksOff := by
  obtain ⟨⟨u, hu, hstop⟩, hstart⟩ := h
  have hafter : (after.flatMap fun s => markersAt s.markers cursor) = [] := by
    refine List.flatMap_eq_nil_iff.2 fun s hs => markersAt_eq_nil.2 fun m hm hc => ?_
    have hle := (hlocal s hs).start m hm
    have hlt := hstart s hs
    simp only [Marker.covers, Bool.and_eq_true, decide_eq_true_eq] at hc
    omega
  rw [markersAt_flatMap, List.flatMap_append, List.flatMap_cons, hafter, List.append_nil,
    List.append_left_eq_self, List.flatMap_eq_nil_iff]
  refine forall₂_congr fun q hq => ?_
  rw [markersAt_eq_nil, ← ((hlater q hq) u hu cursor hstop).1]
  simp

/-- The markers at a cursor are those of its segment exactly if no segment before it breaks off. -/
theorem markersAt_parse [Regex.Library] {text : String} {before after : List Reading} {r : Reading}
    {cursor : Nat} (h : readings text = before ++ r :: after) (ht : r.Typed after cursor) :
    markersAt (parse text).markers cursor = markersAt r.markers cursor ↔
      ∀ q ∈ before, ¬ q.BreaksOff := by
  obtain ⟨hlocal, hlater⟩ := readings_later text
  rw [h] at hlocal hlater
  rw [markers_parse, h]
  exact markersAt_typed (fun q hq => (List.pairwise_append.1 hlater).2.2 q hq r List.mem_cons_self)
    (fun s hs => hlocal s (by simp [hs])) ht

/-- The markers of a text reach as far as an editor can rely on. -/
theorem markers_reach [Regex.Library] (text : String) : MarkersReach text where
  tokens := tokens_readings text
  markers := markers_parse text
  closed m hm := by
    rw [markers_parse, List.mem_flatMap] at hm
    obtain ⟨r, hr, hm⟩ := hm
    exact ((readings_later text).1 r hr).closed m hm
  start r hr := ((readings_later text).1 r hr).start
  later := (readings_later text).2
  valid := whole_readings
  typed before r after cursor h ht := markersAt_parse h ht
  completed before r after cursor h ht hnot catalog := by
    rw [complete?, complete?, (markersAt_parse h ht).2 hnot]

/-- A segment keeps to itself in front of another if it does not break off or the other is empty. -/
theorem Reading.Later.stays_iff {r s : Reading} (h : r.Later s) :
    (∀ u ∈ s.tokens.head?, ∀ cursor, u.span.stop ≤ cursor → ∀ m ∈ r.markers,
      m.covers cursor = false) ↔ (r.BreaksOff → s.tokens = []) := by
  constructor
  · intro hstays hbreaks
    cases hs : s.tokens with
    | nil => rfl
    | cons u us =>
      have hu : u ∈ s.tokens.head? := by simp [hs]
      obtain ⟨m, hm, hc⟩ := (h u hu u.span.stop (Nat.le_refl _)).1.2 hbreaks
      rw [hstays u hu u.span.stop (Nat.le_refl _) m hm] at hc
      cases hc
  · intro hempty u hu cursor hstop m hm
    rw [Bool.eq_false_iff]
    intro hc
    rw [hempty ((h u hu cursor hstop).1.1 ⟨m, hm, hc⟩)] at hu
    cases hu

/-- A marker starts in its segment and, if it is closed, does not end before its start. The segments keep
to themselves if and only if none that breaks off has a further token behind it: what strays is `by`,
offered behind whole aggregations and a comma where no aggregation can be read. -/
theorem markers_stay_iff [Regex.Library] (text : String) : MarkersReach text ∧
    (MarkersStay text ↔ (readings text).Pairwise fun r s => r.BreaksOff → s.tokens = []) := by
  obtain ⟨-, hlater⟩ := readings_later text
  refine ⟨markers_reach text, fun h => ?_, fun h => ?_⟩
  · exact (hlater.and h).imp fun ⟨hrs, hstays⟩ => hrs.stays_iff.1 hstays
  · exact (hlater.and h).imp fun ⟨hrs, hempty⟩ => hrs.stays_iff.2 hempty

attribute [local instance] Regex.standard

/-- A text without problems. -/
theorem read_stats_keep_to_themselves : MarkersStay "| stats count() | sort a" := by
  obtain ⟨hreach, hstay⟩ := markers_stay_iff "| stats count() | sort a"
  have hnot := hreach.valid (List.isEmpty_iff.1 (by decide +kernel))
  exact hstay.2 (List.pairwise_of_forall_mem_list fun r hr _ _ hbreaks => absurd hbreaks (hnot r hr))

/-- Behind `sort` the stage before it still offers `by`, since its comma calls for an aggregation. -/
theorem broken_stats_stray : ¬ MarkersStay "| stats count(), | sort " ∧
    markersAt (parse "| stats count(), | sort ").markers 24 =
      [⟨.keywords ["by"], 15, none, false⟩, ⟨.columns, 23, none, false⟩] := by
  refine ⟨fun h => ?_, by decide +kernel⟩
  have hpair := List.pairwise_iff_getElem.1 h 1 2 (by decide +kernel) (by decide +kernel) (by decide)
  have hclosed := hpair ⟨.command .sort, ⟨19, 23⟩, "sort"⟩ (by decide +kernel) 24 (by decide)
    ⟨.keywords ["by"], 15, none, false⟩ (by decide +kernel)
  cases hclosed

end LogSearch.Query
