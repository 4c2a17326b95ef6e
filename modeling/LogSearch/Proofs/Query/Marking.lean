import LogSearch.Proofs.Query.Walks

/-!
# What a segment offers

The markers that are left while a segment is read lie between its start and the second token behind
it, and where a further token follows they are closed there. There is one exception: the marker for
`by`, which is offered after the first aggregation, is closed only behind the last one. Where a later
aggregation cannot be read it stays open.

* `InOrder`, `Cursor.Follows`: what is ahead of a cursor, as each step keeps it.
* `LeftIn`: what holds of the markers that a segment leaves, and `Steps.leaves`: how steps keep it.
* `BreaksOff`: aggregations that can be read and then one that cannot.
* `aggregations_leaves`, `stage_leaves`: a stage leaves its markers in its segment unless its
  aggregations break off.
-/

namespace LogSearch.Query

open LogSearch.Query.Parser TokenKind

variable {α : Type} {shown : TokenKind → Bool} {may : MarkerChange → Prop} {n : Nat} {t : Token}
  {ts us : List Token}

/-! ## What is ahead -/

/-- Tokens one after the other, from a place on. -/
structure InOrder (start : Nat) (ts : List Token) : Prop where
  behind : ∀ t ∈ ts, start ≤ t.span.start
  spans : ∀ t ∈ ts, t.span.start ≤ t.span.stop
  order : ts.Pairwise fun t u => t.span.stop ≤ u.span.start

namespace InOrder

/-- Behind the first token the others are in order. -/
theorem tail (h : InOrder n (t :: ts)) : InOrder t.span.stop ts where
  behind := (List.pairwise_cons.1 h.order).1
  spans u hu := h.spans u (List.mem_cons_of_mem t hu)
  order := (List.pairwise_cons.1 h.order).2

/-- Some of the tokens are in order if all are. -/
theorem sublist (h : InOrder n ts) (hus : us.Sublist ts) : InOrder n us where
  behind u hu := h.behind u (hus.subset hu)
  spans u hu := h.spans u (hus.subset hu)
  order := h.order.sublist hus

/-- Tokens in order end behind the place that they start from. -/
theorem stop_ge (h : InOrder n (t :: ts)) : n ≤ t.span.stop :=
  Nat.le_trans (h.behind t List.mem_cons_self) (h.spans t List.mem_cons_self)

/-- What is behind a token does not start before it. -/
theorem start_le (h : InOrder n (t :: ts)) {u : Token} (hu : u ∈ t :: ts) :
    t.span.start ≤ u.span.start := by
  rcases List.mem_cons.1 hu with rfl | hu
  · exact Nat.le_refl _
  · exact Nat.le_trans (h.spans t List.mem_cons_self) (h.tail.behind u hu)

end InOrder

namespace Cursor

variable {o b c d : Cursor}

/-- The tokens ahead of a cursor with the two behind its segment. -/
def ahead (c : Cursor) : List Token := c.rest ++ [c.stop, c.beyond]

/-- Two further tokens come behind the segment, neither of them the end of input. -/
def Inside (c : Cursor) : Prop := ∀ t ∈ c.ahead, t.kind ≠ .endOfInput

/-- The tokens ahead are the next one, the one after it and others. -/
theorem ahead_eq (c : Cursor) :
    ∃ more, c.ahead = c.next :: second c :: more ∧ c.beyond ∈ second c :: more := by
  obtain ⟨rest, stop, beyond, lastStop, marks⟩ := c
  rcases rest with _ | ⟨t, _ | ⟨u, rest⟩⟩
  · exact ⟨[], rfl, List.mem_cons_self⟩
  · exact ⟨[beyond], rfl, by simp⟩
  · exact ⟨rest ++ [stop, beyond], rfl, by simp⟩

/-- A cursor in the segment of `o`, not before `o`. -/
structure Follows (c o : Cursor) : Prop where
  ordered : InOrder c.lastStop c.ahead
  lastStop_le : o.lastStop ≤ c.lastStop
  beyond_eq : c.beyond = o.beyond
  inside : o.Inside → c.Inside

namespace Follows

/-- The last token taken ends before what comes behind the segment. -/
theorem lastStop_le_beyond (h : c.Follows o) : c.lastStop ≤ o.beyond.span.start := by
  rw [← h.beyond_eq]
  exact h.ordered.behind _ (by simp [ahead])

/-- A cursor in its segment is not before itself. -/
theorem refl (h : c.Follows o) : c.Follows c := ⟨h.ordered, Nat.le_refl _, rfl, id⟩

/-- Marks do not move a cursor. -/
theorem marked (h : c.Follows o) (marks : Marks) : (c.marked marks).Follows o :=
  ⟨h.ordered, h.lastStop_le, h.beyond_eq, h.inside⟩

/-- A cursor that goes on stays in its segment. -/
theorem advanced (h : c.Follows o) (hrest : c.rest = t :: ts) : c.advanced.Follows o := by
  have hd : c.advanced = { c with rest := ts, lastStop := t.span.stop } := by
    rw [Cursor.advanced, hrest]
  have hahead : c.ahead = t :: c.advanced.ahead := by rw [hd, ahead, hrest, ahead, List.cons_append]
  have hordered := h.ordered
  rw [hahead] at hordered
  refine ⟨?_, ?_, ?_, fun hin u hu => h.inside hin u (hahead ▸ List.mem_cons_of_mem t hu)⟩
  · rw [hd] at hordered ⊢
    exact hordered.tail
  · rw [hd]
    exact Nat.le_trans h.lastStop_le hordered.stop_ge
  · rw [hd]
    exact h.beyond_eq

/-- A step stays in its segment. -/
theorem step (h : c.Follows o) (hstep : c.Step shown may d) : d.Follows o := by
  cases hstep with
  | pass hrest => exact h.advanced hrest
  | take kind hrest => exact (h.advanced hrest).marked _
  | suggest => exact (h.marked _).marked _
  | @change change => cases change <;> exact h.marked _

/-- A marker for the next token ends behind the last token, and not behind the start of the second
token after the segment. -/
theorem markerEnd_le (h : c.Follows o) (hn : markerEnd c = some n) :
    c.lastStop ≤ n ∧ n ≤ o.beyond.span.start := by
  obtain ⟨more, hahead, hbeyond⟩ := c.ahead_eq
  have hordered := h.ordered
  rw [hahead] at hordered
  have hn : n = (second c).span.start := by
    rw [markerEnd] at hn
    split_ifs at hn
    exact (Option.some.inj hn).symm
  subst hn
  exact ⟨hordered.behind _ (by simp), h.beyond_eq ▸ hordered.tail.start_le hbeyond⟩

/-- Where further tokens come behind the segment, every marker has an end. -/
theorem markerEnd_ne_none (h : c.Follows o) (hin : o.Inside) : markerEnd c ≠ none := by
  obtain ⟨more, hahead, -⟩ := c.ahead_eq
  have hinside := h.inside hin
  rw [Inside, hahead] at hinside
  have hnext : c.next.kind ≠ .endOfInput := hinside _ (by simp)
  have hsecond : (second c).kind ≠ .endOfInput := hinside _ (by simp)
  simp [markerEnd, hnext, hsecond]

end Follows

end Cursor

/-! ## What is left -/

/-- Changing the first item behind a list changes just that item. -/
theorem modify_append_cons (ms more : List α) (a : α) (f : α → α) :
    (ms ++ a :: more).modify ms.length f = ms ++ f a :: more := by
  induction ms with
  | nil => rfl
  | cons m ms ih => rw [List.cons_append, List.length_cons, List.modify_succ_cons, ih]; rfl

/-- Suggesting something leaves a marker up to the next token. -/
theorem markers_suggested (kind : MarkerKind) (c : Cursor) :
    (suggested kind c).marks.markers =
      c.marks.markers ++ [⟨kind, c.lastStop, markerEnd c, false⟩] :=
  modify_append_cons _ _ _ _

/-- Taking a token leaves no marker. -/
theorem markers_taken {c : Cursor} (kind : HighlightKind) (hrest : c.rest = t :: ts) :
    (taken kind c).marks.markers = c.marks.markers := by
  simp only [taken, highlighted, Cursor.marked, Marks.highlight, Cursor.advanced, hrest]
  split <;> rfl

/-- A marker starts in the segment of a cursor and, if it is closed, ends there. -/
structure Marker.Within (m : Marker) (o : Cursor) : Prop where
  start_ge : o.lastStop ≤ m.start
  start_le : m.start ≤ o.beyond.span.start
  stop : ∀ n ∈ m.stop, m.start ≤ n ∧ n ≤ o.beyond.span.start

/-- Whether a marker offers something up to the end of the text. -/
def Marker.IsOpen (m : Marker) : Prop := m.disabled = false ∧ m.stop = none

/-- What a reader leaves in the segment of a cursor. Where further tokens come behind the segment, only
a list that breaks off leaves an open marker, and it does. -/
structure LeftIn (o : Cursor) (broken : Prop) (left : List Marker) : Prop where
  within : ∀ m ∈ left, m.Within o
  closed : o.Inside → ∀ m ∈ left, m.IsOpen → broken ∧ m.kind = .keywords ["by"]
  stays : broken → ∃ m ∈ left, m.IsOpen

namespace LeftIn

variable {o c d : Cursor} {P Q : Prop} {left more : List Marker}

/-- No markers are left in order. -/
theorem nil : LeftIn o False [] := ⟨nofun, fun _ => nofun, False.elim⟩

/-- Markers that are left one after the other are left together. -/
theorem append (hl : LeftIn o P left) (hm : LeftIn o Q more) : LeftIn o (P ∨ Q) (left ++ more) where
  within := List.forall_mem_append.2 ⟨hl.within, hm.within⟩
  closed hin := List.forall_mem_append.2
    ⟨fun m h hopen => (hl.closed hin m h hopen).imp_left .inl,
      fun m h hopen => (hm.closed hin m h hopen).imp_left .inr⟩
  stays := by
    rintro (hp | hq)
    · obtain ⟨m, h, hopen⟩ := hl.stays hp
      exact ⟨m, List.mem_append_left _ h, hopen⟩
    · obtain ⟨m, h, hopen⟩ := hm.stays hq
      exact ⟨m, List.mem_append_right _ h, hopen⟩

/-- A marker that is closed for the next token of a cursor. -/
theorem settled (hc : c.Follows o) {start : Nat} (hge : o.lastStop ≤ start) (hle : start ≤ c.lastStop)
    (kind : MarkerKind) (disabled : Bool) : LeftIn o False [⟨kind, start, markerEnd c, disabled⟩] where
  within := List.forall_mem_singleton.2
    ⟨hge, Nat.le_trans hle hc.lastStop_le_beyond, fun _ hn =>
      (hc.markerEnd_le hn).imp_left (Nat.le_trans hle)⟩
  closed hin := List.forall_mem_singleton.2 fun hopen => absurd hopen.2 (hc.markerEnd_ne_none hin)
  stays := False.elim

/-- The marker for `by` while it is open. -/
theorem byMarker (hc : c.Follows o) {start : Nat} (hge : o.lastStop ≤ start) (hle : start ≤ c.lastStop)
    (offered : Bool) : LeftIn o (offered = true) [⟨.keywords ["by"], start, none, !offered⟩] where
  within := List.forall_mem_singleton.2
    ⟨hge, Nat.le_trans hle hc.lastStop_le_beyond, nofun⟩
  closed _ := List.forall_mem_singleton.2 fun hopen => ⟨by simpa using hopen.1, rfl⟩
  stays hoffered := ⟨_, List.mem_singleton_self _, by simp [Marker.IsOpen, hoffered]⟩

end LeftIn

namespace Cursor

variable {o b c d e : Cursor} {P Q : Prop} {offered : Bool}

/-- From `c` to `d` markers are left in the segment of `o`. -/
structure Leaves (o c : Cursor) (broken : Prop) (d : Cursor) : Prop where
  follows : d.Follows o
  markers : ∃ left, d.marks.markers = c.marks.markers ++ left ∧ LeftIn o broken left

/-- A cursor leaves no markers by itself. -/
theorem Leaves.refl (hc : c.Follows o) : Leaves o c False c := ⟨hc, [], by simp, .nil⟩

/-- What is left in two steps is left in both together. -/
theorem Leaves.trans (h : Leaves o c P d) (h' : Leaves o d Q e) : Leaves o c (P ∨ Q) e := by
  obtain ⟨left, hd, hleft⟩ := h.markers
  obtain ⟨more, he, hmore⟩ := h'.markers
  exact ⟨h'.follows, left ++ more, by rw [he, hd, List.append_assoc], hleft.append hmore⟩

/-- What is left depends on whether a list breaks off, however that is said. -/
theorem Leaves.congr (h : Leaves o c P d) (hpq : P ↔ Q) : Leaves o c Q d := propext hpq ▸ h

/-- Steps that change no marker in any other way leave markers that are closed at once. -/
theorem Step.leaves (h : c.Step shown (fun _ => False) d) (hc : c.Follows o) :
    Leaves o c False d := by
  refine ⟨hc.step h, ?_⟩
  cases h with
  | pass hrest =>
    refine ⟨[], ?_, .nil⟩
    rw [advanced, hrest, List.append_nil]
  | take kind hrest =>
    refine ⟨[], ?_, .nil⟩
    rw [markers_taken kind hrest, List.append_nil]
  | suggest kind =>
    exact ⟨_, markers_suggested kind c, .settled hc hc.lastStop_le (Nat.le_refl _) kind false⟩
  | change hmay => exact hmay.elim

/-- Steps that break off no list leave no open marker. -/
theorem Steps.leaves (h : c.Steps shown (fun _ => False) d) (hc : c.Follows o) :
    Leaves o c False d := by
  induction h with
  | refl => exact .refl hc
  | tail _ hstep ih => exact (ih.trans (hstep.leaves ih.follows)).congr (or_self False).to_iff

/-- Since `b` the marker for `by` has been opened and is still open, whether it is offered or not. -/
structure OffersBy (o b : Cursor) (offered : Bool) (c : Cursor) : Prop where
  follows : c.Follows o
  markers : ∃ start more, o.lastStop ≤ start ∧ start ≤ c.lastStop ∧
    c.marks.markers = b.marks.markers ++ ⟨.keywords ["by"], start, none, !offered⟩ :: more ∧
      LeftIn o False more

namespace OffersBy

/-- A marker for `by` that is opened is not offered yet. -/
theorem opened (hc : c.Follows o) :
    OffersBy o c false ((Parser.opened (.keywords ["by"]) c).marked
      ((Parser.opened (.keywords ["by"]) c).marks.disable c.marks.markers.length)) := by
  refine ⟨(hc.marked _).marked _, c.lastStop, [], hc.lastStop_le, Nat.le_refl _, ?_, .nil⟩
  exact modify_append_cons _ _ _ _

/-- Steps leave a marker for `by` as it is. -/
theorem steps (h : OffersBy o b offered c) (hsteps : c.Steps shown (fun _ => False) d) :
    OffersBy o b offered d := by
  obtain ⟨start, more, hge, hle, hmarkers, hmore⟩ := h.markers
  obtain ⟨hfollows, left, hd, hleft⟩ := hsteps.leaves h.follows
  have hlast : c.lastStop ≤ d.lastStop := (hsteps.leaves h.follows.refl).follows.lastStop_le
  refine ⟨hfollows, start, more ++ left, hge, Nat.le_trans hle hlast, ?_, ?_⟩
  · rw [hd, hmarkers, List.append_assoc, List.cons_append]
  · exact or_self False ▸ hmore.append hleft

/-- Once there is an aggregation, the marker for `by` is offered. -/
theorem offer (h : OffersBy o b offered c) :
    OffersBy o b true (c.changed (.offer b.marks.markers.length)) := by
  obtain ⟨start, more, -, -, hmarkers, hmore⟩ := h.markers
  refine ⟨h.follows.marked _, c.lastStop, more, h.follows.lastStop_le, Nat.le_refl _, ?_, hmore⟩
  simp only [changed, Cursor.marked, Marks.restart, Marks.enable, Marks.modify, hmarkers,
    modify_append_cons]
  rfl

/-- Closed for the next token the marker is like any other. -/
theorem settled (h : OffersBy o b offered c) :
    Leaves o b False (Parser.settled b.marks.markers.length c) := by
  obtain ⟨start, more, hge, hle, hmarkers, hmore⟩ := h.markers
  refine ⟨h.follows.marked _, _, ?_, or_self False ▸
    (LeftIn.settled h.follows hge hle (.keywords ["by"]) (!offered)).append hmore⟩
  simp only [Parser.settled, Cursor.marked, Marks.close, Marks.modify, hmarkers, modify_append_cons]
  rfl

/-- Without that it stays open. -/
theorem leaves (h : OffersBy o b offered c) : Leaves o b (offered = true) c := by
  obtain ⟨start, more, hge, hle, hmarkers, hmore⟩ := h.markers
  exact ⟨h.follows, _, hmarkers,
    or_false (offered = true) ▸ (LeftIn.byMarker h.follows hge hle offered).append hmore⟩

end OffersBy

end Cursor

/-! ## Aggregations that break off -/

/-- The aggregation that comes first, with its new name if `as` comes behind it. -/
structure FirstAggregate (ts : List Token) (a : AggregateCall) (us : List Token) : Prop where
  writes : WritesAggregateCall ts a us
  ends : a.newName = none → Clear (· = .keyword .as) us

/-- An aggregation comes first. -/
def StartsAggregate (ts : List Token) : Prop := ∃ a us, FirstAggregate ts a us

/-- Aggregations, each with a comma behind it, and then none. -/
inductive BreaksOff : List Token → Prop
  | here {a : AggregateCall} {comma : Token} {ts us : List Token} :
      WritesAggregateCall ts a (comma :: us) → comma.kind = .symbol .comma →
      ¬ StartsAggregate us → BreaksOff ts
  | later {a : AggregateCall} {comma : Token} {ts us : List Token} :
      WritesAggregateCall ts a (comma :: us) → comma.kind = .symbol .comma →
      BreaksOff us → BreaksOff ts

/-- The tokens of a stage whose aggregations break off. -/
inductive BreaksOffStage : List Token → Prop
  | stats {t : Token} {ts : List Token} :
      t.kind = .command .stats → BreaksOff ts → BreaksOffStage (t :: ts)
  | timeChart {options : List ChartOption} {t : Token} {ts us : List Token} :
      t.kind = .command .timeChart → Repeated WritesChartOption ts options us → BreaksOff us →
      BreaksOffStage (t :: ts)

section

variable {a : AggregateCall} {comma : Token}

/-- An aggregation before a comma comes first. -/
theorem FirstAggregate.of_comma (h : WritesAggregateCall ts a (comma :: us))
    (hcomma : comma.kind = .symbol .comma) : FirstAggregate ts a (comma :: us) :=
  ⟨h, fun _ => clear_cons hcomma (by simp)⟩

/-- Tokens on their own, with an end of input behind them. -/
theorem exists_at (ts : List Token) : ∃ c : Cursor, c.At ts :=
  ⟨.ofSegment 0 ts (endAfter ts, endAfter ts), at_ofSegment (.inr rfl)⟩

/-- There is one way to read the first aggregation. -/
theorem FirstAggregate.unique {a' : AggregateCall} {us' : List Token} (h : FirstAggregate ts a us)
    (h' : FirstAggregate ts a' us') : us = us' := by
  obtain ⟨c, hc⟩ := exists_at ts
  obtain ⟨d, hd, hat⟩ := aggregateCall_complete hc h.writes h.ends
  obtain ⟨d', hd', hat'⟩ := aggregateCall_complete hc h'.writes h'.ends
  cases hd.symm.trans hd'
  exact hat.rest.symm.trans hat'.rest

/-- Aggregations that break off start with one. -/
theorem BreaksOff.startsAggregate (h : BreaksOff ts) : StartsAggregate ts := by
  cases h with
  | here h hcomma _ => exact ⟨_, _, .of_comma h hcomma⟩
  | later h hcomma _ => exact ⟨_, _, .of_comma h hcomma⟩

/-- Behind the first aggregation of a list that breaks off there is a comma. -/
theorem BreaksOff.exists_comma (h : BreaksOff ts) (ha : FirstAggregate ts a us) :
    ∃ comma vs, us = comma :: vs ∧ comma.kind = .symbol .comma ∧
      (¬ StartsAggregate vs ∨ BreaksOff vs) := by
  cases h with
  | here h hcomma hnot => exact ⟨_, _, ha.unique (.of_comma h hcomma), hcomma, .inl hnot⟩
  | later h hcomma hbreaks => exact ⟨_, _, ha.unique (.of_comma h hcomma), hcomma, .inr hbreaks⟩

/-- Aggregations break off behind a comma if none comes there, or if those that come do. -/
theorem breaksOff_comma_iff (h : WritesAggregateCall ts a (comma :: us))
    (hcomma : comma.kind = .symbol .comma) :
    BreaksOff ts ↔ ¬ StartsAggregate us ∨ BreaksOff us := by
  constructor
  · intro hbreaks
    obtain ⟨_, _, he, -, hbehind⟩ := hbreaks.exists_comma (.of_comma h hcomma)
    cases he
    exact hbehind
  · rintro (hnot | hbreaks)
    · exact .here h hcomma hnot
    · exact .later h hcomma hbreaks

end

/-- Aggregations are no options of a chart. -/
theorem StartsAggregate.clear (h : StartsAggregate ts) : Clear ChartGoesOn ts := by
  obtain ⟨a, us, ⟨⟨hk⟩, -⟩⟩ := h
  exact clear_cons hk (by simp [ChartGoesOn])

/-- The options of a chart end at one token. -/
theorem chartOptions_unique {list list' : List ChartOption} {us us' : List Token}
    (h : Repeated WritesChartOption ts list us) (hus : Clear ChartGoesOn us)
    (h' : Repeated WritesChartOption ts list' us') (hus' : Clear ChartGoesOn us') : us = us' := by
  obtain ⟨c, hc⟩ := exists_at ts
  have hreads := reads_chartOptions (Nat.lt_succ_self ts.length) ⟨none, none, none⟩
  obtain ⟨d, hd, hat⟩ := hreads.complete hc (Nat.le_refl _) ⟨list, h, rfl⟩ hus
  obtain ⟨d', hd', hat'⟩ := hreads.complete hc (Nat.le_refl _) ⟨list', h', rfl⟩ hus'
  obtain ⟨-, rfl⟩ := EStateM.Result.ok.inj (hd.symm.trans hd')
  exact hat.rest.symm.trans hat'.rest

/-! ### Whole stages -/

/-- Aggregations that are read to the end do not break off. -/
theorem whole_of_separated {calls : List AggregateCall}
    (h : Separated WritesAggregateCall ts calls us)
    (hus : Clear (fun k => k = .keyword .as ∨ k = .symbol .comma) us) :
    StartsAggregate ts ∧ ¬ BreaksOff ts := by
  induction h with
  | single ha =>
    have hfirst : FirstAggregate _ _ _ := ⟨ha, fun _ => hus.left⟩
    refine ⟨⟨_, _, hfirst⟩, fun hbreaks => ?_⟩
    obtain ⟨comma, vs, rfl, hk, -⟩ := hbreaks.exists_comma hfirst
    exact hus.right comma rfl hk
  | cons ha hcomma _ ih =>
    obtain ⟨hstarts, hnot⟩ := ih hus
    rw [breaksOff_comma_iff ha hcomma]
    exact ⟨⟨_, _, .of_comma ha hcomma⟩, fun h => h.elim (fun h => h hstarts) hnot⟩

/-- Aggregations with their groups that are read to the end do not break off. -/
theorem WritesAggregations.whole {a : List AggregateCall × List String}
    (h : WritesAggregations ts a []) : StartsAggregate ts ∧ ¬ BreaksOff ts := by
  obtain ⟨hcalls, hgroup⟩ := h
  refine whole_of_separated hcalls ?_
  cases hgroup with
  | none => exact clear_nil
  | some hgroup =>
    obtain ⟨hk, -⟩ := hgroup
    exact clear_cons hk (by simp)

/-- The aggregations of a stage that can be read whole do not break off. -/
theorem WritesStage.not_breaksOff [Regex.Library] {s : Stage} (h : WritesStage ts s []) :
    ¬ BreaksOffStage ts := by
  obtain ⟨ht, hbody⟩ := h
  rintro (⟨hk, hbreaks⟩ | ⟨hk, hlist, hbreaks⟩)
  · cases ht.symm.trans hk
    cases hbody with
    | stats ha => exact ha.whole.2 hbreaks
  · cases ht.symm.trans hk
    cases hbody with
    | timeChart hlist' _ ha =>
      rw [chartOptions_unique hlist hbreaks.startsAggregate.clear hlist' ha.whole.1.clear] at hbreaks
      exact ha.whole.2 hbreaks

/-! ## Readers -/

namespace Parser

open Cursor

variable {β : Type} {o b c : Cursor} {offered : Bool} {fuel : Nat}

/-- A reader that does nothing but steps leaves markers that are closed at once. -/
theorem Walks.leaves {p : Parser α} (hp : Walks shown (fun _ => False) ts p) (hat : c.At ts)
    (hc : c.Follows o) : Leaves o c False (endOf (p.run c)) := (hp c hat).leaves hc

/-- Where a reader ends does not depend on what is made of its value. -/
theorem endOf_map {p : Parser α} {f : α → β} : endOf ((f <$> p).run c) = endOf (p.run c) := by
  rw [run_map]
  cases p.run c <;> rfl

/-- What comes behind a reader leaves its markers behind those that are left already. -/
theorem leaves_bind {p : Parser α} {f : α → Parser β} {P : Prop} {a : α} {d : Cursor}
    (hr : p.run c = .ok a d) (hd : Leaves o b False d)
    (hf : d.Follows o → Leaves o d P (endOf ((f a).run d))) :
    Leaves o b P (endOf ((p >>= f).run c)) := by
  rw [run_bind_of_ok hr]
  exact (hd.trans (hf hd.follows)).congr (false_or P).to_iff

/-- After an aggregation `by` is offered. Nothing else is done about its marker. -/
theorem run_offeredAggregate (hat : c.At ts) (h : OffersBy o b offered c) :
    (∃ a us d, (offeredAggregate b.marks.markers.length).run c = .ok a d ∧ FirstAggregate ts a us ∧
      d.At us ∧ OffersBy o b true d) ∨
    ∃ problem d, (offeredAggregate b.marks.markers.length).run c = .error problem d ∧
      ¬ StartsAggregate ts ∧ OffersBy o b offered d := by
  have hc₁ := hat.suggested .aggregations
  have hsuggest : c.Step isHighlighted (fun _ => False) (suggested .aggregations c) := .suggest _
  have h₁ : OffersBy o b offered (suggested .aggregations c) := h.steps (.single hsuggest)
  have hsteps : (suggested .aggregations c).Steps isHighlighted (fun _ => False) _ :=
    walks_aggregateCall ts _ hc₁
  rw [offeredAggregate, run_bind_of_ok (run_suggest _ _), EStateM.run_bind]
  cases hr : aggregateCall.run (suggested .aggregations c) with
  | ok a d =>
    obtain ⟨us, hd, ha, hends⟩ := aggregateCall_sound hc₁ hr
    rw [hr] at hsteps
    exact .inl ⟨a, us, _, rfl, ⟨ha, hends⟩, hd.marked _, (h₁.steps hsteps).offer⟩
  | error problem d =>
    rw [hr] at hsteps
    refine .inr ⟨problem, d, rfl, ?_, h₁.steps hsteps⟩
    rintro ⟨a, us, ha⟩
    obtain ⟨d', hd', -⟩ := aggregateCall_complete hc₁ ha.writes ha.ends
    cases hr.symm.trans hd'

/-- How the reading of aggregations ends: behind the last one, before the first one, or between. -/
inductive OffersAlong (o b : Cursor) (offered : Bool) (ts : List Token) :
    EStateM.Result Problem Cursor α → Prop
  | whole {a : α} {us : List Token} {d : Cursor} : d.At us → StartsAggregate ts → ¬ BreaksOff ts →
      OffersBy o b true d → OffersAlong o b offered ts (.ok a d)
  | nothing {problem : Problem} {d : Cursor} : ¬ StartsAggregate ts → OffersBy o b offered d →
      OffersAlong o b offered ts (.error problem d)
  | broken {problem : Problem} {d : Cursor} : BreaksOff ts → OffersBy o b true d →
      OffersAlong o b offered ts (.error problem d)

/-- What is read behind the first comma is read with `by` offered. -/
theorem OffersAlong.map {a : AggregateCall} {comma : Token} {p : Parser α} {f : α → β}
    (ha : WritesAggregateCall ts a (comma :: us)) (hcomma : comma.kind = .symbol .comma)
    (h : OffersAlong o b true us (p.run c)) : OffersAlong o b offered ts ((f <$> p).run c) := by
  have hbreaks := breaksOff_comma_iff ha hcomma
  rw [run_map]
  cases hr : p.run c with
  | ok as d =>
    rw [hr] at h
    cases h with
    | whole hd hstarts hnot hoffers =>
      exact .whole hd ⟨_, _, .of_comma ha hcomma⟩ (by simp [hbreaks, hstarts, hnot]) hoffers
  | error problem d =>
    rw [hr] at h
    cases h with
    | nothing hnot hoffers => exact .broken (hbreaks.2 (.inl hnot)) hoffers
    | broken hbroken hoffers => exact .broken (hbreaks.2 (.inr hbroken)) hoffers

/-- By induction on the commas. -/
theorem offersAlong_commaSeparated (hat : c.At ts) (hn : ts.length < fuel)
    (h : OffersBy o b offered c) : OffersAlong o b offered ts
      ((commaSeparated (offeredAggregate b.marks.markers.length) fuel).run c) := by
  induction fuel generalizing ts c offered with
  | zero => omega
  | succ fuel ih =>
    rw [commaSeparated]
    rcases run_offeredAggregate hat h with ⟨a, us, d, hr, ha, hd, hoffers⟩ |
      ⟨problem, d, hr, hnot, hoffers⟩
    · have hlt := ha.writes.passes.length_lt
      rw [run_bind_of_ok hr]
      by_cases hcomma : d.next.kind = .symbol .comma
      · obtain ⟨vs, rfl⟩ := hd.eq_cons hcomma (by simp) (by simp)
        have hstep : d.Step isHighlighted (fun _ => False) d.advanced :=
          hd.step_advanced (by rw [hcomma]; rfl)
        rw [List.length_cons] at hlt
        rw [run_bind_of_ok (a := true) (d := d.advanced) (by simp [hcomma]), if_pos rfl,
          bind_pure_comp]
        exact .map ha.writes hcomma (ih hd.advanced (by omega) (hoffers.steps (.single hstep)))
      · rw [run_bind_of_ok (a := false) (d := d) (by simp [hcomma])]
        refine .whole hd ⟨a, us, ha⟩ (fun hbreaks => ?_) hoffers
        obtain ⟨comma, vs, rfl, hk, -⟩ := hbreaks.exists_comma ha
        exact hcomma (hd.next_eq ▸ hk)
    · rw [EStateM.run_bind, hr]
      exact .nothing hnot hoffers

/-- Aggregations leave the marker for `by` open if they break off. -/
theorem aggregations_leaves (hat : c.At ts) (hc : c.Follows o) :
    Leaves o c (BreaksOff ts) (endOf (aggregations.run c)) := by
  have hoffers := OffersBy.opened hc
  have hat₁ := (hat.opened (.keywords ["by"])).marked
    ((opened (.keywords ["by"]) c).marks.disable c.marks.markers.length)
  rw [aggregations, run_bind_of_ok (run_openMarker _ _), run_bind_of_ok (run_disable _ _), list,
    bind_assoc, run_bind_of_ok (EStateM.run_get _), EStateM.run_bind, hat₁.rest]
  generalize (opened (.keywords ["by"]) c).marked _ = c₁ at hoffers hat₁ ⊢
  have halong := offersAlong_commaSeparated hat₁ (Nat.lt_succ_self _) hoffers
  cases hr : (commaSeparated (offeredAggregate c.marks.markers.length) (ts.length + 1)).run c₁ with
  | ok calls d =>
    rw [hr] at halong
    cases halong with
    | whole hd _ hnot hoffers =>
      refine (leaves_bind (run_settle _ d) hoffers.settled fun hfollows => ?_).congr
        (iff_of_false id hnot)
      refine Walks.leaves (?_ : Walks isHighlighted _ _ _) (hd.settled _) hfollows
      refine .isAtKeyword (fun t us hk => ?_) (.pure _)
      exact .take (by rw [hk]; rfl) ((walks_list walks_groupColumn us).bind fun _ _ => .pure _)
  | error problem d =>
    rw [hr] at halong
    cases halong with
    | nothing hnot hoffers =>
      exact hoffers.leaves.congr (iff_of_false Bool.false_ne_true fun h => hnot h.startsAggregate)
    | broken hbroken hoffers => exact hoffers.leaves.congr (iff_of_true rfl hbroken)

/-- A chart leaves an open marker exactly where its aggregations break off. -/
theorem chartStage_leaves (hat : c.At ts) (hc : c.Follows o) :
    Leaves o c (∃ options us, Repeated WritesChartOption ts options us ∧ BreaksOff us)
      (endOf (chartStage.run c)) := by
  have hoptions := reads_chartOptions (Nat.lt_succ_self ts.length) ⟨none, none, none⟩
  have hleaves := (walks_chartOptions (ts.length + 1) ts ⟨none, none, none⟩).leaves hat hc
  -- options that can be read are read, where aggregations come behind them
  have hcomplete : ∀ {list us}, Repeated WritesChartOption ts list us → BreaksOff us →
      ∃ options d, (chartOptions (ts.length + 1) ⟨none, none, none⟩).run c = .ok options d ∧
        d.At us := fun hlist hbreaks =>
    ⟨_, hoptions.complete hat (Nat.le_refl _) ⟨_, hlist, rfl⟩ hbreaks.startsAggregate.clear⟩
  rw [chartStage, run_bind_of_ok (EStateM.run_get _), hat.rest]
  cases hr : (chartOptions (ts.length + 1) ⟨none, none, none⟩).run c with
  | ok options d =>
    rw [hr] at hleaves
    obtain ⟨us, hd, list, hlist, -⟩ := hoptions.sound hat (Nat.le_refl _) hr
    refine leaves_bind hr hleaves fun hfollows => ?_
    rw [bind_pure_comp, endOf_map]
    refine (aggregations_leaves hd hfollows).congr ⟨fun h => ⟨list, us, hlist, h⟩, ?_⟩
    rintro ⟨list', us', hlist', hbreaks⟩
    obtain ⟨options', d', hr', hd'⟩ := hcomplete hlist' hbreaks
    cases hr.symm.trans hr'
    rwa [← hd.rest, hd'.rest]
  | error problem d =>
    rw [hr] at hleaves
    rw [EStateM.run_bind, hr]
    refine hleaves.congr ⟨False.elim, ?_⟩
    rintro ⟨list, us, hlist, hbreaks⟩
    obtain ⟨options', d', hr', -⟩ := hcomplete hlist hbreaks
    cases hr.symm.trans hr'

/-- The body of a stage leaves an open marker exactly where its aggregations break off. -/
theorem stageBody_leaves [Regex.Library] {command : Command} (ht : t.kind = .command command)
    (hat : c.At ts) (hc : c.Follows o) :
    Leaves o c (BreaksOffStage (t :: ts)) (endOf ((stageBody command).run c)) := by
  by_cases hstats : command = .stats
  · subst hstats
    rw [stageBody, bind_pure_comp, endOf_map]
    refine (aggregations_leaves hat hc).congr ⟨.stats ht, fun h => ?_⟩
    cases h with
    | stats _ h => exact h
    | timeChart hk => cases ht.symm.trans hk
  · by_cases hchart : command = .timeChart
    · subst hchart
      refine (chartStage_leaves hat hc).congr ⟨fun h => ?_, fun h => ?_⟩
      · obtain ⟨_, _, hlist, h⟩ := h
        exact .timeChart ht hlist h
      · cases h with
        | stats hk => cases ht.symm.trans hk
        | timeChart _ hlist h => exact ⟨_, _, hlist, h⟩
    · refine ((walks_stageBody_of_ne hstats hchart ts).leaves hat hc).congr ⟨False.elim, fun h => ?_⟩
      cases h with
      | stats hk =>
        cases ht.symm.trans hk
        exact hstats rfl
      | timeChart hk =>
        cases ht.symm.trans hk
        exact hchart rfl

/-- A stage leaves an open marker in front of further segments only if its aggregations break off. -/
theorem stage_leaves [Regex.Library] (hat : c.At ts) (hc : c.Follows o) :
    Leaves o c (BreaksOffStage ts) (endOf (stage.run c)) := by
  have hsuggest : c.Step isHighlighted (fun _ => False) (suggested .commands c) := .suggest _
  have hc₁ := hat.suggested .commands
  rw [stage]
  refine leaves_bind (run_suggest _ c) (hsuggest.leaves hc) fun hfollows => ?_
  rw [run_bind_of_ok (run_peek _)]
  have hnot : (∀ command, (suggested .commands c).next.kind ≠ .command command) →
      ¬ BreaksOffStage ts := by
    rintro hne (⟨hk, -⟩ | ⟨hk, -⟩)
    · exact hne _ (hc₁.next_eq ▸ hk)
    · exact hne _ (hc₁.next_eq ▸ hk)
  split
  next command hk =>
    obtain ⟨us, rfl⟩ := hc₁.eq_cons hk (by simp) (by simp)
    have htake : (suggested .commands c).Step isHighlighted (fun _ => False)
        (taken .command (suggested .commands c)) := hc₁.step_taken .command (by rw [hk]; rfl)
    exact leaves_bind (run_take _ _) (htake.leaves hfollows) fun hfollows =>
      stageBody_leaves hk (hc₁.taken .command) hfollows
  next name hk =>
    have hne : ∀ command, (suggested .commands c).next.kind ≠ .command command := fun _ hc => by
      cases hk.symm.trans hc
    exact (Leaves.refl hfollows).congr (iff_of_false id (hnot hne))
  next hk _ =>
    exact (Leaves.refl hfollows).congr (iff_of_false id (hnot hk))

end Parser

end LogSearch.Query
