import LogSearch.Proofs.Json.Roundtrip
import LogSearch.Results

/-!
# Results sent as text

Fields, records and results are written as JSON with their types, and read again by who asked for
them. They come back as they were if every number in them is read from its text as itself and they
nest no deeper than a text may; nothing else is lost on the way.

* `Field.Proper`, `Record.Proper`, `Results.Proper`: what the types of the values say about them.
* `Field.brought_field_iff`: a field comes back as it was exactly if its numbers do, by induction on
  the field; `Field.brought_field_none`: nothing comes back of one with an infinity or a NaN.
* `comes_back_iff`: the same for whole texts of fields, records and results.
* `invalid_number_lost`: a number that could not be computed is carried with its error, and its text
  cannot be read.
-/

namespace LogSearch

open Json (brought ReadsBack)

/-! ## Fields -/

namespace Field

mutual
/-- The numbers in a field. -/
def numbers : Field → List Double
  | mk v _ => valueNumbers v

/-- The numbers in a value. -/
def valueNumbers : FieldValue → List Double
  | .number x => [x]
  | .array items => itemsNumbers items
  | .object entries => entriesNumbers entries
  | _ => []

/-- The numbers in some items. -/
def itemsNumbers : List Field → List Double
  | [] => []
  | f :: rest => numbers f ++ itemsNumbers rest

/-- The numbers in some entries. -/
def entriesNumbers : List (String × Field) → List Double
  | [] => []
  | (_, f) :: rest => numbers f ++ entriesNumbers rest
end

mutual
/-- Whether dates are integers of sixty-four bits and entries stand in the order of their keys. -/
def Proper : Field → Prop
  | mk v _ => ValueProper v

/-- `Proper` for a value. -/
def ValueProper : FieldValue → Prop
  | .date ms => Number.int64Min ≤ ms ∧ ms ≤ Number.int64Max
  | .array items => ItemsProper items
  | .object entries => Dict.Ordered entries ∧ EntriesProper entries
  | _ => True

/-- `Proper` for items. -/
def ItemsProper : List Field → Prop
  | [] => True
  | f :: rest => Proper f ∧ ItemsProper rest

/-- `Proper` for entries. -/
def EntriesProper : List (String × Field) → Prop
  | [] => True
  | (_, f) :: rest => Proper f ∧ EntriesProper rest
end

/-- The items of a list are written one by one. -/
theorem itemsToJson_eq (items : List Field) : itemsToJson items = items.map toJson := by
  induction items with
  | nil => rfl
  | cons f rest ih => rw [itemsToJson, ih, List.map_cons]

/-- The entries of an object are written one by one, each under its key. -/
theorem entriesToJson_eq (entries : List (String × Field)) :
    entriesToJson entries = entries.map fun (key, f) => (key, toJson f) := by
  induction entries with
  | nil => rfl
  | cons entry rest ih => rw [entriesToJson, ih, List.map_cons]

/-! ### What comes back of a field -/

/-- Of a value with its type comes back what is written of it. -/
theorem brought_typed {α : Type} {fuel : Nat} {type : String} {part : Json → Option α}
    {mk : α → FieldValue} (hdecode : ∀ r, valueOfJson? (fuel + 1) (.object (typed type r)) =
      (part r).bind fun a => some (mk a)) (j : Json) :
    brought (valueOfJson? (fuel + 1)) (.object (typed type j)) =
      (brought part j).bind fun a => some (mk a) := by
  have hread : (Json.object (typed type j)).reread =
      j.reread.bind fun r => some (.object (typed type r)) := by
    simp only [typed, Json.reread, Json.rereadMembers]
    cases j.reread <;> rfl
  exact Json.brought_wrapped hread hdecode

/-- A list of texts comes back. -/
theorem brought_texts (texts : List String) :
    brought (Json.list? Json.text?) (Json.ofTexts texts) = some texts := by
  rw [Json.ofTexts, Json.brought_list, Json.mapM_eq_self_iff]
  exact fun s _ => Json.brought_text s

/-- Of a field its value comes back: its errors are written and read as they are. -/
theorem brought_mk (fuel : Nat) (v : FieldValue) (errors : List String) :
    brought (ofJsonWithin? (fuel + 1)) (mk v errors).toJson =
      (brought (valueOfJson? fuel) (.object (valueMembers v))).bind fun v => some (mk v errors) := by
  rw [toJson]
  cases errors with
  | nil =>
    have hread : ∀ j : Json, (Json.object [("value", j)]).reread =
        j.reread.bind fun r => some (.object [("value", r)]) := by
      intro j
      simp only [Json.reread, Json.rereadMembers]
      cases j.reread <;> rfl
    exact Json.brought_wrapped (hread _) fun _ => rfl
  | cons e es =>
    have hparts : ∀ r₁ r₂, ofJsonWithin? (fuel + 1) (.object [("value", r₁), ("errors", r₂)]) =
        (valueOfJson? fuel r₁).bind fun v =>
          (Json.list? Json.text? r₂).bind fun errors => some (mk v errors) :=
      fun _ _ => rfl
    have hwhole := Json.brought_pair hparts (.object (valueMembers v)) (Json.ofTexts (e :: es))
    rw [brought_texts] at hwhole
    exact hwhole

/-- A value with its type lies one level below the object of both. -/
theorem depth_typed (type : String) (j : Json) : (Json.object (typed type j)).depth = j.depth + 1 := by
  simp [typed, Json.depth, Json.depth.memberDepths]

mutual
/-- A field comes back as it was if all its numbers are read from their texts as themselves. -/
theorem brought_field_iff : ∀ (f : Field) (fuel : Nat), f.toJson.depth ≤ fuel → f.Proper →
    (brought (ofJsonWithin? fuel) f.toJson = some f ↔ ∀ x ∈ f.numbers, ReadsBack x)
  | mk _ _, 0, hdepth, _ => absurd hdepth (Nat.not_succ_le_zero _)
  | mk v errors, fuel + 1, hdepth, hproper => by
    have hvalue : (Json.object (valueMembers v)).depth ≤ fuel :=
      Nat.le_trans (Nat.le_max_left ..) (Nat.le_of_succ_le_succ hdepth)
    have hmk : ∀ {v v' : FieldValue}, mk v errors = mk v' errors → v = v' := fun h => (mk.inj h).1
    rw [brought_mk, Json.bind_eq_some_iff_of_inj hmk]
    exact brought_value_iff v fuel hvalue hproper

/-- A value comes back as it was if all its numbers are read from their texts as themselves. -/
theorem brought_value_iff : ∀ (v : FieldValue) (fuel : Nat),
    (Json.object (valueMembers v)).depth ≤ fuel → ValueProper v →
    (brought (valueOfJson? fuel) (.object (valueMembers v)) = some v ↔
      ∀ x ∈ valueNumbers v, ReadsBack x)
  | _, 0, hdepth, _ => absurd hdepth (Nat.not_succ_le_zero _)
  | .null, fuel + 1, _, _ => iff_of_true rfl (List.forall_mem_nil _)
  | .number x, fuel + 1, _, _ => by
    rw [valueMembers, brought_typed (fun _ => rfl), Json.bind_eq_some_iff_of_inj FieldValue.number.inj,
      valueNumbers, List.forall_mem_singleton]
    rfl
  | .string s, fuel + 1, _, _ => iff_of_true rfl (List.forall_mem_nil _)
  | .date ms, fuel + 1, _, hproper => by
    refine iff_of_true ?_ (List.forall_mem_nil _)
    rw [valueMembers, brought_typed (fun _ => rfl), Json.brought_int64 hproper.1 hproper.2]
    rfl
  | .boolean b, fuel + 1, _, _ => iff_of_true rfl (List.forall_mem_nil _)
  | .array items, fuel + 1, hdepth, hproper => by
    rw [valueMembers, depth_typed, Json.depth] at hdepth
    rw [valueMembers, itemsToJson_eq, brought_typed (fun _ => rfl),
      Json.bind_eq_some_iff_of_inj FieldValue.array.inj, valueNumbers,
      ← brought_items_iff items fuel (by omega) hproper, ← Json.mapM_eq_self_iff]
    exact iff_of_eq (congrArg (· = some items) (Json.brought_list items))
  | .object entries, fuel + 1, hdepth, hproper => by
    rw [valueMembers, depth_typed, Json.depth] at hdepth
    rw [valueMembers, entriesToJson_eq, brought_typed (fun _ => rfl),
      Json.bind_eq_some_iff_of_inj FieldValue.object.inj, valueNumbers,
      ← brought_entries_iff entries fuel (by omega) hproper.2]
    exact Json.brought_dict_eq_self_iff hproper.1

/-- Items all come back exactly when all numbers in them do. -/
theorem brought_items_iff : ∀ (items : List Field) (fuel : Nat),
    Json.depth.depths (itemsToJson items) ≤ fuel → ItemsProper items →
    ((∀ f ∈ items, brought (ofJsonWithin? fuel) f.toJson = some f) ↔
      ∀ x ∈ itemsNumbers items, ReadsBack x)
  | [], _, _, _ => by simp [itemsNumbers]
  | f :: rest, fuel, hdepth, hproper => by
    obtain ⟨hfirst, hrest⟩ := Nat.max_le.1 hdepth
    rw [List.forall_mem_cons, itemsNumbers, List.forall_mem_append,
      brought_field_iff f fuel hfirst hproper.1, brought_items_iff rest fuel hrest hproper.2]

/-- Entries all come back exactly when all numbers in them do. -/
theorem brought_entries_iff : ∀ (entries : List (String × Field)) (fuel : Nat),
    Json.depth.memberDepths (entriesToJson entries) ≤ fuel → EntriesProper entries →
    ((∀ p ∈ entries, brought (ofJsonWithin? fuel) p.2.toJson = some p.2) ↔
      ∀ x ∈ entriesNumbers entries, ReadsBack x)
  | [], _, _, _ => by simp [entriesNumbers]
  | (_, f) :: rest, fuel, hdepth, hproper => by
    obtain ⟨hfirst, hrest⟩ := Nat.max_le.1 hdepth
    rw [List.forall_mem_cons, entriesNumbers, List.forall_mem_append,
      brought_field_iff f fuel hfirst hproper.1, brought_entries_iff rest fuel hrest hproper.2]
end

/-! ### Fields that cannot be read -/

mutual
/-- Of a field with an infinity or a NaN nothing comes back. -/
theorem brought_field_none : ∀ (f : Field) (fuel : Nat),
    (∃ x ∈ f.numbers, x.isFinite = false) → brought (ofJsonWithin? fuel) f.toJson = none
  | _, 0, _ => Json.brought_eq_none (fun _ => rfl) _
  | mk v errors, fuel + 1, h => by
    rw [brought_mk, brought_value_none v fuel h]
    rfl

/-- Of a value with an infinity or a NaN nothing comes back. -/
theorem brought_value_none : ∀ (v : FieldValue) (fuel : Nat),
    (∃ x ∈ valueNumbers v, x.isFinite = false) →
    brought (valueOfJson? fuel) (.object (valueMembers v)) = none
  | _, 0, _ => Json.brought_eq_none (fun _ => rfl) _
  | .null, fuel + 1, ⟨_, hx, _⟩ => absurd hx List.not_mem_nil
  | .number x, fuel + 1, ⟨y, hy, hinvalid⟩ => by
    obtain rfl : y = x := List.mem_singleton.1 hy
    rw [valueMembers, brought_typed (fun _ => rfl), Json.brought_double_of_not_finite hinvalid]
    rfl
  | .string _, fuel + 1, ⟨_, hx, _⟩ => absurd hx List.not_mem_nil
  | .date _, fuel + 1, ⟨_, hx, _⟩ => absurd hx List.not_mem_nil
  | .boolean _, fuel + 1, ⟨_, hx, _⟩ => absurd hx List.not_mem_nil
  | .array items, fuel + 1, h => by
    have hitems : brought (Json.list? (ofJsonWithin? fuel)) (Json.ofList toJson items) = none := by
      rw [Json.brought_list, Json.mapM_eq_none_iff]
      exact brought_items_none items fuel h
    rw [valueMembers, itemsToJson_eq, brought_typed (fun _ => rfl)]
    exact congrArg (·.bind fun items => some (FieldValue.array items)) hitems
  | .object entries, fuel + 1, h => by
    have hentries : brought (Json.dict? (ofJsonWithin? fuel)) (Json.ofDict toJson entries) = none :=
      Json.brought_dict_eq_none (brought_entries_none entries fuel h)
    rw [valueMembers, entriesToJson_eq, brought_typed (fun _ => rfl)]
    exact congrArg (·.bind fun entries => some (FieldValue.object entries)) hentries

/-- A number that is not finite keeps one of the items from coming back. -/
theorem brought_items_none : ∀ (items : List Field) (fuel : Nat),
    (∃ x ∈ itemsNumbers items, x.isFinite = false) →
    ∃ f ∈ items, brought (ofJsonWithin? fuel) f.toJson = none
  | [], _, ⟨_, hx, _⟩ => absurd hx List.not_mem_nil
  | f :: rest, fuel, ⟨x, hx, hinvalid⟩ => by
    rcases List.mem_append.1 hx with hx | hx
    · exact ⟨f, List.mem_cons_self, brought_field_none f fuel ⟨x, hx, hinvalid⟩⟩
    · obtain ⟨f', hf', hnone⟩ := brought_items_none rest fuel ⟨x, hx, hinvalid⟩
      exact ⟨f', List.mem_cons_of_mem _ hf', hnone⟩

/-- A number that is not finite keeps one of the entries from coming back. -/
theorem brought_entries_none : ∀ (entries : List (String × Field)) (fuel : Nat),
    (∃ x ∈ entriesNumbers entries, x.isFinite = false) →
    ∃ p ∈ entries, brought (ofJsonWithin? fuel) p.2.toJson = none
  | [], _, ⟨_, hx, _⟩ => absurd hx List.not_mem_nil
  | (key, f) :: rest, fuel, ⟨x, hx, hinvalid⟩ => by
    rcases List.mem_append.1 hx with hx | hx
    · exact ⟨(key, f), List.mem_cons_self, brought_field_none f fuel ⟨x, hx, hinvalid⟩⟩
    · obtain ⟨p, hp, hnone⟩ := brought_entries_none rest fuel ⟨x, hx, hinvalid⟩
      exact ⟨p, List.mem_cons_of_mem _ hp, hnone⟩
end

end Field

/-! ## Records -/

namespace Record

/-- The numbers in a record. -/
def numbers (r : Record) : List Double := r.fields.flatMap fun p => p.2.numbers

/-- Whether the fields are proper and stand in the order of their names. -/
structure Proper (r : Record) : Prop where
  ordered : Dict.Ordered r.fields
  fields : ∀ p ∈ r.fields, p.2.Proper

/-- Of a record its fields come back. -/
theorem brought_record (r : Record) : brought ofJson? r.toJson =
    (brought (Json.dict? Field.ofJson?) (Json.ofDict Field.toJson r.fields)).bind fun fields =>
      some ⟨fields, r.message⟩ := by
  have hwhole : brought ofJson? r.toJson =
      (brought (Json.dict? Field.ofJson?) (Json.ofDict Field.toJson r.fields)).bind fun fields =>
        (brought Json.text? (.string r.message)).bind fun message => some ⟨fields, message⟩ :=
    Json.brought_pair (fun _ _ => rfl) _ _
  rw [hwhole, Json.brought_text]
  rfl

/-- A record comes back as it was if all its numbers are read from their texts as themselves. -/
theorem brought_record_iff {r : Record} (hdepth : r.toJson.depth ≤ 256) (hproper : r.Proper) :
    brought ofJson? r.toJson = some r ↔ ∀ x ∈ r.numbers, ReadsBack x := by
  have hmk : ∀ {fields fields' : Dict Field}, Record.mk fields r.message = ⟨fields', r.message⟩ →
      fields = fields' := fun h => (Record.mk.inj h).1
  have hfields : (Json.ofDict Field.toJson r.fields).depth < r.toJson.depth :=
    Json.depth_lt_object (m := ("fields", _)) List.mem_cons_self
  have hback : (∀ p ∈ r.fields, brought Field.ofJson? p.2.toJson = some p.2) ↔
      ∀ x ∈ r.numbers, ReadsBack x := by
    refine Json.forall_iff_readsBack fun p hp => ?_
    have hfield : p.2.toJson.depth < (Json.ofDict Field.toJson r.fields).depth := Json.depth_lt_ofDict hp
    exact Field.brought_field_iff p.2 256 (by omega) (hproper.fields p hp)
  rw [brought_record, ← hback, ← Json.brought_dict_eq_self_iff hproper.ordered]
  exact Json.bind_eq_some_iff_of_inj hmk

/-- Of a record with an infinity or a NaN nothing comes back. -/
theorem brought_record_none (r : Record) (h : ∃ x ∈ r.numbers, x.isFinite = false) :
    brought ofJson? r.toJson = none := by
  have hfields : ∃ p ∈ r.fields, brought Field.ofJson? p.2.toJson = none :=
    Json.exists_of_mem_flatMap (fun p hp => Field.brought_field_none p.2 256 hp) h
  rw [brought_record, Json.brought_dict_eq_none hfields]
  rfl

end Record

/-! ## Tables and charts -/

namespace Table

/-- The numbers in a table. -/
def numbers (t : Table) : List Double := t.rows.flatMap Record.numbers

/-- Of a table its rows come back. -/
theorem brought_table (t : Table) : brought ofJson? t.toJson =
    (t.rows.mapM fun r => brought Record.ofJson? r.toJson).bind fun rows => some ⟨t.columns, rows⟩ := by
  have hwhole : brought ofJson? t.toJson =
      (brought (Json.list? Json.text?) (Json.ofTexts t.columns)).bind fun columns =>
        (brought (Json.list? Record.ofJson?) (Json.ofList Record.toJson t.rows)).bind fun rows =>
          some ⟨columns, rows⟩ := Json.brought_pair (fun _ _ => rfl) _ _
  rw [hwhole, Field.brought_texts, Json.brought_list]
  rfl

/-- A table comes back as it was if all its numbers are read from their texts as themselves. -/
theorem brought_table_iff {t : Table} (hdepth : t.toJson.depth ≤ 256)
    (hproper : ∀ r ∈ t.rows, r.Proper) :
    brought ofJson? t.toJson = some t ↔ ∀ x ∈ t.numbers, ReadsBack x := by
  have hmk : ∀ {rows rows' : List Record}, Table.mk t.columns rows = ⟨t.columns, rows'⟩ →
      rows = rows' := fun h => (Table.mk.inj h).2
  have hrows : (Json.ofList Record.toJson t.rows).depth < t.toJson.depth :=
    Json.depth_lt_object (m := ("rows", _)) (List.mem_cons_of_mem _ List.mem_cons_self)
  have hback : (∀ r ∈ t.rows, brought Record.ofJson? r.toJson = some r) ↔
      ∀ x ∈ t.numbers, ReadsBack x := by
    refine Json.forall_iff_readsBack fun r hr => ?_
    have hrow : r.toJson.depth < (Json.ofList Record.toJson t.rows).depth := Json.depth_lt_ofList hr
    exact Record.brought_record_iff (by omega) (hproper r hr)
  rw [brought_table, ← hback, ← Json.mapM_eq_self_iff]
  exact Json.bind_eq_some_iff_of_inj hmk

/-- Of a table with an infinity or a NaN nothing comes back. -/
theorem brought_table_none (t : Table) (h : ∃ x ∈ t.numbers, x.isFinite = false) :
    brought ofJson? t.toJson = none := by
  have hrows := Json.exists_of_mem_flatMap Record.brought_record_none h
  rw [brought_table, Json.mapM_eq_none_iff.2 hrows]
  rfl

end Table

namespace ChartPoint

/-- The numbers of a point. -/
def numbers (p : ChartPoint) : List Double := p.values.map Prod.snd

/-- Whether the instant is an integer of sixty-four bits and the series stand in order. -/
structure Proper (p : ChartPoint) : Prop where
  low : Number.int64Min ≤ p.timestamp
  high : p.timestamp ≤ Number.int64Max
  ordered : Dict.Ordered p.values

/-- Of a point its instant and its values come back. -/
theorem brought_point (p : ChartPoint) : brought ofJson? p.toJson =
    (brought Json.int64? (.integer p.timestamp)).bind fun timestamp =>
      (brought (Json.dict? Json.double?) (Json.ofDict Json.ofDouble p.values)).bind fun values =>
        some ⟨timestamp, values⟩ :=
  Json.brought_pair (fun _ _ => rfl) _ _

/-- A point comes back exactly when all its numbers do. -/
theorem brought_point_iff {p : ChartPoint} (hproper : p.Proper) :
    brought ofJson? p.toJson = some p ↔ ∀ x ∈ p.numbers, ReadsBack x := by
  have hinstant := Json.brought_int64 hproper.low hproper.high
  have hvalues : brought (Json.dict? Json.double?) (Json.ofDict Json.ofDouble p.values) = some p.values ↔
      ∀ x ∈ p.numbers, ReadsBack x := by
    rw [Json.brought_dict_eq_self_iff hproper.ordered, numbers, List.forall_mem_map]
    rfl
  rw [brought_point, ← hvalues]
  exact (Json.bind_eq_some_iff_of_inj₂ ChartPoint.mk.inj).trans (and_iff_right hinstant)

/-- A point with a number that is not finite does not come back. -/
theorem brought_point_none (p : ChartPoint) (h : ∃ x ∈ p.numbers, x.isFinite = false) :
    brought ofJson? p.toJson = none := by
  obtain ⟨x, hx, hinvalid⟩ := h
  obtain ⟨q, hq, rfl⟩ := List.mem_map.1 hx
  have hvalues : brought (Json.dict? Json.double?) (Json.ofDict Json.ofDouble p.values) = none :=
    Json.brought_dict_eq_none ⟨q, hq, Json.brought_double_of_not_finite hinvalid⟩
  rw [brought_point, hvalues]
  exact Option.bind_fun_none _

end ChartPoint

namespace Chart

/-- The numbers in a chart. -/
def numbers (c : Chart) : List Double := c.points.flatMap ChartPoint.numbers

/-- A series always comes back. -/
theorem brought_series (s : Series) : brought Series.ofJson? s.toJson = some s := by
  have hwhole : brought Series.ofJson? s.toJson =
      (brought Json.text? (.string s.name)).bind fun name =>
        (brought Json.text? (.string s.color)).bind fun color => some ⟨name, color⟩ :=
    Json.brought_pair (fun _ _ => rfl) _ _
  rw [hwhole, Json.brought_text, Json.brought_text]
  rfl

/-- Of a chart its points come back. -/
theorem brought_chart (c : Chart) : brought ofJson? c.toJson =
    (c.points.mapM fun p => brought ChartPoint.ofJson? p.toJson).bind fun points =>
      some ⟨c.axis, c.series, points⟩ := by
  have hwhole : brought ofJson? c.toJson =
      (brought Json.text? (.string c.axis)).bind fun axis =>
        (brought (Json.list? Series.ofJson?) (Json.ofList Series.toJson c.series)).bind fun series =>
          (brought (Json.list? ChartPoint.ofJson?) (Json.ofList ChartPoint.toJson c.points)).bind
            fun points => some ⟨axis, series, points⟩ := Json.brought_triple (fun _ _ _ => rfl) _ _ _
  have hseries : c.series.mapM (fun s => brought Series.ofJson? s.toJson) = some c.series :=
    Json.mapM_eq_self_iff.2 fun s _ => brought_series s
  rw [hwhole, Json.brought_list, Json.brought_list, hseries]
  rfl

/-- A chart comes back as it was if all its numbers are read from their texts as themselves. -/
theorem brought_chart_iff {c : Chart} (hproper : ∀ p ∈ c.points, p.Proper) :
    brought ofJson? c.toJson = some c ↔ ∀ x ∈ c.numbers, ReadsBack x := by
  have hmk : ∀ {points points' : List ChartPoint},
      Chart.mk c.axis c.series points = ⟨c.axis, c.series, points'⟩ → points = points' :=
    fun h => (Chart.mk.inj h).2.2
  have hback : (∀ p ∈ c.points, brought ChartPoint.ofJson? p.toJson = some p) ↔
      ∀ x ∈ c.numbers, ReadsBack x :=
    Json.forall_iff_readsBack fun p hp => ChartPoint.brought_point_iff (hproper p hp)
  rw [brought_chart, ← hback, ← Json.mapM_eq_self_iff]
  exact Json.bind_eq_some_iff_of_inj hmk

/-- Of a chart with an infinity or a NaN nothing comes back. -/
theorem brought_chart_none (c : Chart) (h : ∃ x ∈ c.numbers, x.isFinite = false) :
    brought ofJson? c.toJson = none := by
  have hpoints := Json.exists_of_mem_flatMap ChartPoint.brought_point_none h
  rw [brought_chart, Json.mapM_eq_none_iff.2 hpoints]
  rfl

end Chart

/-! ## Results -/

namespace Results

/-- The numbers in results. -/
def numbers (r : Results) : List Double :=
  r.events.flatMap Record.numbers ++
    (r.table.toList.flatMap Table.numbers ++ r.chart.toList.flatMap Chart.numbers)

/-- Whether all records and all points are proper. -/
structure Proper (r : Results) : Prop where
  events : ∀ e ∈ r.events, e.Proper
  table : ∀ t ∈ r.table, ∀ e ∈ t.rows, e.Proper
  chart : ∀ c ∈ r.chart, ∀ p ∈ c.points, p.Proper

/-- An object that is written and read is not null. -/
theorem isNull_of_reread_object {members : List (String × Json)} :
    ∀ j ∈ (Json.object members).reread, j.isNull = false := by
  intro j hj
  rw [Json.reread] at hj
  obtain ⟨members', -, rfl⟩ := Option.map_eq_some_iff.1 hj
  rfl

/-- Neither is a table. -/
theorem isNull_of_reread_table (t : Table) : ∀ j ∈ t.toJson.reread, j.isNull = false :=
  isNull_of_reread_object

/-- Neither is a chart. -/
theorem isNull_of_reread_chart (c : Chart) : ∀ j ∈ c.toJson.reread, j.isNull = false :=
  isNull_of_reread_object

/-- Of results the events come back, and the table and the chart if there are any. -/
theorem brought_results (r : Results) : brought ofJson? r.toJson =
    (r.events.mapM fun e => brought Record.ofJson? e.toJson).bind fun events =>
      (brought (Json.option? Table.ofJson?) (Json.ofOption Table.toJson r.table)).bind fun table =>
        (brought (Json.option? Chart.ofJson?) (Json.ofOption Chart.toJson r.chart)).bind fun chart =>
          some ⟨events, table, chart⟩ := by
  rw [← Json.brought_list]
  exact Json.brought_triple (fun _ _ _ => rfl) _ _ _

/-- Results come back as they were if all their numbers are read from their texts as themselves. -/
theorem brought_results_iff {r : Results} (hdepth : r.toJson.depth ≤ 256) (hproper : r.Proper) :
    brought ofJson? r.toJson = some r ↔ ∀ x ∈ r.numbers, ReadsBack x := by
  have hevents : (Json.ofList Record.toJson r.events).depth < r.toJson.depth :=
    Json.depth_lt_object (m := ("events", _)) List.mem_cons_self
  have htable : (Json.ofOption Table.toJson r.table).depth < r.toJson.depth :=
    Json.depth_lt_object (m := ("table", _)) (List.mem_cons_of_mem _ List.mem_cons_self)
  have hparts := Json.bind_eq_some_iff_of_inj₃ (x := r.events.mapM fun e => brought Record.ofJson? e.toJson)
    (y := brought (Json.option? Table.ofJson?) (Json.ofOption Table.toJson r.table))
    (z := brought (Json.option? Chart.ofJson?) (Json.ofOption Chart.toJson r.chart)) Results.mk.inj
    (a := r.events) (b := r.table) (c := r.chart)
  rw [brought_results]
  refine hparts.trans ?_
  rw [Json.mapM_eq_self_iff, Json.brought_option_eq_self_iff isNull_of_reread_table,
    Json.brought_option_eq_self_iff isNull_of_reread_chart, numbers, List.forall_mem_append,
    List.forall_mem_append]
  refine and_congr ?_ (and_congr ?_ ?_)
  · refine Json.forall_iff_readsBack fun e he => ?_
    have hevent : e.toJson.depth < (Json.ofList Record.toJson r.events).depth := Json.depth_lt_ofList he
    exact Record.brought_record_iff (by omega) (hproper.events e he)
  · refine Json.forall_iff_readsBack fun t ht => ?_
    rw [Option.mem_toList] at ht
    have hsame : Json.ofOption Table.toJson r.table = t.toJson := by
      rw [ht]
      rfl
    rw [hsame] at htable
    exact Table.brought_table_iff (by omega) (hproper.table t ht)
  · refine Json.forall_iff_readsBack fun c hc => ?_
    exact Chart.brought_chart_iff (hproper.chart c (Option.mem_toList.1 hc))

/-- Of results with an infinity or a NaN nothing comes back. -/
theorem brought_results_none (r : Results) (h : ∃ x ∈ r.numbers, x.isFinite = false) :
    brought ofJson? r.toJson = none := by
  obtain ⟨x, hx, hinvalid⟩ := h
  rw [brought_results]
  rcases List.mem_append.1 hx with hx | hx
  · have hevents : ∃ e ∈ r.events, brought Record.ofJson? e.toJson = none :=
      Json.exists_of_mem_flatMap Record.brought_record_none ⟨x, hx, hinvalid⟩
    rw [Json.mapM_eq_none_iff.2 hevents]
    rfl
  rcases List.mem_append.1 hx with hx | hx
  · have htable : ∃ t ∈ r.table.toList, brought Table.ofJson? t.toJson = none :=
      Json.exists_of_mem_flatMap Table.brought_table_none ⟨x, hx, hinvalid⟩
    rw [Json.brought_option_eq_none isNull_of_reread_table htable]
    exact Option.bind_fun_none _
  · have hchart : ∃ c ∈ r.chart.toList, brought Chart.ofJson? c.toJson = none :=
      Json.exists_of_mem_flatMap Chart.brought_chart_none ⟨x, hx, hinvalid⟩
    rw [Json.brought_option_eq_none isNull_of_reread_chart hchart]
    simp only [Option.bind_none, Option.bind_fun_none]

end Results

/-! ## Whole texts -/

/-- A field, a record or results come back from their text as they were exactly if the text nests no
deeper than it may and every number is read from its text as itself. Zeros are, and doubles of which
the digits fit a mantissa. An infinity or a NaN is written as `null`, and nothing comes back of all
that stands around it. -/
theorem comes_back_iff {f : Field} {e : Record} {r : Results} (hf : f.Proper) (he : e.Proper)
    (hr : r.Proper) :
    ((Json.read? f.toJson.compact).bind Field.ofJson? = some f ↔
      f.toJson.depth ≤ Json.maxDepth ∧ ∀ x ∈ f.numbers, ReadsBack x) ∧
    ((Json.read? e.toJson.compact).bind Record.ofJson? = some e ↔
      e.toJson.depth ≤ Json.maxDepth ∧ ∀ x ∈ e.numbers, ReadsBack x) ∧
    ((Json.read? r.toJson.compact).bind Results.ofJson? = some r ↔
      r.toJson.depth ≤ Json.maxDepth ∧ ∀ x ∈ r.numbers, ReadsBack x) ∧
    (∀ x v, x.value = .finite v →
      v.mantissa = 0 ∨ Json.Fits (Number.shortest .even v) → ReadsBack x) ∧
    ((∃ x ∈ f.numbers, x.isFinite = false) →
      (Json.read? f.toJson.compact).bind Field.ofJson? = none) ∧
    ((∃ x ∈ e.numbers, x.isFinite = false) →
      (Json.read? e.toJson.compact).bind Record.ofJson? = none) ∧
    ((∃ x ∈ r.numbers, x.isFinite = false) →
      (Json.read? r.toJson.compact).bind Results.ofJson? = none) := by
  have hfuel : Json.maxDepth ≤ 256 := by decide
  rw [Json.read?_bind_eq_some_iff, Json.read?_bind_eq_some_iff, Json.read?_bind_eq_some_iff]
  refine ⟨?_, ?_, ?_, ?_, ?_, ?_, ?_⟩
  · exact and_congr_right fun hdepth => Field.brought_field_iff f 256 (hdepth.trans hfuel) hf
  · exact and_congr_right fun hdepth => Record.brought_record_iff (hdepth.trans hfuel) he
  · exact and_congr_right fun hdepth => Results.brought_results_iff (hdepth.trans hfuel) hr
  · intro x v hx h
    rcases Nat.eq_zero_or_pos v.mantissa with hzero | hpos
    · exact Json.readsBack_of_zero hx hzero
    · exact Json.readsBack_of_fits hx hpos (h.resolve_left hpos.ne')
  · intro h
    exact Json.read?_bind_eq_none (Field.brought_field_none f 256 h)
  · intro h
    exact Json.read?_bind_eq_none (Record.brought_record_none e h)
  · intro h
    exact Json.read?_bind_eq_none (Results.brought_results_none r h)

/-- A list that holds a half with an error, and an object with a date. -/
def nestedField : Field :=
  Field.of (.array [(Field.number (.ofFloat 0.5)).withError "rounded",
    Field.of (.object [("at", Field.date 1700000000000), ("none", Field.null)])])

/-- An event with such a field. -/
def nestedEvent : Record := ⟨[("reading", nestedField)], "raw"⟩

/-- Such an event, and a chart of one point. -/
def nestedResults : Results where
  events := [nestedEvent]
  table := none
  chart := some ⟨"time", [⟨"count", "#fff"⟩], [⟨1700000000000, [("count", .ofFloat 0.5)]⟩]⟩

/-- Nested lists and objects, dates among them, come back from the text of their JSON. -/
theorem nested_results_come_back :
    (Json.read? nestedField.toJson.compact).bind Field.ofJson? = some nestedField ∧
      (Json.read? nestedEvent.toJson.compact).bind Record.ofJson? = some nestedEvent ∧
      (Json.read? nestedResults.toJson.compact).bind Results.ofJson? = some nestedResults := by
  have hordered : Dict.Ordered [("at", Field.date 1700000000000), ("none", Field.null)] :=
    List.pairwise_pair.2 (by decide +kernel)
  have hfield : nestedField.Proper :=
    ⟨trivial, ⟨hordered, ⟨by decide, by decide⟩, trivial, trivial⟩, trivial⟩
  have hevent : nestedEvent.Proper :=
    ⟨List.pairwise_singleton .., List.forall_mem_singleton.2 hfield⟩
  have hresults : nestedResults.Proper := by
    constructor
    · exact List.forall_mem_singleton.2 hevent
    · exact nofun
    · intro c hc
      obtain rfl := Option.some.inj hc
      exact List.forall_mem_singleton.2 ⟨by decide, by decide, List.pairwise_singleton ..⟩
  obtain ⟨hback, hback', hback'', hnumbers, -⟩ := comes_back_iff hfield hevent hresults
  have hhalf : ReadsBack (.ofFloat 0.5) :=
    hnumbers (.ofFloat 0.5) ⟨false, 4503599627370496, -53⟩ (by decide +kernel) (.inr (by decide +kernel))
  refine ⟨hback.2 ⟨by decide, ?_⟩, hback'.2 ⟨by decide, ?_⟩, hback''.2 ⟨by decide, ?_⟩⟩
  · exact List.forall_mem_singleton.2 hhalf
  · exact List.forall_mem_singleton.2 hhalf
  · exact List.forall_mem_cons.2 ⟨hhalf, List.forall_mem_singleton.2 hhalf⟩

/-- A number that could not be computed is carried with its error, and is lost on the way. -/
theorem invalid_number_lost :
    (Json.read? (Field.invalidNumber "division by zero").toJson.compact).bind Field.ofJson? = none := by
  have hinvalid : Double.notANumber.isFinite = false := by decide +kernel
  exact Json.read?_bind_eq_none
    (Field.brought_field_none _ 256 ⟨.notANumber, List.mem_singleton_self _, hinvalid⟩)

end LogSearch
