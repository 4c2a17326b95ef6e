import LogSearch.Config
import LogSearch.Proofs.Pipeline.ChartPlans
import LogSearch.Regex.Program
import Mathlib.Algebra.Order.Ring.Int

/-!
# How long a duration lasts

A duration is an amount of a unit, and the milliseconds are held within sixty-four bits. The amount is
any unsigned word, but it counts as a signed one: those in the upper half stand for less than nothing.

* `TimeSpan.Spells`, `TimeSpan.ofText?_eq_some_iff`: the texts that write a duration.
* `TimeSpan.Fits`: amounts in the lower half of the words.
* `TimeSpan.millis_of_fits`, `TimeSpan.millis_of_not_fits`: what the two halves last.
* `TimeSpan.lasts_as_written_iff`: durations, the look-back of configurations and the buckets of charts
  are as written for the amounts that fit, and for no others.
-/

namespace LogSearch

/-- A unit lasts a second at least. -/
theorem SpanUnit.millis_ge (unit : SpanUnit) : 1000 ≤ unit.millis := by cases unit <;> decide

namespace TimeSpan

open Number (int64Min int64Max)

/-! ## Texts that write a duration -/

/-- Digits that write an amount, and the letter of a unit right behind them; blanks around both are
allowed. -/
def Spells (text : String) (amount : ℕ) (unit : SpanUnit) : Prop :=
  ∃ digits, Text.trim text.toList = digits ++ [unit.letter] ∧ digits ≠ [] ∧
    digits.all Number.isDigit = true ∧ Number.ofDigits digits = amount

/-- Each unit has one letter, and each letter one unit. -/
theorem ofLetter?_eq_some_iff {c : Char} {unit : SpanUnit} :
    SpanUnit.ofLetter? c = some unit ↔ c = unit.letter := by
  constructor
  · intro h
    have hletter := List.find?_some (p := fun u : SpanUnit => decide (u.letter = c)) h
    exact (of_decide_eq_true hletter).symm
  · rintro rfl
    cases unit <;> rfl

/-- The durations that are read are those that the text writes, of amounts that are not zero. -/
theorem ofText?_eq_some_iff {text : String} {s : TimeSpan} :
    ofText? text = some s ↔ Spells text s.amount.toNat s.unit ∧ 1 ≤ s.amount.toNat := by
  obtain ⟨amount, unit⟩ := s
  have hmax := amount.toNat_lt
  constructor
  · intro h
    unfold ofText? at h
    dsimp only at h
    split at h
    · cases h
    next read hread =>
      split at h
      · cases h
      next hdigits =>
        obtain ⟨c, hlast, hletter⟩ := Option.bind_eq_some_iff.1 hread
        obtain ⟨digits, hcs⟩ := List.getLast?_eq_some_iff.1 hlast
        rw [hcs, List.dropLast_concat] at hdigits h
        obtain ⟨rfl, rfl⟩ : _ = amount ∧ read = unit := by simpa using h
        obtain rfl := ofLetter?_eq_some_iff.1 hletter
        simp only [Bool.or_eq_true, List.isEmpty_iff, Bool.not_eq_true', decide_eq_true_eq, not_or,
          Bool.not_eq_false, Nat.not_lt] at hdigits
        obtain ⟨⟨⟨hne, hall⟩, hzero⟩, hle⟩ := hdigits
        have hamount : (Number.ofDigits digits).toUInt64.toNat = Number.ofDigits digits :=
          UInt64.toNat_ofNat_of_lt' (Nat.lt_succ_of_le hle)
        rw [hamount]
        exact ⟨⟨digits, hcs, hne, hall, rfl⟩, Nat.one_le_iff_ne_zero.2 hzero⟩
  · rintro ⟨⟨digits, hcs, hne, hall, hamount⟩, hpos⟩
    have hunit : (some unit.letter).bind SpanUnit.ofLetter? = some unit :=
      ofLetter?_eq_some_iff.2 rfl
    have hword : amount.toNat.toUInt64 = amount := UInt64.ofNat_toNat
    simp only at hpos
    have hle : ¬ Number.countMax < amount.toNat := by
      simp only [Number.countMax]
      omega
    unfold ofText?
    simp only [hcs, List.getLast?_concat, hunit, List.dropLast_concat, hamount, hall, hword]
    simp [hne, hle, Nat.ne_of_gt hpos]

/-! ## Milliseconds -/

/-- Whether the amount is below half of the words. -/
def Fits (s : TimeSpan) : Prop := s.amount.toNat < 2 ^ 63

instance (s : TimeSpan) : Decidable s.Fits := inferInstanceAs (Decidable (_ < _))

/-- The milliseconds that are written, without a bound. -/
def writtenMillis (s : TimeSpan) : ℤ := (s.amount.toNat : ℤ) * s.unit.millis

variable {s t : TimeSpan}

/-- An amount below half of the words keeps its value as a signed one. -/
theorem toInt_of_fits (h : s.Fits) : s.amount.toInt64.toInt = s.amount.toNat := by
  unfold Fits at h
  rw [← Int64.toInt_toBitVec, UInt64.toBitVec_toInt64, BitVec.toInt_eq_toNat_cond,
    UInt64.toNat_toBitVec, if_pos (by omega)]

/-- An amount in the other half loses all words, and is negative. -/
theorem toInt_of_not_fits (h : ¬ s.Fits) : s.amount.toInt64.toInt = s.amount.toNat - 2 ^ 64 := by
  unfold Fits at h
  rw [← Int64.toInt_toBitVec, UInt64.toBitVec_toInt64, BitVec.toInt_eq_toNat_cond,
    UInt64.toNat_toBitVec, if_neg (by omega)]
  rfl

/-- An amount that fits lasts as long as is written, up to the greatest word. -/
theorem millis_of_fits (h : s.Fits) : s.millis = min s.writtenMillis int64Max := by
  have hlow : int64Min ≤ min s.writtenMillis int64Max := by
    have hwritten : 0 ≤ s.writtenMillis :=
      Int.mul_nonneg (Int.natCast_nonneg _) (by have := s.unit.millis_ge; omega)
    unfold int64Min int64Max
    omega
  rw [millis, toInt_of_fits h, Number.clamp64, Number.clamp, min_comm]
  exact max_eq_right hlow

/-- What is written is a second at least. -/
theorem bounded_ge (hpos : 1 ≤ s.amount.toNat) : 1000 ≤ min s.writtenMillis int64Max := by
  have hwritten : 1 * 1000 ≤ s.writtenMillis :=
    Int.mul_le_mul (by omega) s.unit.millis_ge (by decide) (Int.natCast_nonneg _)
  unfold int64Max
  omega

/-- An amount that does not fit is short of a whole turn of the words, and lasts less than nothing. -/
theorem millis_of_not_fits (h : ¬ s.Fits) :
    s.millis = max int64Min ((s.amount.toNat - 2 ^ 64) * s.unit.millis) ∧ s.millis < 0 := by
  have hneg : ((s.amount.toNat : ℤ) - 2 ^ 64) * s.unit.millis < 0 := by
    apply Int.mul_neg_of_neg_of_pos
    · have := s.amount.toNat_lt
      omega
    · have := s.unit.millis_ge
      omega
  have hhigh : min int64Max (((s.amount.toNat : ℤ) - 2 ^ 64) * s.unit.millis) =
      (s.amount.toNat - 2 ^ 64) * s.unit.millis :=
    min_eq_right (by unfold int64Max; omega)
  rw [millis, toInt_of_not_fits h, Number.clamp64, Number.clamp, hhigh]
  exact ⟨rfl, by unfold int64Min; omega⟩

/-- A span is positive exactly when its amount fits. -/
theorem millis_pos_iff (hpos : 1 ≤ s.amount.toNat) : 0 < s.millis ↔ s.Fits := by
  constructor
  · intro h
    by_contra hfits
    have := (millis_of_not_fits hfits).2
    omega
  · intro hfits
    rw [millis_of_fits hfits]
    have := bounded_ge hpos
    omega

/-- A span lasts as long as it is written, up to the longest one, exactly when its amount fits. -/
theorem millis_eq_iff (hpos : 1 ≤ s.amount.toNat) :
    s.millis = min s.writtenMillis int64Max ↔ s.Fits := by
  refine ⟨fun h => (millis_pos_iff hpos).1 ?_, millis_of_fits⟩
  have := bounded_ge hpos
  omega

/-- The buckets of a chart are a millisecond long at least; this does not help an amount that does not
fit. -/
theorem width_eq_iff (hpos : 1 ≤ s.amount.toNat) :
    max 1 s.millis = min s.writtenMillis int64Max ↔ s.Fits := by
  rw [← millis_eq_iff hpos]
  have := bounded_ge hpos
  omega

/-- More of a unit does not last less, unless the amount stops fitting. -/
theorem millis_le_iff (hpos : 1 ≤ s.amount.toNat) (hunit : s.unit = t.unit)
    (hle : s.amount.toNat ≤ t.amount.toNat) : s.millis ≤ t.millis ↔ (s.Fits → t.Fits) := by
  have hmul : ∀ a b : ℤ, a ≤ b → a * s.unit.millis ≤ b * t.unit.millis := fun a b hab =>
    hunit ▸ Int.mul_le_mul_of_nonneg_right hab (by have := s.unit.millis_ge; omega)
  by_cases hs : s.Fits
  · by_cases ht : t.Fits
    · rw [millis_of_fits hs, millis_of_fits ht]
      exact iff_of_true (min_le_min_right _ (hmul _ _ (by omega))) fun _ => ht
    · have := (millis_of_not_fits ht).2
      have := (millis_pos_iff hpos).2 hs
      exact iff_of_false (by omega) fun h => ht (h hs)
  · have ht : ¬ t.Fits := fun ht => hs (Nat.lt_of_le_of_lt hle ht)
    rw [(millis_of_not_fits hs).1, (millis_of_not_fits ht).1]
    exact iff_of_true (max_le_max_left _ (hmul _ _ (by omega))) fun h => absurd h hs

end TimeSpan

/-! ## Where durations are used -/

/-- The configuration that is there without a file passes its own check. -/
theorem Config.check_default : Config.default.check = .ok () := by rfl

/-- A configuration from a text makes sense. -/
theorem Config.check_of_parse {text : String} {c : Config} (h : parse text = .ok c) :
    c.check = .ok () := by
  unfold parse at h
  split at h
  · cases h
  · obtain ⟨_, hcheck, h⟩ := bind_eq_ok.1 h
    cases h
    exact hcheck

/-- A configuration from a file makes sense, and so do the defaults. -/
theorem Config.check_of_load {files : Files} {path : String} {c : Config}
    (h : load files path = .ok c) : c.check = .ok () := by
  unfold load at h
  split at h
  · cases h
    exact check_default
  · split at h
    · exact check_of_parse h
    · cases h

/-- The look-back of a configuration that makes sense is a duration. -/
theorem Config.lookBack_of_check {c : Config} (h : c.check = .ok ()) :
    ∃ s, TimeSpan.ofText? c.engine.lookBack = some s ∧ c.engine.lookBackMillis = .ok s.millis := by
  obtain ⟨millis, hmillis, -⟩ := bind_eq_ok.1 h
  unfold EngineConfig.lookBackMillis at hmillis ⊢
  split at hmillis
  next s hs => exact ⟨s, hs, rfl⟩
  · cases hmillis

/-! ## Durations as written -/

open Number (int64Min int64Max) in
/-- A duration that is read lasts as long as is written, up to the greatest word, if and only if its
amount is below half of the words; so far it lasts more than nothing and grows with the amount. The other
amounts last less than nothing. It is the same for the buckets of a chart, which are a millisecond long
then, and for the look-back of any configuration that was accepted. -/
theorem TimeSpan.lasts_as_written_iff [Regex.Library] [Machine] {text : String} {s : TimeSpan}
    (h : ofText? text = some s) :
    (Spells text s.amount.toNat s.unit ∧ 1 ≤ s.amount.toNat) ∧
    (s.millis = min s.writtenMillis int64Max ↔ s.amount.toNat < 2 ^ 63) ∧
    (0 < s.millis ↔ s.amount.toNat < 2 ^ 63) ∧
    (2 ^ 63 ≤ s.amount.toNat →
      s.millis = max int64Min ((s.amount.toNat - 2 ^ 64) * s.unit.millis) ∧ s.millis < 0) ∧
    (∀ other (t : TimeSpan), ofText? other = some t → s.unit = t.unit →
      s.amount.toNat ≤ t.amount.toNat →
        (s.millis ≤ t.millis ↔ (s.amount.toNat < 2 ^ 63 → t.amount.toNat < 2 ^ 63))) ∧
    (∃ width : ℤ,
      (∀ timeColumn maxGroups calls groupBy range before,
        (Stage.timeChart (some s) timeColumn maxGroups calls groupBy).apply range before =
          ((TimeChart.Plan.mk range width (timeColumn.getD timeField)
            (maxGroups.getD TimeChart.defaultGroups) calls groupBy).draw before.rows).map
              fun drawn => ⟨before.events, some drawn.1, some drawn.2⟩) ∧
      (width = min s.writtenMillis int64Max ↔ s.amount.toNat < 2 ^ 63) ∧
      (2 ^ 63 ≤ s.amount.toNat → width = 1)) ∧
    (∀ described c, Config.parse described = .ok c → c.check = .ok ()) ∧
    (∀ files path c, Config.load files path = .ok c → c.check = .ok ()) ∧
    ∀ c : Config, c.check = .ok () → ∃ back, ofText? c.engine.lookBack = some back ∧
      c.engine.lookBackMillis = .ok back.millis ∧ (0 < back.millis ↔ back.amount.toNat < 2 ^ 63) := by
  obtain ⟨hspells, hpos⟩ := ofText?_eq_some_iff.1 h
  refine ⟨⟨hspells, hpos⟩, millis_eq_iff hpos, millis_pos_iff hpos,
    fun hhalf => millis_of_not_fits (Nat.not_lt.2 hhalf), fun other t _ hunit hle => ?_,
    ⟨max 1 s.millis, fun _ _ _ _ _ _ => apply_timeChart_eq, width_eq_iff hpos, fun hhalf => ?_⟩,
    fun _ _ => Config.check_of_parse, fun _ _ _ => Config.check_of_load, fun c hcheck => ?_⟩
  · exact millis_le_iff hpos hunit hle
  · have := (millis_of_not_fits (Nat.not_lt.2 hhalf)).2
    exact max_eq_left (by omega)
  · obtain ⟨back, hback, hmillis⟩ := Config.lookBack_of_check hcheck
    exact ⟨back, hback, hmillis, millis_pos_iff (ofText?_eq_some_iff.1 hback).2⟩

attribute [local instance] Regex.standard Machine.stopping

/-- Five minutes are read and last as long. -/
theorem TimeSpan.five_minutes_as_written :
    ofText? " 5m" = some ⟨5, .minutes⟩ ∧ (⟨5, .minutes⟩ : TimeSpan).amount.toNat < 2 ^ 63 ∧
      (⟨5, .minutes⟩ : TimeSpan).millis = 300000 := by
  have hread : ofText? " 5m" = some ⟨5, .minutes⟩ := by decide +kernel
  have hfits : (⟨5, .minutes⟩ : TimeSpan).amount.toNat < 2 ^ 63 := by decide +kernel
  obtain ⟨-, hmillis, -⟩ := TimeSpan.lasts_as_written_iff hread
  exact ⟨hread, hfits, (hmillis.2 hfits).trans (by decide +kernel)⟩

/-- The first amount that does not fit is read, and so is a configuration that looks back by it; both
last less than nothing. -/
theorem TimeSpan.upper_half_lasts_less :
    ∃ s, ofText? "9223372036854775808s" = some s ∧ s.amount.toNat = 9223372036854775808 ∧
      min s.writtenMillis Number.int64Max = 9223372036854775807 ∧
      s.millis = -9223372036854775808 ∧
      ∃ c : Config, c.engine.lookBack = "9223372036854775808s" ∧ c.check = .ok () ∧
        c.engine.lookBackMillis = .ok (-9223372036854775808) := by
  refine ⟨⟨9223372036854775808, .seconds⟩, by decide +kernel, by decide +kernel, by decide +kernel,
    by decide +kernel, ⟨⟨5000, 100, "9223372036854775808s"⟩, [], []⟩, rfl, by decide +kernel,
    by decide +kernel⟩

end LogSearch
