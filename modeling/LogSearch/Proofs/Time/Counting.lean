import LogSearch.Proofs.Time.Range

/-!
# Counting spans in words

A machine counts the spans that cover a length in words. It counts them right as long as the length and
the span together fit in a word; where words wrap around, the sum may be one more, since one is taken
away from it again. With any greater sum the count stops the program or comes out below one.

* `Machine.greatestSum`: up to where a machine counts right.
* `TimeRange.parts?_of_le`, `TimeRange.parts?_nonpos`: what it counts up to there, and beyond.
* `TimeRange.counted?_of_fits`: the spans of a range.
-/

namespace LogSearch

open Number (int64Min int64Max)

namespace Machine

variable {n : Int}

/-- What fits in a word does not wrap around. -/
theorem wrap_of_fits (h : Fits n) : wrap n = n := by
  obtain ⟨hlow, hhigh⟩ := h
  unfold wrap int64Min int64Max at *
  rw [Int.bmod_def]
  split <;> omega

/-- Beyond the greatest word the least ones follow. -/
theorem wrap_of_gt (hlow : int64Max < n) (hhigh : n ≤ 2 * int64Max + 1) :
    wrap n = n - 18446744073709551616 := by
  unfold wrap int64Max at *
  rw [Int.bmod_def]
  split <;> omega

/-- A list is made for as many items as there are, if there is room for them. -/
theorem capacity_eq_some_iff {size count : Nat} :
    capacity size n = some count ↔ n = count ∧ size * n ≤ int64Max := by
  unfold capacity
  split
  · rw [Option.some_inj]
    omega
  · refine iff_of_false nofun fun hcount => ?_
    omega

variable [Machine]

/-- The greatest sum of a length and a span of which the spans are counted right. -/
def greatestSum : Int := if checked then int64Max else int64Max + 1

/-- Sums that fit in a word are no greater. -/
theorem le_greatestSum : int64Max ≤ greatestSum := by
  unfold greatestSum
  split <;> omega

/-- What fits in a word is not changed. -/
theorem word_of_fits (h : Fits n) : word n = some n := if_pos h

/-- What does not fit wraps around if it does not stop the program. -/
theorem eq_wrap_of_word {m : Int} (h : ¬Fits n) (hm : m ∈ word n) : m = wrap n ∧ checked = false := by
  rw [Option.mem_def, word, if_neg h] at hm
  split at hm
  · cases hm
  · next hchecked => exact ⟨(Option.some.inj hm).symm, Bool.eq_false_iff.2 hchecked⟩

/-- One taken away from a sum up to the greatest one is right, also where the sum wraps around. -/
theorem word_sub_one (hpos : 0 < n) (h : n ≤ greatestSum) :
    ((word n).bind fun sum => word (sum - 1)) = some (n - 1) := by
  have hlow : int64Min < 0 := by decide
  by_cases hfits : n ≤ int64Max
  · rw [word_of_fits ⟨by omega, hfits⟩, Option.bind_some, word_of_fits ⟨by omega, by omega⟩]
  · unfold greatestSum at h
    split at h
    · exact absurd h hfits
    · next hchecked =>
      -- The sum is the least word, and one less than that the greatest.
      obtain rfl : n = int64Max + 1 := by omega
      have hsum : word (int64Max + 1) = some int64Min := by
        rw [word, if_neg (by decide), if_neg hchecked]
        rfl
      rw [hsum, Option.bind_some, word, if_neg (by decide), if_neg hchecked]
      rfl

/-- One taken away from a greater sum is a negative word, if the program does not stop. -/
theorem word_sub_one_of_gt (hhigh : n ≤ 2 * int64Max) (h : greatestSum < n) :
    ∀ last ∈ (word n).bind fun sum => word (sum - 1), last = n - 1 - 18446744073709551616 := by
  intro last hlast
  have hmin : int64Min = -int64Max - 1 := rfl
  have hmax : int64Max = 9223372036854775807 := rfl
  have hle := le_greatestSum
  obtain ⟨sum, hsum, hlast⟩ := Option.bind_eq_some_iff.1 hlast
  obtain ⟨rfl, hchecked⟩ := eq_wrap_of_word (fun hfits => by have := hfits.2; omega) hsum
  have hgt : int64Max + 1 < n := by simpa [greatestSum, hchecked] using h
  rw [wrap_of_gt (by omega) (by omega), word_of_fits ⟨by omega, by omega⟩] at hlast
  have := Option.some.inj hlast
  omega

end Machine

namespace TimeRange

variable [Machine] {length span : Int}

/-- Of nothing there are no parts. -/
theorem parts?_of_nonpos (h : length ≤ 0) : parts? length span = some 0 := if_pos h

/-- The parts of a length are the quotient of the sum. -/
theorem parts?_of_pos (h : 0 < length) : parts? length span =
    ((Machine.word (length + span)).bind fun sum => Machine.word (sum - 1)).map (·.tdiv span) := by
  rw [parts?, if_neg (Int.not_le.2 h), Option.map_bind]
  simp only [Function.comp_def, Option.map_eq_bind]
  rfl

/-- Parts are counted right up to the greatest sum. -/
theorem parts?_of_le (hspan : 0 < span) (h : 0 < length → length + span ≤ Machine.greatestSum) :
    parts? length span = some (parts length span : Int) := by
  rcases le_or_gt length 0 with hnonpos | hpos
  · rw [parts?_of_nonpos hnonpos, parts, if_pos hnonpos]
    rfl
  · have hquotient : 0 ≤ (length + span - 1) / span := Int.ediv_nonneg (by omega) hspan.le
    rw [parts?_of_pos hpos, Machine.word_sub_one (by omega) (h hpos), Option.map_some,
      Int.tdiv_eq_ediv_of_nonneg (by omega), parts, if_neg (Int.not_le.2 hpos),
      Int.toNat_of_nonneg hquotient]

/-- Beyond it there are none, or the count stops the program. -/
theorem parts?_nonpos (hpos : 0 < span) (hlength : length ≤ int64Max) (hspan : span ≤ int64Max)
    (h : Machine.greatestSum < length + span) : ∀ n ∈ parts? length span, n ≤ 0 := by
  intro n hn
  rcases le_or_gt length 0 with hnonpos | hlow
  · rw [parts?_of_nonpos hnonpos] at hn
    exact (Option.some.inj hn).symm.le
  rw [parts?_of_pos hlow] at hn
  obtain ⟨last, hlast, rfl⟩ := Option.map_eq_some_iff.1 hn
  have hlast := Machine.word_sub_one_of_gt (by omega) h last hlast
  have hmax : int64Max = 9223372036854775807 := rfl
  have hquotient : 0 ≤ (-last).tdiv span := Int.tdiv_nonneg (by omega) hpos.le
  rw [Int.neg_tdiv] at hquotient
  omega

/-- The spans of a range are counted right if its length fits in a word, and with the span as well. -/
theorem counted?_of_fits {r : TimeRange} (hspan : 0 < span) (hlength : Machine.Fits r.length)
    (h : 0 < r.length → r.length + span ≤ Machine.greatestSum) :
    r.counted? span = some (parts r.length span : Int) := by
  rw [counted?, Machine.word_of_fits hlength]
  exact parts?_of_le hspan h

/-- The spans of a range between two words are counted right just where its length fits in a word, and
together with the span comes to no more than the greatest sum. -/
theorem counted?_eq_iff {r : TimeRange} (hspan : 0 < span) (hspan' : span ≤ int64Max)
    (hstart : Machine.Fits r.start) (hstop : Machine.Fits r.stop) (hr : r.start < r.stop) :
    r.counted? span = some (parts r.length span : Int) ↔
      Machine.Fits r.length ∧ r.length + span ≤ Machine.greatestSum := by
  have hlength : r.length = r.stop - r.start := rfl
  have hparts : 0 < parts r.length span := (lt_parts_iff hspan).2 (by simpa [hlength] using hr)
  refine ⟨fun h => ?_, fun h => counted?_of_fits hspan h.1 fun _ => h.2⟩
  obtain ⟨length, hword, h⟩ := Option.bind_eq_some_iff.1 h
  by_cases hfits : Machine.Fits r.length
  · rw [Machine.word_of_fits hfits] at hword
    obtain rfl := Option.some.inj hword
    refine ⟨hfits, ?_⟩
    by_contra hsum
    have := parts?_nonpos hspan hfits.2 hspan' (Int.not_le.1 hsum) _ h
    omega
  · -- A length that wraps around is negative, and has no spans.
    obtain ⟨rfl, -⟩ := Machine.eq_wrap_of_word hfits hword
    have hmin : int64Min = -int64Max - 1 := rfl
    have hmax : int64Max = 9223372036854775807 := rfl
    obtain ⟨hstart, -⟩ := hstart
    obtain ⟨-, hstop⟩ := hstop
    have hgt : int64Max < r.length := by
      by_contra hle
      exact hfits ⟨by omega, by omega⟩
    rw [Machine.wrap_of_gt hgt (by omega), parts?_of_nonpos (by omega)] at h
    have := Option.some.inj h
    omega

end TimeRange

end LogSearch
