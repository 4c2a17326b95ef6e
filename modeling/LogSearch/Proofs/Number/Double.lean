import LogSearch.Number.Machine
import LogSearch.Proofs.Number.Packing

/-!
# Words of doubles

Below its sign bit, the word of a double is told by what it stands for, except that what is no number
can have any fraction. So a double that is a number or infinite is known from its value, and the way
through `Float` leads back to it.

* `Double.word_eq`: the word below the sign bit.
* `Double.value_toFloat`: a `Float` stands for the same.
* `Double.ofFloat_toFloat`: back from `Float`.
-/

namespace LogSearch

open Number

/-- The word of a finite double without its sign bit. -/
def Number.Finite.word (v : Finite) : Int := (v.exponent + 1074) * hiddenBit + v.mantissa

namespace Double

variable {x y : Double}

/-! ## The word below the sign -/

/-- The word of a double without its sign bit, told by what it stands for. -/
def word (x : Double) : Int :=
  match x.value with
  | .finite v => v.word
  | .infinite _ => 2047 * hiddenBit
  | .notANumber => 2047 * hiddenBit + x.fraction

/-- A finite double has the sign of its word. -/
theorem negative_of_finite {v : Finite} (h : x.value = .finite v) : v.negative = x.isNegative :=
  (Value.ofBits_finite h).1

/-- The words of what is not finite have the greatest exponent. -/
theorem fields_of_not_finite (h : ∀ v, x.value ≠ .finite v) :
    x.bits.toNat / hiddenBit % 2048 = 2047 ∧
      x.value = if x.fraction = 0 then .infinite x.isNegative else .notANumber := by
  simp only [value, Value.ofBits] at h ⊢
  split
  · next he => exact ⟨he, rfl⟩
  · next he =>
    rw [if_neg he] at h
    split at h <;> exact absurd rfl (h _)

/-- An infinity has the sign of its word. -/
theorem negative_of_infinite {negative : Bool} (h : x.value = .infinite negative) :
    negative = x.isNegative := by
  obtain ⟨-, hx⟩ := fields_of_not_finite (x := x) fun v hv => by simp [hv] at h
  rw [h] at hx
  split at hx
  · exact Value.infinite.inj hx
  · cases hx

/-- What is no number has a fraction, by which it differs from the infinities. -/
theorem fraction_pos (h : x.value = .notANumber) : 0 < x.fraction := by
  obtain ⟨-, hx⟩ := fields_of_not_finite (x := x) fun v hv => by simp [hv] at h
  rw [h] at hx
  split at hx
  · cases hx
  · omega

/-- Every double has the word that its value tells, below its sign bit. -/
theorem word_eq (x : Double) : x.word = (x.bits.toNat % signBit : Nat) := by
  have hlt := x.bits.toNat_lt
  unfold word
  cases hx : x.value with
  | finite v =>
    obtain ⟨-, hfields⟩ := Value.ofBits_finite hx
    simp only [Finite.word, hiddenBit, signBit] at *
    omega
  | infinite negative =>
    obtain ⟨he, hvalue⟩ := fields_of_not_finite (x := x) (by simp [hx])
    have hfraction : x.fraction = 0 := by
      by_contra hne
      rw [hx, if_neg hne] at hvalue
      cases hvalue
    simp only [fraction, hiddenBit, signBit] at *
    omega
  | notANumber =>
    obtain ⟨he, -⟩ := fields_of_not_finite (x := x) (by simp [hx])
    simp only [fraction, hiddenBit, signBit] at *
    omega

/-- A double is its sign and the word below it. -/
theorem eq_of_word (hsign : x.isNegative = y.isNegative) (hword : x.word = y.word) : x = y := by
  have hx := x.bits.toNat_lt
  have hy := y.bits.toNat_lt
  have hsign : signBit ≤ x.bits.toNat ↔ signBit ≤ y.bits.toNat := decide_eq_decide.1 hsign
  rw [word_eq, word_eq] at hword
  have hbits : x.bits.toNat = y.bits.toNat := by
    simp only [signBit] at *
    omega
  exact congrArg Double.mk (UInt64.toNat_inj.1 hbits)

/-- A double that is a number or infinite is known from its value. -/
theorem eq_of_value (h : x.value = y.value) (hx : x.value ≠ .notANumber) : x = y := by
  cases hvalue : x.value with
  | finite v =>
    rw [hvalue] at h
    refine eq_of_word ?_ ?_
    · rw [← negative_of_finite hvalue, ← negative_of_finite h.symm]
    · rw [word, word, hvalue, ← h]
  | infinite negative =>
    rw [hvalue] at h
    refine eq_of_word ?_ ?_
    · rw [← negative_of_infinite hvalue, ← negative_of_infinite h.symm]
    · rw [word, word, hvalue, ← h]
  | notANumber => exact absurd hvalue hx

/-! ## The way through `Float` -/

/-- As a `Float` a double stands for the same. -/
theorem value_toFloat (x : Double) : Value.ofFloat x.toFloat = x.value := by
  have hx : Value.ofUnpacked (.unpack .binary64 x.bits.toBitVec) = x.value := ofUnpacked_unpack _
  change Value.ofFloat (.ofModel (.pack (.unpack .binary64 x.bits.toBitVec))) = _
  rw [← hx]
  cases hu : Float.Model.UnpackedFloat.unpack .binary64 x.bits.toBitVec with
  | notANumber => exact ofFloat_pack_notANumber
  | infinity s => exact ofFloat_pack_infinity s
  | zero s => exact ofFloat_pack_zero s
  | finite s m e hpos =>
    rw [hu] at hx
    exact ofFloat_pack_finite hpos (canonical_of_ofBits hx.symm)

/-- The word of a double stands for the same value. -/
@[simp] theorem value_ofFloat (x : Float) : (ofFloat x).value = Value.ofFloat x := rfl

/-- A double comes back from its word. -/
@[simp] theorem toFloat_ofFloat (x : Float) : (ofFloat x).toFloat = x := Float.ofBits_toBits x

/-- The word that is no number is none. -/
@[simp] theorem isNaN_notANumber : notANumber.isNaN = true := by
  decide +kernel

/-- What is a number or infinite comes back from `Float`. -/
theorem ofFloat_toFloat (h : x.value ≠ .notANumber) : ofFloat x.toFloat = x :=
  eq_of_value (value_toFloat x) (by rwa [value_ofFloat, value_toFloat])

/-! ## Arithmetic -/

section

variable [Machine] {op : Computation} {operands : List Double} {z : Float}

/-- A result that is a number is the same on all machines. -/
theorem result_of_number (h : z.isNaN = false) : result op operands z = ofFloat z := by
  rw [result, h, if_neg Bool.false_ne_true]

end

end Double

end LogSearch
