import LogSearch.Number.Binary64
import Mathlib

/-!
# Doubles and their fields

A double is put together from a sign, an exponent and a fraction, and taken apart again by every
operation on it.

* `Finite.Canonical`: the mantissas and exponents that finite doubles have.
* `eq_of_ofFloat`: a finite double is known from its value.
* `Value.ofFloat_eq`: the value, read off the double taken apart.
* `ofFloat_pack_finite`: putting together what has the form of a double keeps its value.
* `ofFloat_neg`: negation is the other sign.
-/

namespace LogSearch.Number

open Float.Model (Format UnpackedFloat)
open Float.Model.UnpackedFloat

/-! ## The form of doubles -/

/-- What the mantissa and the exponent of a double satisfy. -/
structure Finite.Canonical (v : Finite) : Prop where
  mantissa_lt : v.mantissa < 2 * hiddenBit
  exponent_ge : -1074 ≤ v.exponent
  exponent_le : v.exponent ≤ 971
  normal : v.exponent ≠ -1074 → hiddenBit ≤ v.mantissa

/-- The words of finite doubles: the subnormal ones, whose exponent is zero, and the others. -/
theorem Value.ofBits_finite {bits : Nat} {v : Finite} (h : Value.ofBits bits = .finite v) :
    v.negative = decide (signBit ≤ bits) ∧
      (bits / hiddenBit % 2048 = 0 ∧ v.mantissa = bits % hiddenBit ∧ v.exponent = -1074 ∨
        0 < bits / hiddenBit % 2048 ∧ bits / hiddenBit % 2048 < 2047 ∧
          v.mantissa = hiddenBit + bits % hiddenBit ∧
          v.exponent = (bits / hiddenBit % 2048 : Nat) - 1075) := by
  have hexponent : bits / hiddenBit % 2048 < 2048 := Nat.mod_lt _ (by decide)
  simp only [Value.ofBits] at h
  split at h
  · split at h <;> cases h
  · split at h <;> cases h
    next hzero => exact ⟨rfl, .inl ⟨hzero, rfl, rfl⟩⟩
    next => exact ⟨rfl, .inr ⟨by omega, by omega, rfl, rfl⟩⟩

/-- What a word stands for has a mantissa and an exponent of a double. -/
theorem canonical_of_ofBits {bits : Nat} {v : Finite} (h : Value.ofBits bits = .finite v) :
    v.Canonical := by
  have hfraction : bits % hiddenBit < hiddenBit := Nat.mod_lt _ (by decide)
  obtain ⟨-, h | h⟩ := Value.ofBits_finite h <;> constructor <;> omega

/-- The two zeros are the doubles without a mantissa. -/
theorem Finite.Canonical.eq_zero {v : Finite} (h : v.Canonical) (hzero : v.mantissa = 0) :
    v = ⟨v.negative, 0, -1074⟩ := by
  obtain ⟨negative, mantissa, exponent⟩ := v
  obtain rfl : mantissa = 0 := hzero
  obtain rfl : exponent = -1074 := by
    by_contra hne
    have hnormal : hiddenBit ≤ 0 := h.normal hne
    exact absurd hnormal (by decide)
  rfl

/-- Two words that stand for the same finite double are equal. -/
theorem eq_of_ofBits {bits bits' : Nat} {v : Finite} (hlt : bits < 2 * signBit)
    (hlt' : bits' < 2 * signBit) (h : Value.ofBits bits = .finite v)
    (h' : Value.ofBits bits' = .finite v) : bits = bits' := by
  obtain ⟨hs, h⟩ := Value.ofBits_finite h
  obtain ⟨hs', h'⟩ := Value.ofBits_finite h'
  have hsign : signBit ≤ bits ↔ signBit ≤ bits' := by simpa [hs] using hs'
  simp only [hiddenBit, signBit] at *
  omega

/-- A finite double is known from its value. -/
theorem eq_of_ofFloat {x y : Float} {v : Finite} (hx : Value.ofFloat x = .finite v)
    (hy : Value.ofFloat y = .finite v) : x = y :=
  Float.toBits_inj.1
    (UInt64.toNat_inj.1 (eq_of_ofBits (UInt64.toNat_lt _) (UInt64.toNat_lt _) hx hy))

/-! ## Unpacked doubles -/

/-- Whether a sign is a minus. -/
def isNegative : Sign → Bool
  | .negative => true
  | .positive => false

/-- The opposite sign is a minus exactly if the sign is none. -/
@[simp] theorem isNegative_neg (s : Sign) : isNegative (-s) = !isNegative s := by cases s <;> rfl

/-- The value that an unpacked double stands for. -/
def Value.ofUnpacked : UnpackedFloat → Value
  | .infinity s => .infinite (isNegative s)
  | .notANumber => .notANumber
  | .zero s => .finite ⟨isNegative s, 0, -1074⟩
  | .finite s m e _ => .finite ⟨isNegative s, m, e⟩

section Unpacking

variable (b : BitVec Format.binary64.numBits)

/-- The mantissa bits of a word are its last fifty-two. -/
theorem toNat_unpackMantissa : (unpackMantissa b).toNat = b.toNat % hiddenBit := by
  simp [unpackMantissa, BitVec.extractLsb_toNat, hiddenBit]

/-- The exponent bits of a word are the eleven before them. -/
theorem toNat_unpackExponent : (unpackExponent b).toNat = b.toNat / hiddenBit % 2048 := by
  simp [unpackExponent, BitVec.extractLsb_toNat, hiddenBit, Nat.shiftRight_eq_div_pow]

/-- The sign bit of a word is its first one. -/
theorem isNegative_unpackSign :
    isNegative (Sign.ofBitVec (unpackSign b)) = decide (signBit ≤ b.toNat) := by
  have hlt := b.isLt
  have hsign : (unpackSign b).toNat = b.toNat / signBit % 2 := by
    simp [unpackSign, BitVec.extractLsb_toNat, signBit, Nat.shiftRight_eq_div_pow]
  simp only [Sign.ofBitVec, ← BitVec.toNat_inj, hsign, Format.numBits, BitVec.toNat_ofNat] at hlt ⊢
  rw [signBit]
  split <;> simp [isNegative] <;> omega

/-- A word stands for what it is unpacked to. -/
theorem ofUnpacked_unpack : Value.ofUnpacked (unpack .binary64 b) = Value.ofBits b.toNat := by
  have hm := toNat_unpackMantissa b
  have he := toNat_unpackExponent b
  have hs := isNegative_unpackSign b
  have hbias : ((Format.binary64.exponentBias : Nat) : Int) = 1023 := rfl
  have hones : (-1#_ : BitVec Format.binary64.exponentBits).toNat = 2047 := rfl
  have hone : (1#1 ++ unpackMantissa b).toNat = hiddenBit + (unpackMantissa b).toNat := by
    rw [BitVec.toNat_append, ← Nat.shiftLeft_add_eq_or_of_lt (unpackMantissa b).isLt]
    simp [Nat.shiftLeft_eq, hiddenBit]
  simp only [unpack, Value.ofBits, ← BitVec.toNat_inj, hm, he, hones, ← hs]
  split
  · split <;> simp_all [Value.ofUnpacked]
  · split
    · split <;> simp_all [Value.ofUnpacked]
    · simp_all [Value.ofUnpacked]

end Unpacking

/-- A double stands for what it is unpacked to. -/
theorem Value.ofFloat_eq (x : Float) : Value.ofFloat x = Value.ofUnpacked x.toModel.unpack :=
  (ofUnpacked_unpack _).symm

/-! ## Packed doubles -/

/-- A word is packed from its sign, exponent and mantissa bits. -/
theorem toNat_packComponents (s : Sign) (e : BitVec 11) (m : BitVec 52) :
    (packComponents .binary64 s e m).toNat =
      (if isNegative s then signBit else 0) + e.toNat * hiddenBit + m.toNat := by
  have he := e.isLt
  rw [packComponents, BitVec.toNat_append, ← Nat.shiftLeft_add_eq_or_of_lt m.isLt,
    BitVec.toNat_append, ← Nat.shiftLeft_add_eq_or_of_lt e.isLt]
  cases s <;> simp [Sign.toBitVec, isNegative, Nat.shiftLeft_eq, hiddenBit, signBit]
  omega

/-- The value of a word that is put together from its fields. -/
theorem ofBits_packComponents (s : Sign) (e : BitVec 11) (m : BitVec 52) :
    Value.ofBits (packComponents .binary64 s e m).toNat =
      if e.toNat = 2047 then
        if m.toNat = 0 then .infinite (isNegative s) else .notANumber
      else if e.toNat = 0 then .finite ⟨isNegative s, m.toNat, -1074⟩
      else .finite ⟨isNegative s, hiddenBit + m.toNat, (e.toNat : Int) - 1075⟩ := by
  have he : e.toNat < 2048 := e.isLt
  have hm : m.toNat < hiddenBit := m.isLt
  generalize hbits : (packComponents .binary64 s e m).toNat = bits
  rw [toNat_packComponents] at hbits
  generalize e.toNat = e, m.toNat = m at *
  have hfields : (signBit ≤ bits ↔ isNegative s = true) ∧ bits / hiddenBit % 2048 = e ∧
      bits % hiddenBit = m := by
    simp only [hiddenBit, signBit] at *
    cases s <;>
      simp only [isNegative, if_true, Bool.false_eq_true, if_false, iff_true, iff_false] at * <;>
      refine ⟨by omega, by omega, by omega⟩
  obtain ⟨hsign, hexponent, hfraction⟩ := hfields
  simp only [Value.ofBits, hsign, hexponent, hfraction, Bool.decide_eq_true]

/-- A mantissa with its leading bit has fifty-three bits. -/
theorem log2_of_hiddenBit_le {m : Nat} (hlow : hiddenBit ≤ m) (hhigh : m < 2 * hiddenBit) :
    m.log2 = 52 := by
  have hpos : m ≠ 0 := by simp only [hiddenBit] at hlow; omega
  have hge : 52 ≤ m.log2 := (Nat.le_log2 hpos).2 hlow
  have hlt : m.log2 < 53 := (Nat.log2_lt hpos).2 hhigh
  omega

/-- A mantissa without its leading bit has fewer than fifty-three bits. -/
theorem log2_of_lt_hiddenBit {m : Nat} (hpos : 0 < m) (h : m < hiddenBit) : m.log2 < 52 :=
  (Nat.log2_lt hpos.ne').2 h

/-- Packing keeps what has the form of a double. -/
theorem ofFloat_pack_finite {s : Sign} {m : Nat} {e : Int} (hpos : 0 < m)
    (h : Finite.Canonical ⟨isNegative s, m, e⟩) :
    Value.ofFloat (.ofModel (.pack (.finite s m e hpos))) = .finite ⟨isNegative s, m, e⟩ := by
  obtain ⟨hm, hge, hle, hnormal⟩ := h
  simp only at hm hge hle hnormal
  have hbias : (e + (Format.binary64.exponentBias : Int) + (52 : Nat)).toNat = (e + 1075).toNat := by
    change (e + 1023 + 52).toNat = _
    omega
  have hbits : Format.binary64.mantissaBits = 53 := rfl
  change Value.ofBits (UnpackedFloat.pack .binary64 (.finite s m e hpos)).toNat = _
  simp only [UnpackedFloat.pack, hbias, hbits]
  rw [if_neg (by simp; omega)]
  split
  next hlog =>
    have hlow : hiddenBit ≤ m := by
      by_contra hlt
      have := log2_of_lt_hiddenBit hpos (by omega)
      omega
    have hexponent : (BitVec.ofNat 11 (e + 1075).toNat).toNat = (e + 1075).toNat := by
      rw [BitVec.toNat_ofNat, Nat.mod_eq_of_lt (by omega)]
    have hfraction : (BitVec.ofNat 52 m).toNat = m - hiddenBit := by
      simp only [BitVec.toNat_ofNat, hiddenBit] at hlow hm ⊢
      omega
    rw [ofBits_packComponents, hexponent, hfraction, if_neg (by omega), if_neg (by omega)]
    simp only [Value.finite.injEq, Finite.mk.injEq, true_and]
    omega
  next hlog =>
    have hlow : m < hiddenBit := by
      by_contra hge
      exact hlog (by rw [log2_of_hiddenBit_le (by omega) hm])
    obtain rfl : e = -1074 := by
      by_contra hne
      exact absurd (hnormal hne) (by simpa using hlow)
    have hfraction : (BitVec.ofNat 52 m).toNat = m := by
      rw [BitVec.toNat_ofNat]
      exact Nat.mod_eq_of_lt hlow
    rw [ofBits_packComponents, hfraction]
    rfl

/-- Infinity comes back from its word with its sign. -/
theorem ofFloat_pack_infinity (s : Sign) :
    Value.ofFloat (.ofModel (.pack (.infinity s))) = .infinite (isNegative s) := by
  cases s <;> decide

/-- What is no number comes back from its word. -/
theorem ofFloat_pack_notANumber : Value.ofFloat (.ofModel (.pack .notANumber)) = .notANumber := by
  decide

/-- Zero comes back from its word with its sign. -/
theorem ofFloat_pack_zero (s : Sign) :
    Value.ofFloat (.ofModel (.pack (.zero s))) = .finite ⟨isNegative s, 0, -1074⟩ := by
  cases s <;> decide

/-- An unpacked double that is a number or infinite, without a minus sign. -/
def IsPositive : UnpackedFloat → Prop
  | .notANumber => False
  | .infinity s => s = .positive
  | .zero s => s = .positive
  | .finite s _ _ _ => s = .positive

/-- What is positive unpacked comes back without a sign, as a number or infinite. -/
theorem IsPositive.ofFloat_pack {u : UnpackedFloat} (h : IsPositive u) :
    Value.ofFloat (.ofModel (.pack u)) = .infinite false ∨
      ∃ v : Finite, Value.ofFloat (.ofModel (.pack u)) = .finite v ∧ v.negative = false := by
  cases u with
  | notANumber => exact h.elim
  | infinity s => exact .inl (by rw [ofFloat_pack_infinity, h]; rfl)
  | zero s => exact .inr ⟨_, ofFloat_pack_zero s, by rw [h]; rfl⟩
  | finite s m e hpos =>
    obtain rfl : s = .positive := h
    change Value.ofBits (UnpackedFloat.pack .binary64 (.finite .positive m e hpos)).toNat = _ ∨
      ∃ v : Finite, Value.ofBits (UnpackedFloat.pack .binary64 (.finite .positive m e hpos)).toNat =
        _ ∧ _
    simp only [UnpackedFloat.pack]
    split
    next => exact .inl ((ofBits_packComponents ..).trans rfl)
    next hexponent =>
      split
      · have hne : (BitVec.ofNat 11 (e + Format.binary64.exponentBias + (52 : Nat)).toNat).toNat ≠
            2047 := by
          rw [BitVec.toNat_ofNat]
          simp only [not_le] at hexponent
          omega
        rw [ofBits_packComponents, if_neg hne]
        split <;> exact .inr ⟨_, rfl, rfl⟩
      · exact .inr ⟨_, (ofBits_packComponents ..).trans rfl, rfl⟩

/-! ## Negation -/

/-- The value with the other sign. -/
def Value.neg : Value → Value
  | .finite v => .finite { v with negative := !v.negative }
  | .infinite negative => .infinite !negative
  | .notANumber => .notANumber

/-- The negative of a double stands for the value with the other sign. -/
theorem ofFloat_neg (x : Float) : Value.ofFloat (-x) = (Value.ofFloat x).neg := by
  change Value.ofFloat (.ofModel (.pack x.toModel.unpack.neg)) = _
  have hx := Value.ofFloat_eq x
  rw [hx]
  cases hu : x.toModel.unpack with
  | notANumber => exact ofFloat_pack_notANumber
  | infinity s => simp [UnpackedFloat.neg, ofFloat_pack_infinity, Value.ofUnpacked, Value.neg]
  | zero s => simp [UnpackedFloat.neg, ofFloat_pack_zero, Value.ofUnpacked, Value.neg]
  | finite s m e hpos =>
    rw [hu] at hx
    have hc := canonical_of_ofBits hx
    exact (ofFloat_pack_finite (s := -s) hpos ⟨hc.1, hc.2, hc.3, hc.4⟩).trans
      (by simp [Value.ofUnpacked, Value.neg])

end LogSearch.Number
