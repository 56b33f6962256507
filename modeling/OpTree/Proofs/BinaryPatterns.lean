/-
Floating-point patterns, read and written back. A pattern has three fields: a sign, an
exponent and a fraction. What a pattern denotes is written back as that pattern
(`encode_decode`), whatever the widths of the fields: a number of which the unit is that
of its pattern is not rounded. The patterns of NaN are the exception, since all of them
denote one thing; but floating-point values keep one of them only, and it is the one that
is written. So a floating-point value is got back from the number it denotes.

The lemmas that say how packed values are unpacked (`unpackExponent_def`, `unpackMantissa_def`)
come with Mathlib as a whole, and with none of its parts.
-/
import Mathlib
import OpTree.Number.Binary

namespace OpTree

-- Powers of numbers are the recursive ones, whatever other instances are in scope.
attribute [local instance (high)] instPowNat

namespace BinaryLayout

variable {l : BinaryLayout} {bits : Nat}

/-! ## Fields -/

def fraction (l : BinaryLayout) (bits : Nat) : Nat := bits % 2 ^ l.fractionBits

def exponent (l : BinaryLayout) (bits : Nat) : Nat :=
  bits / 2 ^ l.fractionBits % 2 ^ l.exponentBits

def negative (l : BinaryLayout) (bits : Nat) : Bool :=
  bits / 2 ^ (l.fractionBits + l.exponentBits) % 2 == 1

theorem decode_eq (l : BinaryLayout) (bits : Nat) : l.decode bits =
    if l.exponent bits = 2 ^ l.exponentBits - 1 then
      if l.fraction bits = 0 then .infinite (l.negative bits) else .nan
    else if l.exponent bits = 0 then .finite (l.negative bits) (l.fraction bits) l.leastExponent
    else .finite (l.negative bits) (2 ^ l.fractionBits + l.fraction bits)
      (l.leastExponent + (l.exponent bits - 1)) := rfl

theorem fraction_lt (l : BinaryLayout) (bits : Nat) : l.fraction bits < 2 ^ l.fractionBits :=
  Nat.mod_lt _ (Nat.two_pow_pos _)

theorem exponent_lt (l : BinaryLayout) (bits : Nat) : l.exponent bits < 2 ^ l.exponentBits :=
  Nat.mod_lt _ (Nat.two_pow_pos _)

theorem eq_fields (h : bits < 2 ^ (l.fractionBits + l.exponentBits + 1)) :
    bits = l.signBit (l.negative bits) +
      (l.exponent bits * 2 ^ l.fractionBits + l.fraction bits) := by
  have low : bits % 2 ^ (l.fractionBits + l.exponentBits) =
      l.exponent bits * 2 ^ l.fractionBits + l.fraction bits := by
    rw [Nat.pow_add, Nat.mod_mul, exponent, fraction, Nat.add_comm, Nat.mul_comm]
  have high : l.signBit (l.negative bits) = 2 ^ (l.fractionBits + l.exponentBits) *
      (bits / 2 ^ (l.fractionBits + l.exponentBits)) := by
    have top : bits / 2 ^ (l.fractionBits + l.exponentBits) < 2 := by
      rw [Nat.pow_succ] at h
      exact Nat.div_lt_of_lt_mul h
    obtain zero | one := Nat.le_one_iff_eq_zero_or_eq_one.1 (Nat.le_of_lt_succ top)
    · simp [negative, signBit, zero]
    · simp [negative, signBit, one]
  rw [← low, high, Nat.div_add_mod]

/-! ## Writing back -/

theorem encode_subnormal (he : 0 < l.exponentBits) (negative : Bool) {r : Nat}
    (hr : r < 2 ^ l.fractionBits) :
    l.encode (.finite negative r l.leastExponent) = l.signBit negative + r := by
  have one : 1 ≤ 2 ^ l.exponentBits - 1 := by
    have := Nat.one_lt_two_pow (Nat.pos_iff_ne_zero.1 he)
    omega
  have bound : r ≤ l.infinityBits := by
    rw [infinityBits]
    exact (Nat.le_of_lt hr).trans (Nat.le_mul_of_pos_left _ one)
  cases r with
  | zero => rfl
  | succ m =>
    have log : Nat.log2 (m + 1) < l.fractionBits := (Nat.log2_lt (by omega)).2 hr
    have unit : max l.leastExponent (l.leastExponent + (Nat.log2 (m + 1) : Int) - l.fractionBits) =
        l.leastExponent := by omega
    simp only [encode, unit, Int.le_refl, if_true, Int.sub_self, Int.toNat_zero, Nat.pow_zero,
      Nat.mul_one, Nat.zero_mul, Nat.zero_add, Nat.min_eq_left bound]

theorem encode_normal (negative : Bool) {x r : Nat} (hx : 0 < x) (hlt : x < 2 ^ l.exponentBits - 1)
    (hr : r < 2 ^ l.fractionBits) :
    l.encode (.finite negative (2 ^ l.fractionBits + r) (l.leastExponent + (x - 1))) =
      l.signBit negative + (x * 2 ^ l.fractionBits + r) := by
  have bound : x * 2 ^ l.fractionBits + r ≤ l.infinityBits := by
    have next : (x + 1) * 2 ^ l.fractionBits ≤ l.infinityBits := by
      rw [infinityBits]
      exact Nat.mul_le_mul_right _ hlt
    rw [Nat.add_mul, Nat.one_mul] at next
    omega
  obtain ⟨m, hm⟩ : ∃ m, 2 ^ l.fractionBits + r = m + 1 :=
    ⟨_, (Nat.succ_pred_eq_of_pos (by have := Nat.two_pow_pos l.fractionBits; omega)).symm⟩
  have log : Nat.log2 (m + 1) = l.fractionBits := by
    rw [← hm, Nat.log2_eq_iff (by omega), Nat.pow_succ]
    omega
  have unit : max l.leastExponent
      (l.leastExponent + ((x : Int) - 1) + (l.fractionBits : Int) - l.fractionBits) =
        l.leastExponent + ((x : Int) - 1) := by omega
  have exponent : (l.leastExponent + ((x : Int) - 1) - l.leastExponent).toNat = x - 1 := by omega
  have together : (x - 1) * 2 ^ l.fractionBits + (m + 1) = x * 2 ^ l.fractionBits + r := by
    obtain ⟨y, rfl⟩ : ∃ y, x = y + 1 := ⟨x - 1, by omega⟩
    rw [← hm, Nat.add_sub_cancel, Nat.add_mul]
    omega
  rw [hm]
  simp only [encode, log, unit, Int.le_refl, if_true, Int.sub_self, Int.toNat_zero, Nat.pow_zero,
    Nat.mul_one, exponent, together, Nat.min_eq_left bound]

/-- What a pattern denotes is written back as that pattern, unless it is not a number. -/
theorem encode_decode (he : 0 < l.exponentBits)
    (h : bits < 2 ^ (l.fractionBits + l.exponentBits + 1)) (hn : l.decode bits ≠ .nan) :
    l.encode (l.decode bits) = bits := by
  conv => rhs; rw [eq_fields h]
  have hx := l.exponent_lt bits
  have hr := l.fraction_lt bits
  rw [decode_eq] at hn ⊢
  split
  · rename_i top
    rw [if_pos top] at hn
    split at hn
    · rename_i zero
      rw [if_pos zero, encode, top, zero, infinityBits, Nat.add_zero]
    · exact absurd rfl hn
  · rename_i below
    split
    · rename_i zero
      rw [encode_subnormal he _ hr, zero, Nat.zero_mul, Nat.zero_add]
    · rename_i normal
      exact encode_normal _ (by omega) (by omega) hr

end BinaryLayout

/-! ## Floating-point values -/

open Float.Model (Format)
open Float.Model.UnpackedFloat (packedNaN unpackExponent unpackMantissa unpackExponent_def
  unpackMantissa_def)

/-- The layout of a format of floating-point values. -/
def BinaryLayout.ofFormat (spec : Format) : BinaryLayout :=
  ⟨spec.mantissaBitsWithoutImplicit, spec.exponentBits⟩

namespace BinaryLayout

variable {spec : Format} (b : BitVec spec.numBits)

theorem fraction_ofFormat : (ofFormat spec).fraction b.toNat = (unpackMantissa b).toNat := by
  simp [unpackMantissa_def, fraction, ofFormat]

theorem exponent_ofFormat : (ofFormat spec).exponent b.toNat = (unpackExponent b).toNat := by
  simp [unpackExponent_def, exponent, ofFormat, Nat.shiftRight_eq_div_pow]

theorem decode_eq_nan (h : (ofFormat spec).decode b.toNat = .nan) :
    unpackExponent b = -BitVec.ofNat spec.exponentBits 1 ∧ unpackMantissa b ≠ 0#_ := by
  rw [decode_eq, exponent_ofFormat, fraction_ofFormat] at h
  split at h
  · rename_i top
    split at h
    · cases h
    · rename_i fraction
      refine ⟨BitVec.eq_of_toNat_eq ?_, fun zero => fraction ?_⟩
      · rw [top, BitVec.neg_one_eq_allOnes, BitVec.toNat_allOnes]
        rfl
      · rw [zero]
        rfl
  · split at h <;> cases h

/-- The one NaN among the values of a format is the one that is written. -/
theorem encode_decode_valid (valid : spec.Valid b)
    (nan : (packedNaN spec).toNat = (ofFormat spec).encode .nan) :
    (ofFormat spec).encode ((ofFormat spec).decode b.toNat) = b.toNat := by
  by_cases hn : (ofFormat spec).decode b.toNat = .nan
  · obtain ⟨top, fraction⟩ := decode_eq_nan b hn
    rw [hn, valid.eq_packedNaN top fraction, nan]
  · refine encode_decode spec.he ?_ hn
    have lt : b.toNat < 2 ^ (1 + spec.exponentBits + spec.mantissaBitsWithoutImplicit) := b.isLt
    rwa [Nat.add_comm, Nat.add_comm 1, ← Nat.add_assoc] at lt

end BinaryLayout

namespace BinaryReal

theorem toFloat_ofFloat (x : Float) : (ofFloat x).toFloat = x := by
  have written : BinaryLayout.binary64.encode (ofFloat x) = x.toBits.toNat :=
    @BinaryLayout.encode_decode_valid .binary64 x.toBits.toBitVec x.toModel.valid (by decide)
  rw [toFloat, written, UInt64.ofNat_toNat, Float.ofBits_toBits]

theorem toFloat32_ofFloat32 (x : Float32) : (ofFloat32 x).toFloat32 = x := by
  have written : BinaryLayout.binary32.encode (ofFloat32 x) = x.toBits.toNat :=
    @BinaryLayout.encode_decode_valid .binary32 x.toBits.toBitVec x.toModel.valid (by decide)
  rw [toFloat32, written, UInt32.ofNat_toNat, Float32.ofBits_toBits]

end BinaryReal

end OpTree
