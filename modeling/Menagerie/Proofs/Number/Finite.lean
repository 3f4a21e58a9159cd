import Menagerie.Number.Binary

/-!
# Doubles that are not finite

There are only three of them: what is not a number, which is written in one way, and the two infinities. As a
whole number the first is zero, and the infinities are the ends of a signed 64-bit word.
-/

namespace Menagerie.Number

open Float.Model Float.Model.UnpackedFloat

variable {x y : Float}

theorem eq_of_toBits_eq (h : x.toModel.toBits = y.toModel.toBits) : x = y := by
  obtain ⟨⟨_, _⟩⟩ := x
  obtain ⟨⟨_, _⟩⟩ := y
  cases h
  rfl

theorem isFinite_unpack {b : BitVec 64} (h : @unpackExponent Format.binary64 b ≠ -1#11) :
    (UnpackedFloat.unpack Format.binary64 b).isFinite = true := by
  unfold UnpackedFloat.unpack
  dsimp only
  rw [if_neg h]
  by_cases hleast : @unpackExponent Format.binary64 b = 0#11
  · rw [if_pos hleast]
    by_cases hnone : @unpackMantissa Format.binary64 b = 0#52
    · rw [dif_pos hnone]
      rfl
    · rw [dif_neg hnone]
      rfl
  · rw [if_neg hleast]
    rfl

/-- The exponent of what is not finite is the largest. -/
theorem unpackExponent_of_not_isFinite (h : x.isFinite = false) :
    @unpackExponent Format.binary64 x.toModel.toBits.toBitVec = -1#11 := by
  by_cases hexponent : @unpackExponent Format.binary64 x.toModel.toBits.toBitVec = -1#11
  · exact hexponent
  · exact absurd (h.symm.trans (isFinite_unpack hexponent)) Bool.false_ne_true

/-- Without a mantissa nothing but the sign is open where the exponent is the largest. -/
theorem eq_of_unpack {b : BitVec 64} (hexponent : @unpackExponent Format.binary64 b = -1#11)
    (hmantissa : @unpackMantissa Format.binary64 b = 0#52) :
    b = 0x7ff0000000000000#64 ∨ b = 0xfff0000000000000#64 := by
  have hhigh : b.toNat / 2 ^ 52 % 2 ^ 11 = 2047 := by
    have h : (@unpackExponent Format.binary64 b).toNat = 2047 := by
      rw [hexponent]
      rfl
    simpa [unpackExponent, Nat.shiftRight_eq_div_pow] using h
  have hlow : b.toNat % 2 ^ 52 = 0 := by
    have h : (@unpackMantissa Format.binary64 b).toNat = 0 := by
      rw [hmantissa]
      rfl
    simpa [unpackMantissa] using h
  simp only [BitVec.toNat_eq, BitVec.toNat_ofNat]
  omega

/-- What is not finite is one of three. -/
theorem eq_of_not_isFinite (h : x.isFinite = false) : x = nan ∨ x = infinity ∨ x = -infinity := by
  have hexponent := unpackExponent_of_not_isFinite h
  by_cases hmantissa : @unpackMantissa Format.binary64 x.toModel.toBits.toBitVec = 0#52
  · obtain hbits | hbits := eq_of_unpack hexponent hmantissa
    · exact .inr (.inl (eq_of_toBits_eq (UInt64.toBitVec_inj.mp hbits)))
    · exact .inr (.inr (eq_of_toBits_eq (UInt64.toBitVec_inj.mp hbits)))
  · exact .inl (eq_of_toBits_eq (UInt64.toBitVec_inj.mp (x.toModel.valid.eq_packedNaN hexponent hmantissa)))

theorem bne_zero_of_not_isFinite (h : x.isFinite = false) : (x != 0.0) = true := by
  obtain rfl | rfl | rfl := eq_of_not_isFinite h
  · decide +kernel
  · decide +kernel
  · decide +kernel

theorem wholePart_nan : wholePart nan = 0 := by decide +kernel

theorem wholePart_infinity : wholePart infinity = greatestSigned := by decide +kernel

theorem wholePart_neg_infinity : wholePart (-infinity) = leastSigned := by decide +kernel

end Menagerie.Number
