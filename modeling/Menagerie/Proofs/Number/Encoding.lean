import Menagerie.Number.Notation
import Menagerie.Proofs.Number.Finite
import Menagerie.Proofs.Number.Rounding

/-!
# How doubles are encoded

The bits of a double are those of its sign, its exponent and its mantissa, so a double that was taken apart is put
together again (`ofModel_pack_unpack`). The two ways to take a double apart agree (`reading_of_unpack`), and a finite
double and its negation differ in nothing but the sign (`unpack_neg`).
-/

namespace Menagerie.Number

open Float.Model Float.Model.UnpackedFloat

variable {b : BitVec 64} {s : Sign} {m : ℕ} {e : ℤ} {hm : 0 < m} {x y : Float}

/-! ## Bits -/

theorem toNat_unpackExponent (b : BitVec 64) :
    (@unpackExponent Format.binary64 b).toNat = b.toNat / 2 ^ 52 % 2 ^ 11 := by
  simp [unpackExponent, Nat.shiftRight_eq_div_pow]

theorem toNat_unpackMantissa (b : BitVec 64) : (@unpackMantissa Format.binary64 b).toNat = b.toNat % 2 ^ 52 := by
  simp [unpackMantissa]

theorem toNat_unpackSign (b : BitVec 64) : (@unpackSign Format.binary64 b).toNat = b.toNat / 2 ^ 63 := by
  have hbound := b.isLt
  show (b.extractLsb 63 63).toNat = _
  rw [BitVec.extractLsb_toNat, Nat.shiftRight_eq_div_pow]
  omega

/-- The bits of a double are those of its three parts. -/
theorem packComponents_unpack (b : BitVec 64) :
    packComponents Format.binary64 (Sign.ofBitVec (@unpackSign Format.binary64 b))
      (@unpackExponent Format.binary64 b) (@unpackMantissa Format.binary64 b) = b := by
  have hsign (v : BitVec 1) : (Sign.ofBitVec v).toBitVec = v := by
    revert v
    decide
  have hbound := b.isLt
  refine BitVec.eq_of_toNat_eq ?_
  unfold packComponents
  rw [hsign, BitVec.toNat_append, BitVec.toNat_append, ← Nat.shiftLeft_add_eq_or_of_lt (BitVec.isLt _),
    ← Nat.shiftLeft_add_eq_or_of_lt (BitVec.isLt _), toNat_unpackSign, toNat_unpackExponent, toNat_unpackMantissa]
  simp only [Nat.shiftLeft_eq]
  omega

/-! ## Taking apart and putting together -/

theorem isDouble_of_unpack (h : x.toModel.unpack = .finite s m e hm) : IsDouble m e ∧ e ≤ 971 := by
  have hbound : (@unpackMantissa Format.binary64 x.toModel.toBits.toBitVec).toNat < 2 ^ 52 := BitVec.isLt _
  obtain ⟨-, ⟨-, hmantissa, hexponent⟩ | ⟨hleast, hlargest, hmantissa, hexponent⟩⟩ := unpack_eq_finite h
  · refine ⟨⟨hm, ?_, ?_, ?_⟩, ?_⟩ <;> omega
  · obtain ⟨hlow, hhigh⟩ := exponent_bounds hlargest hleast
    refine ⟨⟨hm, ?_, ?_, ?_⟩, ?_⟩ <;> omega

/-- What a zero is taken apart into, by its bits. -/
theorem unpack_eq_zero_iff : UnpackedFloat.unpack Format.binary64 b = .zero s ↔
    Sign.ofBitVec (@unpackSign Format.binary64 b) = s ∧ @unpackExponent Format.binary64 b = 0#11 ∧
      @unpackMantissa Format.binary64 b = 0#52 := by
  constructor
  · intro h
    unfold UnpackedFloat.unpack at h
    dsimp only at h
    by_cases hlargest : @unpackExponent Format.binary64 b = -1#11
    · rw [if_pos hlargest] at h
      by_cases hnone : @unpackMantissa Format.binary64 b = 0#52
      · rw [if_pos hnone] at h
        cases h
      · rw [if_neg hnone] at h
        cases h
    · rw [if_neg hlargest] at h
      by_cases hleast : @unpackExponent Format.binary64 b = 0#11
      · rw [if_pos hleast] at h
        by_cases hnone : @unpackMantissa Format.binary64 b = 0#52
        · rw [dif_pos hnone] at h
          exact ⟨UnpackedFloat.zero.inj h, hleast, hnone⟩
        · rw [dif_neg hnone] at h
          cases h
      · rw [if_neg hleast] at h
        cases h
  · rintro ⟨hsign, hexponent, hmantissa⟩
    unfold UnpackedFloat.unpack
    dsimp only
    rw [hexponent, if_neg (by decide), if_pos rfl, dif_pos hmantissa, hsign]

theorem pack_unpack_finite (h : UnpackedFloat.unpack Format.binary64 b = .finite s m e hm) :
    UnpackedFloat.pack Format.binary64 (.finite s m e hm) = b := by
  have hbound : (@unpackMantissa Format.binary64 b).toNat < 2 ^ 52 := BitVec.isLt _
  have hbias : (Format.binary64.exponentBias : ℤ) = 1023 := rfl
  have hwidth : (Format.binary64.mantissaBitsWithoutImplicit : ℤ) = 52 := rfl
  let biased := (e + Format.binary64.exponentBias + Format.binary64.mantissaBitsWithoutImplicit).toNat
  obtain ⟨hsign, ⟨hzero, hmantissa, hexponent⟩ | ⟨hleast, hlargest, hmantissa, hexponent⟩⟩ := unpack_eq_finite h
  · have hfits : ¬ 2 ^ 11 ≤ biased + 1 := by omega
    have hsubnormal : m.log2 + 1 ≠ 53 := by
      have hlog := (Nat.log2_lt hm.ne').mpr (hmantissa ▸ hbound)
      omega
    calc UnpackedFloat.pack Format.binary64 (.finite s m e hm)
        = packComponents Format.binary64 s 0#11 (BitVec.ofNat 52 m) := (if_neg hfits).trans (if_neg hsubnormal)
      _ = packComponents Format.binary64 _ _ _ := by rw [← hsign, ← hzero, ← hmantissa, BitVec.ofNat_toNat]; rfl
      _ = b := packComponents_unpack b
  · obtain ⟨hlow, hhigh⟩ := exponent_bounds hlargest hleast
    have hbiased : biased = (@unpackExponent Format.binary64 b).toNat := by omega
    have hfits : ¬ 2 ^ 11 ≤ biased + 1 := by omega
    have hnormal : m.log2 + 1 = 53 := by
      rw [(Nat.log2_eq_iff (n := m) hm.ne').mpr ⟨?_, ?_⟩]
      · omega
      · omega
    have hbits : BitVec.ofNat 52 m = @unpackMantissa Format.binary64 b := by
      refine BitVec.eq_of_toNat_eq ?_
      rw [BitVec.toNat_ofNat]
      omega
    calc UnpackedFloat.pack Format.binary64 (.finite s m e hm)
        = packComponents Format.binary64 s (BitVec.ofNat 11 biased) (BitVec.ofNat 52 m) :=
          (if_neg hfits).trans (if_pos hnormal)
      _ = packComponents Format.binary64 _ _ _ := by rw [← hsign, hbiased, hbits, BitVec.ofNat_toNat]; rfl
      _ = b := packComponents_unpack b

theorem pack_unpack_zero (h : UnpackedFloat.unpack Format.binary64 b = .zero s) :
    UnpackedFloat.pack Format.binary64 (.zero s) = b := by
  obtain ⟨hsign, hexponent, hmantissa⟩ := unpack_eq_zero_iff.mp h
  calc UnpackedFloat.pack Format.binary64 (.zero s)
      = packComponents Format.binary64 _ _ _ := by rw [← hsign, hexponent, hmantissa]; rfl
    _ = b := packComponents_unpack b

/-- A finite double that was taken apart is put together again. -/
theorem ofModel_pack_unpack {u : UnpackedFloat} (h : x.toModel.unpack = u) (hu : u.isFinite = true) :
    Float.ofModel (Float.Model.pack u) = x := by
  refine eq_of_toBits_eq (UInt64.toBitVec_inj.mp ?_)
  cases u with
  | notANumber => cases hu
  | infinity s => cases hu
  | zero s => exact pack_unpack_zero h
  | finite s m e hm => exact pack_unpack_finite h

/-- What is put together from the parts of a double is taken apart into them. -/
theorem unpack_pack_isDouble (s : Sign) (h : IsDouble m e) (he : e ≤ 971) :
    (Float.Model.pack (.finite s m e h.pos)).unpack = .finite s m e h.pos := by
  by_cases hlong : 2 ^ 52 ≤ m
  · exact unpack_pack_normal s h.pos h.short hlong h.least he
  · obtain rfl := h.long.resolve_right hlong
    exact unpack_pack_subnormal s h.pos (not_le.mp hlong) h.least he

/-- A finite double is a zero, or a mantissa with an exponent. -/
theorem unpack_of_isFinite (h : x.isFinite = true) :
    (∃ s, x.toModel.unpack = .zero s) ∨ ∃ s m e hm, x.toModel.unpack = .finite s m e hm := by
  have hfinite : x.toModel.unpack.isFinite = true := h
  cases hx : x.toModel.unpack with
  | zero s => exact .inl ⟨s, rfl⟩
  | finite s m e hm => exact .inr ⟨s, m, e, hm, rfl⟩
  | notANumber | infinity _ =>
    rw [hx] at hfinite
    cases hfinite

/-! ## Signs -/

/-- Negation turns the sign of a finite double and leaves the rest as it is. -/
theorem unpack_neg (h : x.isFinite = true) : (-x).toModel.unpack = x.toModel.unpack.neg := by
  have hneg : (-x).toModel.unpack = (Float.Model.pack x.toModel.unpack.neg).unpack := rfl
  rw [hneg]
  obtain ⟨s, hx⟩ | ⟨s, m, e, hm, hx⟩ := unpack_of_isFinite h
  · rw [hx]
    cases s <;> rfl
  · obtain ⟨hdouble, he⟩ := isDouble_of_unpack hx
    rw [hx]
    exact unpack_pack_isDouble (-s) hdouble he

theorem neg_neg_of_isFinite (h : x.isFinite = true) : - -x = x := by
  have hneg : - -x = Float.ofModel (Float.Model.pack (-x).toModel.unpack.neg) := rfl
  have hback : x.toModel.unpack.neg.neg = x.toModel.unpack := by
    obtain ⟨s, hx⟩ | ⟨s, m, e, hm, hx⟩ := unpack_of_isFinite h <;>
    · rw [hx]
      cases s <;> rfl
  rw [hneg, unpack_neg h, hback]
  exact ofModel_pack_unpack rfl h

/-! ## The two ways to take a double apart -/

/-- Whether a sign is a minus. -/
def isNegative : Sign → Bool
  | .negative => true
  | .positive => false

theorem decide_signBit_le (b : BitVec 64) :
    decide (signBit ≤ b.toNat) = isNegative (Sign.ofBitVec (@unpackSign Format.binary64 b)) := by
  have hbound := b.isLt
  have hsign := toNat_unpackSign b
  have htwo (v : BitVec 1) : v = 0#1 ∨ v = 1#1 := by
    revert v
    decide
  unfold signBit
  obtain h | h := htwo (@unpackSign Format.binary64 b)
  · rw [h] at hsign ⊢
    refine decide_eq_false ?_
    change 0 = _ at hsign
    omega
  · rw [h] at hsign ⊢
    refine decide_eq_true ?_
    change 1 = _ at hsign
    omega

/-- The fields of the bits are the parts that a double is unpacked into. -/
theorem reading_eq (h : x.toModel.toBits.toBitVec = b) :
    Reading.of x = if (@unpackExponent Format.binary64 b).toNat = 2047 then
      if (@unpackMantissa Format.binary64 b).toNat = 0 then
        .infinite (isNegative (Sign.ofBitVec (@unpackSign Format.binary64 b))) else .nan
    else if (@unpackExponent Format.binary64 b).toNat = 0 then
      .finite (isNegative (Sign.ofBitVec (@unpackSign Format.binary64 b)))
        (@unpackMantissa Format.binary64 b).toNat leastExponent
    else .finite (isNegative (Sign.ofBitVec (@unpackSign Format.binary64 b)))
      ((@unpackMantissa Format.binary64 b).toNat + hiddenBit)
      (leastExponent + ((@unpackExponent Format.binary64 b).toNat - 1 : ℕ)) := by
  rw [← decide_signBit_le, toNat_unpackExponent, toNat_unpackMantissa, ← h]
  rfl

theorem reading_of_unpack (h : x.toModel.unpack = .finite s m e hm) :
    Reading.of x = .finite (isNegative s) m e := by
  rw [reading_eq rfl]
  obtain ⟨hsign, ⟨hzero, hmantissa, hexponent⟩ | ⟨hleast, hlargest, hmantissa, hexponent⟩⟩ := unpack_eq_finite h
  · rw [hsign, hzero, hmantissa, hexponent]
    rfl
  · obtain ⟨hlow, hhigh⟩ := exponent_bounds hlargest hleast
    rw [if_neg (by omega), if_neg (by omega), hsign]
    unfold hiddenBit leastExponent
    congr 1
    · omega
    · omega

theorem reading_of_unpack_zero (h : x.toModel.unpack = .zero s) :
    Reading.of x = .finite (isNegative s) 0 leastExponent := by
  obtain ⟨hsign, hexponent, hmantissa⟩ := unpack_eq_zero_iff.mp h
  rw [reading_eq rfl, hsign, hexponent, hmantissa]
  rfl

/-- A double above zero is unpacked into what it reads as. -/
theorem unpack_of_reading (hx : x.isFinite = true) (hm : 0 < m) (h : Reading.of x = .finite false m e) :
    x.toModel.unpack = .finite .positive m e hm := by
  obtain ⟨s, hzero⟩ | ⟨s, n, d, hn, hfinite⟩ := unpack_of_isFinite hx
  · obtain ⟨-, hnone, -⟩ := Reading.finite.inj ((reading_of_unpack_zero hzero).symm.trans h)
    exact absurd hnone hm.ne
  · obtain ⟨hsign, rfl, rfl⟩ := Reading.finite.inj ((reading_of_unpack hfinite).symm.trans h)
    cases s with
    | negative => cases hsign
    | positive => exact hfinite

end Menagerie.Number
