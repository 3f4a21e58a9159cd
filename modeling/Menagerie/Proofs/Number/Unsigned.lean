import Menagerie.Proofs.Number.Encoding

/-!
# Unsigned doubles on the line of all doubles

`orderKey` places doubles by their bits. It tells negative zero from zero and has a place for what is not a
number, so doubles are not compared as it places them. Unsigned numbers are (`orderKey_lt_iff`): their bits are
their exponents and mantissas, one behind the other (`orderKey_eq_rank`). Squares are unsigned, and so are roots of
what is unsigned (`unsigned_mul_self`, `Unsigned.sqrt`).
-/

namespace Menagerie.Number

open Float.Model Float.Model.UnpackedFloat

variable {u : UnpackedFloat} {x y : Float}

/-! ## Squares and roots -/

theorem signOf_mul_self (spec : Format) (u : UnpackedFloat) : signOf (UnpackedFloat.mul spec u u) = .positive := by
  have hsquare : ∀ s : Sign, s * s = .positive := by
    intro s
    cases s <;> rfl
  cases u with
  | notANumber => rfl
  | infinity s => exact hsquare s
  | zero s => exact hsquare s
  | finite s m e hm => exact signOf_roundWithAccuracy.trans (hsquare s)

theorem signOf_sqrt {spec : Format} (h : signOf u = .positive) : signOf (UnpackedFloat.sqrt spec u) = .positive := by
  cases u with
  | notANumber => rfl
  | infinity s =>
    obtain rfl : s = .positive := h
    rfl
  | zero s => exact h
  | finite s m e hm =>
    obtain rfl : s = .positive := h
    exact signOf_roundWithAccuracy

theorem unsigned_mul_self (x : Float) : Unsigned (x * x) := signOf_unpack_pack (signOf_mul_self _ _)

theorem Unsigned.sqrt (h : Unsigned x) : Unsigned x.sqrt := signOf_unpack_pack (signOf_sqrt h)

/-! ## Ranks -/

/-- The rank of an unsigned number among all doubles without a sign. -/
def rank : UnpackedFloat → ℤ
  | .notANumber | .infinity _ => 2047 * 2 ^ 52
  | .zero _ => 0
  | .finite _ mantissa exponent _ => (exponent + 1074) * 2 ^ 52 + mantissa

/-- Without a sign nothing is left of the bits but exponent and mantissa. -/
theorem orderKey_eq_parts
    (h : Sign.ofBitVec (@unpackSign Format.binary64 x.toModel.toBits.toBitVec) = .positive) :
    orderKey x = (@unpackExponent Format.binary64 x.toModel.toBits.toBitVec).toNat * 2 ^ 52 +
      (@unpackMantissa Format.binary64 x.toModel.toBits.toBitVec).toNat := by
  have hsign := decide_signBit_le x.toModel.toBits.toBitVec
  rw [h] at hsign
  have hbits : x.toModel.toBits.toBitVec.toNat < signBit := not_le.mp (of_decide_eq_false hsign)
  have hkey : orderKey x = x.toModel.toBits.toBitVec.toNat := if_pos hbits
  rw [hkey, toNat_unpackExponent, toNat_unpackMantissa]
  unfold signBit at hbits
  omega

theorem orderKey_eq_rank (hnumber : IsNumber x) (hx : Unsigned x) : orderKey x = rank x.toModel.unpack := by
  cases hfinite : x.isFinite with
  | false =>
    obtain rfl | rfl | rfl := eq_of_not_isFinite hfinite
    · cases hnumber
    · rfl
    · cases hx
  | true =>
    unfold Unsigned at hx
    obtain ⟨s, hzero⟩ | ⟨s, m, e, hm, hnonzero⟩ := unpack_of_isFinite hfinite
    · rw [hzero] at hx
      obtain ⟨hsign, hexponent, hmantissa⟩ := unpack_eq_zero_iff.mp hzero
      rw [orderKey_eq_parts (hsign.trans hx), hexponent, hmantissa, hzero]
      rfl
    · rw [hnonzero] at hx
      obtain ⟨hsign, hparts⟩ := unpack_eq_finite hnonzero
      rw [orderKey_eq_parts (hsign.trans hx), hnonzero]
      show _ = (e + 1074) * 2 ^ 52 + (m : ℤ)
      obtain ⟨hzero, hmantissa, hexponent⟩ | ⟨_, _, hmantissa, hexponent⟩ := hparts
      · rw [hzero, hmantissa, hexponent]
        rfl
      · omega

theorem unpack_of_unsigned (hnumber : IsNumber x) (hx : Unsigned x) :
    x.toModel.unpack = .zero .positive ∨ x.toModel.unpack = .infinity .positive ∨
      ∃ m e hm, x.toModel.unpack = .finite .positive m e hm ∧ IsDouble m e ∧ e ≤ 971 := by
  rw [isNumber_iff] at hnumber
  unfold Unsigned at hx
  cases hu : x.toModel.unpack with
  | notANumber => exact absurd hu hnumber
  | zero s =>
    rw [hu] at hx
    exact .inl (congrArg _ hx)
  | infinity s =>
    rw [hu] at hx
    exact .inr (.inl (congrArg _ hx))
  | finite s m e hm =>
    have hdouble := isDouble_of_unpack hu
    rw [hu] at hx
    obtain rfl : s = .positive := hx
    exact .inr (.inr ⟨m, e, hm, rfl, hdouble⟩)

/-- Unsigned numbers rank as they lie on the line. -/
theorem rank_lt_rank_iff (hnumber : IsNumber x) (hnumber' : IsNumber y) (hx : Unsigned x) (hy : Unsigned y) :
    rank x.toModel.unpack < rank y.toModel.unpack ↔ place x.toModel.unpack < place y.toModel.unpack := by
  obtain hu | hu | ⟨m, e, hm, hu, ⟨_, hshort, hlong, hleast⟩, hgreatest⟩ := unpack_of_unsigned hnumber hx <;>
  obtain hv | hv | ⟨n, d, hn, hv, ⟨_, hshort', hlong', hleast'⟩, hgreatest'⟩ := unpack_of_unsigned hnumber' hy <;>
  · rw [hu, hv]
    unfold rank place
    simp only [Prod.Lex.toLex_lt_toLex, true_and]
    omega

/-- The line of all doubles has unsigned numbers in the order they are compared by. -/
theorem orderKey_lt_iff (hnumber : IsNumber x) (hnumber' : IsNumber y) (hx : Unsigned x) (hy : Unsigned y) :
    orderKey x < orderKey y ↔ x < y := by
  rw [orderKey_eq_rank hnumber hx, orderKey_eq_rank hnumber' hy,
    rank_lt_rank_iff hnumber hnumber' hx hy, lt_iff]
  simp only [hnumber, hnumber', true_and]

theorem orderKey_le_iff (hnumber : IsNumber x) (hnumber' : IsNumber y) (hx : Unsigned x) (hy : Unsigned y) :
    orderKey x ≤ orderKey y ↔ x ≤ y := by
  rw [← not_lt, orderKey_lt_iff hnumber' hnumber hy hx]
  exact ⟨le_of_not_lt hnumber hnumber', not_lt_of_le⟩

end Menagerie.Number
