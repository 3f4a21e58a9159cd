import Menagerie.Proofs.Number.Encoding

/-!
# Sums of doubles above zero

What is above zero is still above zero once more is added to it, however the sum is rounded (`add_pos`). Rounding
drops no digit but behind the first (`mantissa_shiftToTargetExponent_pos`), so that no number above zero is rounded
to zero (`exists_round_eq`), and a sum that is too large for a double is infinite. Nothing times zero is zero only
as long as it is finite (`zero_mul_of_pos`, `zero_mul_infinity`).
-/

namespace Menagerie.Number

open Float.Model Float.Model.UnpackedFloat

variable {m n : ℕ} {d e : ℤ} {x y : Float}

/-! ## Rounding -/

theorem le_roundedMantissa (em : ExtendedMantissa) : em.mantissa ≤ em.roundedMantissa := by
  unfold ExtendedMantissa.roundedMantissa Accuracy.roundToNearestEven
  split
  · exact le_rfl
  · exact le_rfl
  · exact Nat.le_add_right _ _
  · exact Nat.le_succ _

/-- A mantissa is not shifted out as a whole. -/
theorem mantissa_shiftToTargetExponent_pos (hm : 0 < m) (he : -1074 ≤ e) :
    0 < (shiftToTargetExponent Format.binary64 m e .exact).1.mantissa ∧
      -1074 ≤ (shiftToTargetExponent Format.binary64 m e .exact).2 := by
  obtain ⟨k, hk⟩ : ∃ k, k = (Format.binary64.targetExponent (totalExponent m e) - e).toNat := ⟨_, rfl⟩
  have hshifted : shiftToTargetExponent Format.binary64 m e .exact =
      (ExtendedMantissa.ofMantissaAndAccuracy m .exact >>> k, e + k) := by
    rw [hk]
    rfl
  have hdigits : k ≤ m.log2 := by
    rw [targetExponent_binary64] at hk
    omega
  rw [hshifted, mantissa_shiftRight]
  refine ⟨Nat.div_pos ?_ (Nat.two_pow_pos k), by omega⟩
  exact (Nat.pow_le_pow_right two_pos hdigits).trans (Nat.log2_self_le hm.ne')

/-- A number above zero is not rounded to zero. -/
theorem exists_round_eq (s : Sign) (hm : 0 < m) (he : -1074 ≤ e) :
    ∃ n d hn, UnpackedFloat.round Format.binary64 s m e = .finite s n d hn ∧ Short Format.binary64 n d ∧
      d ≤ m.log2 + 1 + e := by
  let k := (e - Format.binary64.targetExponent (totalExponent m e)).toNat
  have htarget := targetExponent_binary64 m e
  have hfirst := mantissa_shiftToTargetExponent_pos (e := e - k) (Nat.mul_pos hm (Nat.two_pow_pos k)) (by omega)
  rw [← Nat.shiftLeft_eq] at hfirst
  have hsecond := mantissa_shiftToTargetExponent_pos (hfirst.1.trans_le (le_roundedMantissa _)) hfirst.2
  have hround : UnpackedFloat.round Format.binary64 s m e = .finite s _ _ hsecond.1 := dif_neg hsecond.1.ne'
  -- The power of two above the number is short, and rounding does not bring the number past it.
  have hshort : Short Format.binary64 1 (m.log2 + 1 + e) := short_binary64 (by decide) (by omega)
  have hless : value m e ≤ value 1 (m.log2 + 1 + e) := by
    rw [value_le_iff_le_mul (by omega), one_mul, show ((m.log2 + 1 + e - e : ℤ)).toNat = m.log2 + 1 by omega]
    exact Nat.lt_log2_self.le
  have hnoMore := noMore_round (s := s) hshort hm hless
  rw [hround] at hnoMore ⊢
  exact ⟨_, _, _, rfl, hnoMore.1, hnoMore.2.1⟩

/-- A number that is too large for a double is packed as an infinite one. -/
theorem unpack_pack_large (s : Sign) (hn : 0 < n) (hd : 971 < d) :
    (Float.Model.pack (.finite s n d hn)).unpack = .infinity s := by
  have hbias : (Format.binary64.exponentBias : ℤ) = 1023 := rfl
  have hwidth : (Format.binary64.mantissaBitsWithoutImplicit : ℤ) = 52 := rfl
  have hlarge : 2 ^ 11 ≤ (d + Format.binary64.exponentBias +
      Format.binary64.mantissaBitsWithoutImplicit).toNat + 1 := by omega
  have hpacked : UnpackedFloat.pack Format.binary64 (.finite s n d hn) =
      UnpackedFloat.pack Format.binary64 (.infinity s) := if_pos hlarge
  show UnpackedFloat.unpack Format.binary64 (UnpackedFloat.pack Format.binary64 (.finite s n d hn)) = _
  rw [hpacked]
  cases s <;> rfl

/-! ## Above zero -/

theorem zero_lt_of_unpack (h : x.toModel.unpack = .infinity .positive ∨
    ∃ m e hm, x.toModel.unpack = .finite .positive m e hm) : 0.0 < x := by
  rw [zero_lt_iff]
  obtain hx | ⟨m, e, hm, hx⟩ := h
  · rw [hx]
    rfl
  · rw [hx]
    rfl

/-- What a number above zero is rounded to is above zero. -/
theorem zero_lt_of_round (hm : 0 < m) (he : -1074 ≤ e)
    (hx : x.toModel.unpack = (Float.Model.pack (UnpackedFloat.round Format.binary64 .positive m e)).unpack) :
    0.0 < x := by
  obtain ⟨n, d, hn, hround, hshort, -⟩ := exists_round_eq .positive hm he
  rw [hround] at hx
  refine zero_lt_of_unpack ?_
  by_cases hd : d ≤ 971
  · obtain ⟨d', -, hpacked⟩ := unpack_pack_finite .positive hn hshort hd
    exact .inr ⟨n, d', hn, hx.trans hpacked⟩
  · exact .inl (hx.trans (unpack_pack_large .positive hn (not_le.mp hd)))

theorem normalize_of_pos (hm : 0 < m) (s : Sign) : UnpackedFloat.normalize Format.binary64 m e s =
    UnpackedFloat.round Format.binary64 .positive m e := by
  unfold UnpackedFloat.normalize
  rw [show compare (m : ℤ) 0 = .gt from Int.compare_eq_gt.mpr (by omega)]
  rfl

/-- What is above zero and finite is a mantissa with an exponent. -/
theorem unpack_of_pos (hx : 0.0 < x) (hfinite : x.isFinite) :
    ∃ m e hm, x.toModel.unpack = .finite .positive m e hm := by
  refine (eq_of_zero_compare (zero_lt_iff.mp hx)).resolve_left fun hinfinite => ?_
  have hnot : x.isFinite = false := congrArg UnpackedFloat.isFinite hinfinite
  rw [hnot] at hfinite
  cases hfinite

/-- Of the infinite doubles one is above zero. -/
theorem eq_infinity_of_pos (hx : 0.0 < x) (hinfinite : x.isFinite = false) : x = infinity := by
  obtain rfl | rfl | rfl := eq_of_not_isFinite hinfinite
  · exact absurd hx (by decide)
  · rfl
  · exact absurd hx (by decide)

theorem unpack_infinity : infinity.toModel.unpack = .infinity .positive := rfl

theorem unpack_add (x y : Float) : (x + y).toModel.unpack =
    (Float.Model.pack (UnpackedFloat.add Format.binary64 x.toModel.unpack y.toModel.unpack)).unpack := rfl

theorem add_pos_of_infinity
    (h : UnpackedFloat.add Format.binary64 x.toModel.unpack y.toModel.unpack = .infinity .positive) : 0.0 < x + y := by
  refine zero_lt_of_unpack (.inl ?_)
  rw [unpack_add, h]
  exact unpack_infinity

theorem add_pos (hx : 0.0 < x) (hy : 0.0 < y) : 0.0 < x + y := by
  obtain hx' | ⟨m, e, hm, hx'⟩ := eq_of_zero_compare (zero_lt_iff.mp hx)
  · refine add_pos_of_infinity ?_
    obtain hy' | ⟨n, d, hn, hy'⟩ := eq_of_zero_compare (zero_lt_iff.mp hy) <;>
    · rw [hx', hy']
      rfl
  · obtain hy' | ⟨n, d, hn, hy'⟩ := eq_of_zero_compare (zero_lt_iff.mp hy)
    · refine add_pos_of_infinity ?_
      rw [hx', hy']
      rfl
    · -- The sum is a whole number at the smaller of the exponents.
      let total := (m <<< (e - min e d).toNat) + (n <<< (d - min e d).toNat)
      have htotal : 0 < total := by
        refine Nat.add_pos_left ?_ _
        rw [Nat.shiftLeft_eq]
        exact Nat.mul_pos hm (Nat.two_pow_pos _)
      have hleast : -1074 ≤ min e d := le_min (isDouble_of_unpack hx').1.least (isDouble_of_unpack hy').1.least
      have hadd : UnpackedFloat.add Format.binary64 (.finite .positive m e hm) (.finite .positive n d hn) =
          UnpackedFloat.normalize Format.binary64 (total : ℕ) (min e d) .positive := rfl
      refine zero_lt_of_round htotal hleast ?_
      rw [unpack_add, hx', hy', hadd, normalize_of_pos htotal]

/-! ## Zero -/

theorem add_zero_of_pos (hx : 0.0 < x) : x + 0.0 = x := by
  by_cases hfinite : x.isFinite
  · obtain ⟨m, e, hm, hx'⟩ := unpack_of_pos hx hfinite
    have hsum : UnpackedFloat.add Format.binary64 x.toModel.unpack (0.0 : Float).toModel.unpack =
        .finite .positive m e hm := by
      rw [hx', unpack_zero]
      rfl
    have hback := ofModel_pack_unpack hx' rfl
    rw [← hsum] at hback
    exact hback
  · rw [eq_infinity_of_pos hx (Bool.eq_false_iff.mpr hfinite)]
    rfl

theorem zero_add_of_pos (hx : 0.0 < x) (hfinite : x.isFinite) : 0.0 + x = x := by
  obtain ⟨m, e, hm, hx'⟩ := unpack_of_pos hx hfinite
  have hsum : UnpackedFloat.add Format.binary64 (0.0 : Float).toModel.unpack x.toModel.unpack =
      .finite .positive m e hm := by
    rw [hx', unpack_zero]
    rfl
  have hback := ofModel_pack_unpack hx' rfl
  rw [← hsum] at hback
  exact hback

/-- A share of nothing is nothing, of what is finite. -/
theorem zero_mul_of_pos (hx : 0.0 < x) (hfinite : x.isFinite) : 0.0 * x = 0.0 := by
  obtain ⟨m, e, hm, hx'⟩ := unpack_of_pos hx hfinite
  have hproduct : UnpackedFloat.mul Format.binary64 (0.0 : Float).toModel.unpack x.toModel.unpack =
      .zero .positive := by
    rw [hx', unpack_zero]
    rfl
  have hback := ofModel_pack_unpack unpack_zero rfl
  rw [← hproduct] at hback
  exact hback

theorem zero_mul_infinity : 0.0 * infinity = nan := rfl

theorem not_lt_nan (x : Float) : ¬ nan < x := by
  intro h
  have hnumber : nan.isNaN = false := (lt_iff.mp h).1
  exact absurd hnumber (by decide)

/-! ## Whole numbers -/

/-- A number of 32 bits is finite as a double, and above zero unless it is zero. -/
theorem toFloat_of_ne_zero {n : UInt32} (hn : n ≠ 0) : n.toFloat.isFinite ∧ 0.0 < n.toFloat := by
  have hpos : 0 < n.toNat := Nat.pos_of_ne_zero fun h => hn (UInt32.toNat_inj.mp h)
  have hfloat : n.toFloat.toModel.unpack =
      (Float.Model.pack (UnpackedFloat.normalize Format.binary64 n.toNat 0 .positive)).unpack := rfl
  rw [normalize_of_pos hpos] at hfloat
  refine ⟨?_, zero_lt_of_round hpos (by decide) hfloat⟩
  have hlog : n.toNat.log2 < 32 := (Nat.log2_lt hpos.ne').mpr n.toNat_lt
  obtain ⟨m, d, hm, hround, hshort, hd⟩ := exists_round_eq .positive hpos (e := 0) (by decide)
  obtain ⟨d', -, hpacked⟩ := unpack_pack_finite .positive hm hshort (by omega)
  rw [hround] at hfloat
  exact congrArg UnpackedFloat.isFinite (hfloat.trans hpacked)

end Menagerie.Number
