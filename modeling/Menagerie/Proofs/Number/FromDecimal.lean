import Menagerie.Proofs.Number.Encoding

/-!
# Decimals as doubles

A decimal is read as the double that it is nearest to (`toFloat_of_rounds`), whichever way its coefficient and its
power of ten are multiplied: as doubles where both of them are doubles (`ofScientific_of_short`), and as whole numbers
otherwise (`unpacked_ofScientific`).
-/

namespace Menagerie.Number

open Float.Model Float.Model.UnpackedFloat

variable {m n c : ℕ} {e k : ℤ} {q : ℚ} {x y : Float}

/-! ## Powers of ten -/

theorem ten_zpow_pos (k : ℤ) : (0 : ℚ) < 10 ^ k := zpow_pos (by norm_num) k

theorem ten_zpow_of_nonneg (hk : 0 ≤ k) : (10 : ℚ) ^ k = 10 ^ k.natAbs := by
  rw [← zpow_natCast, Int.natAbs_of_nonneg hk]

theorem ten_zpow_of_neg (hk : k < 0) : (10 : ℚ) ^ k = 1 / 10 ^ k.natAbs := by
  rw [← zpow_natCast, one_div, ← zpow_neg]
  congr 1
  omega

theorem ten_zpow_le (hk : k ≤ 0) : (10 : ℚ) ^ k ≤ 2 ^ (3 * k) := by
  obtain ⟨n, rfl⟩ := Int.exists_eq_neg_ofNat hk
  rw [zpow_mul, zpow_neg, zpow_neg, zpow_natCast, zpow_natCast]
  exact inv_anti₀ (by positivity) (pow_le_pow_left₀ (by norm_num) (by norm_num) n)

theorem le_ten_zpow (hk : 0 ≤ k) : (2 : ℚ) ^ (3 * k) ≤ 10 ^ k := by
  rw [zpow_mul]
  exact zpow_le_zpow_left₀ hk (by norm_num) (by norm_num)

theorem cast_ten_pow_mul (n : ℕ) (k : ℤ) : ((10 ^ n : ℕ) : ℚ) * 10 ^ k = 10 ^ (n + k) := by
  rw [zpow_add₀ (by norm_num), zpow_natCast]
  norm_cast

theorem value_zero (n : ℕ) : value n 0 = n := by
  unfold value
  rw [zpow_zero, mul_one]

/-- The powers of ten that are doubles. -/
theorem reading_powersOfTen : ∀ k : Fin 23,
    let x := Float.exactlyRepresentablePowersOfTen[k]
    let log : ℕ := Nat.log2 (10 ^ (k : ℕ))
    let mantissa : ℕ := 10 ^ (k : ℕ) * 2 ^ 52 / 2 ^ log
    x.isFinite = true ∧ Reading.of x = .finite false mantissa ((log : ℤ) - 52) ∧
      mantissa * 2 ^ log = 10 ^ (k : ℕ) * 2 ^ 52 ∧ 2 ^ 52 ≤ mantissa := by
  decide +kernel

theorem unpack_powersOfTen (k : Fin 23) : ∃ mantissa exponent hpos,
    Float.exactlyRepresentablePowersOfTen[k].toModel.unpack = .finite .positive mantissa exponent hpos ∧
      value mantissa exponent = 10 ^ (k : ℕ) ∧ 2 ^ 52 ≤ mantissa := by
  obtain ⟨hfinite, hreading, hvalue, hlong⟩ := reading_powersOfTen k
  have hpos := (Nat.two_pow_pos 52).trans_le hlong
  refine ⟨_, _, hpos, unpack_of_reading hfinite hpos hreading, ?_, hlong⟩
  unfold value
  rw [zpow_sub₀ two_ne_zero, zpow_natCast, ← mul_div_assoc, div_eq_iff (by positivity)]
  exact_mod_cast hvalue

/-- A whole number that is short enough is a double. -/
theorem unpack_toFloat (hn : 0 < n) (hshort : n < 2 ^ 53) : ∃ mantissa exponent hpos,
    n.toUInt64.toFloat.toModel.unpack = .finite .positive mantissa exponent hpos ∧ value mantissa exponent = n ∧
      2 ^ 52 ≤ mantissa := by
  have hlog : n.log2 ≤ 52 := Nat.le_of_lt_succ ((Nat.log2_lt hn.ne').mpr hshort)
  obtain ⟨k, hk⟩ : ∃ k, k + n.log2 = 52 := ⟨52 - n.log2, by omega⟩
  have hlong : 2 ^ 52 ≤ n * 2 ^ k := by
    rw [← hk, add_comm k, pow_add]
    exact Nat.mul_le_mul_right _ (Nat.log2_self_le hn.ne')
  have hless : n * 2 ^ k < 2 ^ 53 := by
    rw [show 53 = n.log2 + 1 + k by omega, pow_add]
    exact Nat.mul_lt_mul_of_pos_right Nat.lt_log2_self (Nat.two_pow_pos k)
  have hdouble : IsDouble (n * 2 ^ k) (0 - k) :=
    ⟨Nat.mul_pos hn (Nat.two_pow_pos k), hless, .inr hlong, by omega⟩
  have hvalue : value (n * 2 ^ k) (0 - k) = n := by
    rw [value_mul_pow, value_zero]
  refine ⟨n * 2 ^ k, 0 - k, hdouble.pos, ?_, hvalue, hlong⟩
  have hround : UnpackedFloat.round Format.binary64 .positive n 0 =
      .finite .positive (n * 2 ^ k) (0 - k) hdouble.pos := by
    refine round_of_rounds .positive hdouble hn ?_
    rw [← value_mul_pow n k 0]
    exact rounds_value _ _
  have hmod : n.toUInt64.toNat = n := Nat.mod_eq_of_lt (hshort.trans (by decide))
  have hfloat : n.toUInt64.toFloat.toModel.unpack =
      (Float.Model.pack (UnpackedFloat.normalize Format.binary64 n.toUInt64.toNat 0 .positive)).unpack := rfl
  rw [hfloat, hmod]
  unfold UnpackedFloat.normalize
  rw [show compare (n : ℤ) 0 = .gt from Int.compare_eq_gt.mpr (by omega)]
  dsimp only
  rw [Int.toNat_natCast, hround]
  exact unpack_pack_isDouble .positive hdouble (by omega)

theorem unpack_mul {m₁ m₂ : ℕ} {e₁ e₂ : ℤ} {h₁ : 0 < m₁} {h₂ : 0 < m₂} (h : IsDouble m e) (he : e ≤ 971)
    (hx : x.toModel.unpack = .finite .positive m₁ e₁ h₁) (hy : y.toModel.unpack = .finite .positive m₂ e₂ h₂)
    (hq : Rounds m e (value m₁ e₁ * value m₂ e₂)) (hlong : 2 ^ 52 ≤ m₁ * m₂) :
    (x * y).toModel.unpack = .finite .positive m e h.pos := by
  have hmul : (x * y).toModel.unpack =
      (Float.Model.pack (UnpackedFloat.mul Format.binary64 x.toModel.unpack y.toModel.unpack)).unpack := rfl
  rw [hmul, hx, hy, mul_of_rounds h hq hlong]
  exact unpack_pack_isDouble .positive h he

theorem unpack_div {m₁ m₂ : ℕ} {e₁ e₂ : ℤ} {h₁ : 0 < m₁} {h₂ : 0 < m₂} (h : IsDouble m e) (he : e ≤ 971)
    (hx : x.toModel.unpack = .finite .positive m₁ e₁ h₁) (hy : y.toModel.unpack = .finite .positive m₂ e₂ h₂)
    (hq : Rounds m e (value m₁ e₁ / value m₂ e₂)) :
    (x / y).toModel.unpack = .finite .positive m e h.pos := by
  have hdiv : (x / y).toModel.unpack =
      (Float.Model.pack (UnpackedFloat.div Format.binary64 x.toModel.unpack y.toModel.unpack)).unpack := rfl
  rw [hdiv, hx, hy, div_of_rounds h hq]
  exact unpack_pack_isDouble .positive h he

/-- Where a coefficient and a power of ten are doubles, their product or quotient is the double that the decimal is
nearest to. -/
theorem ofScientific_of_short (h : IsDouble m e) (he : e ≤ 971) (hc : 0 < c) (hshort : c < 2 ^ 53)
    (hk : k.natAbs ≤ 22) (hq : Rounds m e (c * 10 ^ k)) :
    (Float.ofScientific c (k < 0) k.natAbs).toModel.unpack = .finite .positive m e h.pos := by
  obtain ⟨m₁, e₁, h₁, hcoefficient, hvalue, hlong⟩ := unpack_toFloat hc hshort
  obtain ⟨m₂, e₂, h₂, hpower, hten, -⟩ := unpack_powersOfTen ⟨k.natAbs, by omega⟩
  unfold Float.ofScientific
  rw [dif_pos ⟨hshort, hk⟩]
  dsimp only
  by_cases hneg : k < 0
  · rw [if_pos (decide_eq_true hneg)]
    refine unpack_div h he hcoefficient hpower ?_
    rw [hvalue, hten, ← mul_one_div, ← ten_zpow_of_neg hneg]
    exact hq
  · rw [if_neg (by simpa using hneg)]
    refine unpack_mul h he hcoefficient hpower ?_ (hlong.trans (Nat.le_mul_of_pos_right _ h₂))
    rw [hvalue, hten, ← ten_zpow_of_nonneg (not_lt.mp hneg)]
    exact hq

/-! ## Decimals -/

theorem Rounds.coefficient_pos (hm : 0 < m) (hq : Rounds m e (c * 10 ^ k)) : 0 < c := by
  have hpos := hq.pos hm
  rw [mul_pos_iff_of_pos_right (ten_zpow_pos k)] at hpos
  exact_mod_cast hpos

/-- What is rounded to a double is neither less than half of the least one nor too large. -/
theorem Rounds.bounds (h : IsDouble m e) (he : e ≤ 971) (hq : Rounds m e q) :
    2 ^ (-1075 : ℤ) ≤ q ∧ q ≤ 2 ^ (1024 : ℤ) := by
  have hunit := two_zpow_pos e
  have hreach := reach_le m e
  have hone : (1 : ℚ) ≤ m := by exact_mod_cast h.pos
  have hless : (m : ℚ) + 1 ≤ 2 ^ 53 := by exact_mod_cast h.short
  constructor
  · calc (2 : ℚ) ^ (-1075 : ℤ) ≤ 2 ^ (e - 1) := zpow_le_zpow_right₀ one_le_two (by have := h.least; omega)
      _ = 1 / 2 * 2 ^ e := by rw [two_zpow_sub_one]; ring
      _ ≤ (m - reach m e) * 2 ^ e := mul_le_mul_of_nonneg_right (by linarith) hunit.le
      _ ≤ q := hq.low
  · calc q ≤ (m + 1 / 2) * 2 ^ e := hq.high
      _ ≤ 2 ^ 53 * 2 ^ e := mul_le_mul_of_nonneg_right (by linarith) hunit.le
      _ = 2 ^ (e + 53) := by rw [mul_comm]; exact (two_zpow_add_natCast e 53).symm
      _ ≤ 2 ^ (1024 : ℤ) := zpow_le_zpow_right₀ one_le_two (by omega)

/-- The digits of a number tell which powers of ten it is between. -/
theorem pow_length_toDigits (hc : 0 < c) :
    10 ^ ((Nat.toDigits 10 c).length - 1) ≤ c ∧ c < 10 ^ (Nat.toDigits 10 c).length := by
  have hlength : 0 < (Nat.toDigits 10 c).length := Nat.length_toDigits_pos
  refine ⟨?_, (Nat.length_toDigits_le_iff (by decide) hlength).mp le_rfl⟩
  obtain hone | hmore := Nat.eq_zero_or_pos ((Nat.toDigits 10 c).length - 1)
  · rw [hone, pow_zero]
    exact hc
  · rw [← not_lt, ← Nat.length_toDigits_le_iff (by decide) hmore]
    omega

/-- What is rounded to a double is within the range in which powers of ten are expanded. -/
theorem Rounds.magnitude (h : IsDouble m e) (he : e ≤ 971) (hq : Rounds m e (c * 10 ^ k)) :
    -400 ≤ k + (Nat.toDigits 10 c).length ∧ k + (Nat.toDigits 10 c).length ≤ 400 := by
  obtain ⟨hlow, hhigh⟩ := hq.bounds h he
  obtain ⟨hfloor, hceiling⟩ := pow_length_toDigits (hq.coefficient_pos h.pos)
  generalize (Nat.toDigits 10 c).length = length at hfloor hceiling
  constructor
  · refine le_of_not_gt fun hless => ?_
    have hlt : (2 : ℚ) ^ (-1075 : ℤ) < 2 ^ (3 * (length + k)) :=
      calc (2 : ℚ) ^ (-1075 : ℤ) ≤ c * 10 ^ k := hlow
        _ < (10 ^ length : ℕ) * 10 ^ k := mul_lt_mul_of_pos_right (by exact_mod_cast hceiling) (ten_zpow_pos k)
        _ = 10 ^ (length + k) := cast_ten_pow_mul length k
        _ ≤ 2 ^ (3 * (length + k)) := ten_zpow_le (by omega)
    have := zpow_two_lt_iff.mp hlt
    omega
  · refine le_of_not_gt fun hmore => ?_
    have hle : (2 : ℚ) ^ (3 * ((length - 1 : ℕ) + k)) ≤ 2 ^ (1024 : ℤ) :=
      calc (2 : ℚ) ^ (3 * ((length - 1 : ℕ) + k)) ≤ 10 ^ ((length - 1 : ℕ) + k) := le_ten_zpow (by omega)
        _ = (10 ^ (length - 1) : ℕ) * 10 ^ k := (cast_ten_pow_mul _ k).symm
        _ ≤ c * 10 ^ k := mul_le_mul_of_nonneg_right (by exact_mod_cast hfloor) (ten_zpow_pos k).le
        _ ≤ 2 ^ (1024 : ℤ) := hhigh
    have := zpow_two_le_iff.mp hle
    omega

/-- Otherwise the decimal is rounded as it is. -/
theorem unpacked_ofScientific (h : IsDouble m e) (he : e ≤ 971) (hq : Rounds m e (c * 10 ^ k)) :
    UnpackedFloat.ofScientific Format.binary64 c k = .finite .positive m e h.pos := by
  have hc := hq.coefficient_pos h.pos
  obtain ⟨hlow, hhigh⟩ := hq.magnitude h he
  have hlength : (Nat.toDigits 10 c).length ≤ c.log2 + 1 :=
    (Nat.length_toDigits_le_iff (by decide) (Nat.succ_pos _)).mpr
      (Nat.lt_log2_self.trans_le (Nat.pow_le_pow_left (by decide) _))
  unfold UnpackedFloat.ofScientific
  rw [dif_neg hc.ne', if_neg (show ¬ k > 2 ^ 11 by omega), if_neg (show ¬ k < -((2 ^ 11 : ℤ) + c.log2) by omega)]
  by_cases hnonneg : k ≥ 0
  · rw [if_pos hnonneg]
    have hcoefficient : value (c <<< 53) (-53) = c := by
      have hshift := value_mul_pow c 53 0
      rw [Nat.shiftLeft_eq, ← value_zero c, ← hshift]
      rfl
    have hpower : value (10 ^ k.toNat) 0 = 10 ^ k := by
      rw [value_zero, ten_zpow_of_nonneg hnonneg, show k.natAbs = k.toNat by omega]
      norm_cast
    have hproduct : Rounds m e (value (c <<< 53) (-53) * value (10 ^ k.toNat) 0) := by
      rw [hcoefficient, hpower]
      exact hq
    refine mul_of_rounds h hproduct ?_
    calc 2 ^ 52 ≤ 1 * 2 ^ 53 := by decide
      _ ≤ c * 2 ^ 53 := Nat.mul_le_mul_right _ hc
      _ = c <<< 53 := (Nat.shiftLeft_eq c 53).symm
      _ ≤ c <<< 53 * 10 ^ k.toNat := Nat.le_mul_of_pos_right _ (Nat.pow_pos (by decide))
  · rw [if_neg hnonneg]
    have hpower : value (10 ^ (-k).toNat) 0 = 10 ^ k.natAbs := by
      rw [value_zero, show k.natAbs = (-k).toNat by omega]
      norm_cast
    refine div_of_rounds h ?_
    rw [hpower, value_zero, ← mul_one_div, ← ten_zpow_of_neg (not_le.mp hnonneg)]
    exact hq

/-- A decimal is read as the double that it is nearest to. -/
theorem ofScientific_of_rounds (h : IsDouble m e) (he : e ≤ 971) (hx : x.toModel.unpack = .finite .positive m e h.pos)
    (hq : Rounds m e (c * 10 ^ k)) : Float.ofScientific c (k < 0) k.natAbs = x := by
  have hback : ∀ y : Float, y.toModel.unpack = .finite .positive m e h.pos → y = x :=
    fun y hy => (ofModel_pack_unpack hy rfl).symm.trans (ofModel_pack_unpack hx rfl)
  by_cases hshort : c < 2 ^ 53 ∧ k.natAbs ≤ 22
  · exact hback _ (ofScientific_of_short h he (hq.coefficient_pos h.pos) hshort.1 hshort.2 hq)
  · have hexponent : (if decide (k < 0) = true then Int.negOfNat k.natAbs else Int.ofNat k.natAbs) = k := by
      split
      · next hneg =>
        have := of_decide_eq_true hneg
        rw [Int.negOfNat_eq]
        show -(k.natAbs : ℤ) = k
        omega
      · next hneg =>
        have := of_decide_eq_false (Bool.eq_false_iff.mpr hneg)
        show (k.natAbs : ℤ) = k
        omega
    unfold Float.ofScientific
    rw [dif_neg hshort]
    dsimp only
    rw [hexponent]
    unfold Float.Model.ofScientific
    rw [unpacked_ofScientific h he hq]
    exact ofModel_pack_unpack hx rfl

/-- The number that a decimal stands for. -/
def Decimal.value (d : Decimal) : ℚ := d.coefficient * 10 ^ d.exponent

theorem toFloat_of_rounds {d : Decimal} {hm : 0 < m} (hx : x.toModel.unpack = .finite .positive m e hm)
    (hq : Rounds m e d.value) : d.toFloat false = x := by
  obtain ⟨h, he⟩ := isDouble_of_unpack hx
  have hc := hq.coefficient_pos hm
  obtain ⟨hlow, hhigh⟩ := hq.magnitude h he
  have hdigits : (d.digits.length : ℤ) = (Nat.toDigits 10 d.coefficient).length := rfl
  unfold Decimal.toFloat
  dsimp only
  rw [if_neg Bool.false_ne_true, hdigits, if_neg (by omega), if_neg (by omega)]
  exact ofScientific_of_rounds h he hx hq

end Menagerie.Number
