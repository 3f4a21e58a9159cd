import Mathlib.Tactic.FieldSimp
import Menagerie.Proofs.Number.FromDecimal

/-!
# The decimal written for a double

The decimal that is written for a double above zero is one that the double is nearest to (`rounds_shortest`). The
search takes nothing but what lies in the interval of such numbers (`rounds_of_contains`), and at seventeen digits, if
not before, it finds something there: of the multiples of a power of ten that is at most the `10 ^ 16`th part of the
double, the nearest is near enough (`within_of_near`).
-/

namespace Menagerie.Number.Decimal

variable {m : ℕ} {e k : ℤ} {i : Interval} {d : Decimal} {q : ℚ}

/-! ## Intervals -/

theorem zpow_eq_div {a : ℚ} (ha : a ≠ 0) (e : ℤ) : a ^ e = a ^ e.toNat / a ^ (-e).toNat := by
  rw [← zpow_natCast, ← zpow_natCast, ← zpow_sub₀ ha]
  congr 1
  omega

/-- A number over a denominator, such as an interval has. -/
def Interval.ratio (i : Interval) (numerator : ℕ) : ℚ := numerator / i.denominator

theorem value_eq_div (d : Decimal) :
    d.value = (d.coefficient * 10 ^ d.exponent.toNat : ℕ) / (10 ^ (-d.exponent).toNat : ℕ) := by
  unfold Decimal.value
  rw [zpow_eq_div (by norm_num)]
  push_cast
  exact (mul_div_assoc _ _ _).symm

/-- Whether a decimal lies in an interval is a matter of what it stands for. -/
theorem contains_iff (hpos : 0 < i.denominator) : i.contains d = true ↔
    if i.closed then i.ratio i.lower ≤ d.value ∧ d.value ≤ i.ratio i.upper
    else i.ratio i.lower < d.value ∧ d.value < i.ratio i.upper := by
  have hi : (0 : ℚ) < i.denominator := by exact_mod_cast hpos
  have hd : (0 : ℚ) < (10 ^ (-d.exponent).toNat : ℕ) := by positivity
  unfold Interval.contains Interval.ratio
  rw [value_eq_div, div_le_div_iff₀ hi hd, div_le_div_iff₀ hd hi, div_lt_div_iff₀ hi hd, div_lt_div_iff₀ hd hi]
  norm_cast
  cases i.closed <;>
    simp only [if_true, if_false, Bool.and_eq_true, decide_eq_true_eq, Nat.pow_eq, Bool.false_eq_true]

theorem denominator_around (m : ℕ) (e : ℤ) : (Interval.around m e).denominator = 4 * 2 ^ (-e).toNat :=
  Nat.shiftLeft_eq _ _

/-- Numbers in quarters of the last digit of a double. -/
theorem ratio_around (n : ℕ) : (Interval.around m e).ratio (n * (1 <<< e.toNat)) = n / 4 * 2 ^ e := by
  unfold Interval.ratio
  rw [denominator_around, zpow_eq_div two_ne_zero, Nat.one_shiftLeft]
  push_cast
  exact mul_div_mul_comm _ _ _ _

theorem ratio_value : (Interval.around m e).ratio (Interval.around m e).value = Number.value m e := by
  have hratio : (Interval.around m e).ratio (4 * m * (1 <<< e.toNat)) = (4 * m : ℕ) / 4 * 2 ^ e := ratio_around _
  refine hratio.trans ?_
  unfold Number.value
  push_cast
  ring

theorem ratio_lower (hm : 0 < m) :
    (Interval.around m e).ratio (Interval.around m e).lower = (m - reach m e) * 2 ^ e := by
  have hratio : (Interval.around m e).ratio (Interval.around m e).lower =
      (4 * m - (if m = hiddenBit ∧ leastExponent < e then 1 else 2) : ℕ) / 4 * 2 ^ e := ratio_around _
  rw [hratio]
  have hfits : (if m = hiddenBit ∧ leastExponent < e then 1 else 2) ≤ 4 * m := by split <;> omega
  unfold reach
  rw [Nat.cast_sub hfits]
  by_cases hpower : m = hiddenBit ∧ leastExponent < e
  · rw [if_pos hpower, if_pos (show m = 2 ^ 52 ∧ -1074 < e from hpower)]
    push_cast
    ring
  · rw [if_neg hpower, if_neg (show ¬ (m = 2 ^ 52 ∧ -1074 < e) from hpower)]
    push_cast
    ring

theorem ratio_upper : (Interval.around m e).ratio (Interval.around m e).upper = (m + 1 / 2) * 2 ^ e := by
  have hratio : (Interval.around m e).ratio (Interval.around m e).upper = (4 * m + 2 : ℕ) / 4 * 2 ^ e :=
    ratio_around _
  rw [hratio]
  push_cast
  ring

theorem contains_around_iff (hm : 0 < m) : (Interval.around m e).contains d = true ↔
    if m % 2 = 0 then (m - reach m e) * 2 ^ e ≤ d.value ∧ d.value ≤ (m + 1 / 2) * 2 ^ e
    else (m - reach m e) * 2 ^ e < d.value ∧ d.value < (m + 1 / 2) * 2 ^ e := by
  have hpos : 0 < (Interval.around m e).denominator := by
    rw [denominator_around]
    positivity
  rw [contains_iff hpos, ratio_lower hm, ratio_upper, show (Interval.around m e).closed = decide (m % 2 = 0) from rfl]
  by_cases heven : m % 2 = 0
  · rw [decide_eq_true heven, if_pos rfl, if_pos heven]
  · rw [decide_eq_false heven, if_neg Bool.false_ne_true, if_neg heven]

/-- What lies in the interval of a double is nearest to that double. -/
theorem rounds_of_contains (hm : 0 < m) (h : (Interval.around m e).contains d = true) : Rounds m e d.value := by
  rw [contains_around_iff hm] at h
  split at h
  · next heven => exact ⟨h.1, h.2, fun _ => heven⟩
  · exact ⟨h.1.le, h.2.le, fun htie => (htie.elim h.1.ne' h.2.ne).elim⟩

theorem contains_of_within (hm : 0 < m) (hlow : (m - reach m e) * 2 ^ e < d.value)
    (hhigh : d.value < (m + 1 / 2) * 2 ^ e) : (Interval.around m e).contains d = true := by
  rw [contains_around_iff hm]
  split
  · exact ⟨hlow.le, hhigh.le⟩
  · exact ⟨hlow, hhigh⟩

/-! ## Neighbours -/

theorem mem_neighbours : d ∈ i.neighbours k ↔
    d = ⟨i.value * 10 ^ (-k).toNat / (i.denominator * 10 ^ k.toNat), k⟩ ∨
      d = ⟨i.value * 10 ^ (-k).toNat / (i.denominator * 10 ^ k.toNat) + 1, k⟩ := by
  unfold Interval.neighbours
  dsimp only
  split
  · simp only [List.mem_cons, List.not_mem_nil, or_false, Nat.pow_eq]
  · simp only [List.mem_cons, List.not_mem_nil, or_false, Nat.pow_eq]
    exact or_comm

/-- One of the two neighbours of a number is no further from it than half a step. -/
theorem exists_near (hpos : 0 < i.denominator) (k : ℤ) :
    ∃ d ∈ i.neighbours k, |d.value - i.ratio i.value| ≤ 10 ^ k / 2 := by
  obtain ⟨numerator, hn⟩ : ∃ n, n = i.value * 10 ^ (-k).toNat := ⟨_, rfl⟩
  obtain ⟨denominator, hd⟩ : ∃ n, n = i.denominator * 10 ^ k.toNat := ⟨_, rfl⟩
  have hi : (0 : ℚ) < i.denominator := by exact_mod_cast hpos
  have hdenominator : 0 < denominator := hd ▸ Nat.mul_pos hpos (Nat.pow_pos (by decide))
  have hratio : i.ratio i.value = numerator / denominator * 10 ^ k := by
    unfold Interval.ratio
    rw [hn, hd, zpow_eq_div (by norm_num)]
    push_cast
    field_simp
  have hstep := ten_zpow_pos k
  have hscale : (0 : ℚ) < denominator := by exact_mod_cast hdenominator
  have hlow : ((numerator / denominator : ℕ) : ℚ) ≤ numerator / denominator := by
    rw [le_div_iff₀ hscale]
    exact_mod_cast Nat.div_mul_le_self numerator denominator
  have hhigh : (numerator / denominator : ℚ) < (numerator / denominator : ℕ) + 1 := by
    rw [div_lt_iff₀ hscale, mul_comm]
    exact_mod_cast Nat.lt_mul_div_succ numerator hdenominator
  have hhalf (n : ℕ) (h : |(n : ℚ) - numerator / denominator| ≤ 1 / 2) :
      |Decimal.value ⟨n, k⟩ - i.ratio i.value| ≤ 10 ^ k / 2 :=
    calc |Decimal.value ⟨n, k⟩ - i.ratio i.value| = |((n : ℚ) - numerator / denominator) * 10 ^ k| := by
          rw [hratio, sub_mul]
          rfl
      _ = |(n : ℚ) - numerator / denominator| * 10 ^ k := by rw [abs_mul, abs_of_pos hstep]
      _ ≤ 1 / 2 * 10 ^ k := mul_le_mul_of_nonneg_right h hstep.le
      _ = 10 ^ k / 2 := by ring
  simp only [mem_neighbours, ← hn, ← hd]
  obtain hnear | hfar := le_or_gt ((numerator / denominator : ℚ) - (numerator / denominator : ℕ)) (1 / 2)
  · refine ⟨_, .inl rfl, hhalf _ ?_⟩
    rw [abs_le]
    constructor <;> linarith
  · refine ⟨_, .inr rfl, hhalf _ ?_⟩
    push_cast
    rw [abs_le]
    constructor <;> linarith

/-! ## Seventeen digits -/

/-- A step that is at most the `10 ^ 16`th part of a double is so fine that half of it does not lead out of the
interval. -/
theorem within_of_near (h : IsDouble m e) (hstep : 10 ^ k * 10 ^ 16 ≤ Number.value m e)
    (hnear : |d.value - Number.value m e| ≤ 10 ^ k / 2) :
    (m - reach m e) * 2 ^ e < d.value ∧ d.value < (m + 1 / 2) * 2 ^ e := by
  have hunit := two_zpow_pos e
  have hshort : (m : ℚ) < 2 ^ 53 := by exact_mod_cast h.short
  unfold Number.value at hstep hnear
  obtain ⟨hlow, hhigh⟩ := abs_le.mp hnear
  have hfine : (10 : ℚ) ^ k < 2 ^ e := by
    nlinarith
  have hreach : (10 : ℚ) ^ k / 2 < reach m e * 2 ^ e := by
    unfold reach
    split
    · next hpower =>
      have hm : (m : ℚ) = 2 ^ 52 := by
        rw [hpower.1]
        norm_num
      rw [hm] at hstep
      linarith
    · linarith
  constructor
  · rw [sub_mul]
    linarith
  · rw [add_mul]
    linarith

/-- What the search finds lies in the interval if at some count of digits there is something to find. -/
theorem contains_search (magnitude : ℤ) (count : ℕ) :
    ∀ fuel, (∃ n < fuel, ∃ d ∈ i.neighbours (magnitude - (count + n : ℕ)), i.contains d = true) →
      i.contains (search i magnitude fuel count) = true := by
  intro fuel
  induction fuel generalizing count with
  | zero => exact fun ⟨n, hn, _⟩ => absurd hn (Nat.not_lt_zero n)
  | succ fuel ih =>
    rintro ⟨n, hn, d, hmem, hd⟩
    unfold search
    split
    · next hfound => exact List.find?_some hfound
    · next hnone =>
      refine ih (count + 1) ?_
      obtain _ | n := n
      · exact absurd hd (List.find?_eq_none.mp hnone d hmem)
      · refine ⟨n, Nat.lt_of_succ_lt_succ hn, d, ?_, hd⟩
        rw [show count + 1 + n = count + (n + 1) by omega]
        exact hmem

theorem le_pow_leadingZeros {numerator denominator : ℕ} :
    ∀ fuel, denominator ≤ numerator * 10 ^ (fuel + 1) →
      denominator ≤ numerator * 10 ^ (leadingZeros fuel numerator denominator + 1) := by
  intro fuel
  induction fuel generalizing numerator with
  | zero => exact id
  | succ fuel ih =>
    intro h
    unfold leadingZeros
    split
    · next hone => exact hone
    · rw [pow_succ', ← mul_assoc] at h
      have hrest := ih h
      rw [mul_assoc, ← pow_succ'] at hrest
      exact hrest

theorem ten_zpow_neg_le_iff (hpos : 0 < i.denominator) (n numerator : ℕ) :
    10 ^ (-n : ℤ) ≤ i.ratio numerator ↔ i.denominator ≤ numerator * 10 ^ n := by
  have hi : (0 : ℚ) < i.denominator := by exact_mod_cast hpos
  unfold Interval.ratio
  rw [zpow_neg, zpow_natCast, ← one_div, div_le_div_iff₀ (by positivity) hi, one_mul]
  exact_mod_cast Iff.rfl

/-- The magnitude of a number is that of its first digit, or less. -/
theorem ten_zpow_magnitude_le (hpos : 0 < i.denominator) (hleast : 10 ^ (-(400 + 1 : ℕ) : ℤ) ≤ i.ratio i.value) :
    10 ^ (i.magnitude - 1) ≤ i.ratio i.value := by
  unfold Interval.magnitude
  dsimp only
  split
  · next hwhole =>
    have hlength := Nat.length_toDigits_pos (b := 10) (n := i.value / i.denominator)
    have hdigits := (pow_length_toDigits (Nat.pos_of_ne_zero hwhole)).1
    have hi : (0 : ℚ) < i.denominator := by exact_mod_cast hpos
    rw [← Nat.cast_pred hlength, zpow_natCast]
    unfold Interval.ratio
    rw [le_div_iff₀ hi]
    exact_mod_cast (Nat.mul_le_mul_right _ hdigits).trans (Nat.div_mul_le_self _ _)
  · have hzeros := le_pow_leadingZeros 400 ((ten_zpow_neg_le_iff hpos (400 + 1) i.value).mp hleast)
    rw [← ten_zpow_neg_le_iff hpos] at hzeros
    push_cast at hzeros
    rw [neg_add'] at hzeros
    exact hzeros

/-- Taking off trailing zeros changes nothing about the number. -/
theorem value_normalize (fuel : ℕ) (d : Decimal) : (normalize fuel d).value = d.value := by
  induction fuel generalizing d with
  | zero => rfl
  | succ fuel ih =>
    unfold normalize
    split
    · next hzero =>
      have hcoefficient : ((d.coefficient / 10 : ℕ) : ℚ) * 10 = d.coefficient := by
        exact_mod_cast Nat.div_mul_cancel (Nat.dvd_of_mod_eq_zero hzero.2)
      rw [ih]
      unfold Decimal.value
      rw [zpow_add_one₀ (by norm_num), ← hcoefficient]
      ring
    · rfl

/-- The decimal written for a double is one that the double is nearest to. -/
theorem rounds_shortest (h : IsDouble m e) : Rounds m e (shortest m e).value := by
  have hpos : 0 < (Interval.around m e).denominator := by
    rw [denominator_around]
    positivity
  have hone : (1 : ℚ) ≤ m := by exact_mod_cast h.pos
  have hleast : 10 ^ (-(400 + 1 : ℕ) : ℤ) ≤ (Interval.around m e).ratio (Interval.around m e).value := by
    rw [ratio_value]
    calc (10 : ℚ) ^ (-(400 + 1 : ℕ) : ℤ) ≤ 2 ^ (3 * (-(400 + 1 : ℕ) : ℤ)) := ten_zpow_le (by decide)
      _ ≤ 2 ^ e := zpow_two_le_iff.mpr (by have := h.least; omega)
      _ ≤ m * 2 ^ e := le_mul_of_one_le_left (two_zpow_pos e).le hone
  have hmagnitude := ten_zpow_magnitude_le hpos hleast
  unfold shortest
  rw [if_neg h.pos.ne']
  dsimp only
  rw [value_normalize]
  generalize (Interval.around m e).magnitude = magnitude at hmagnitude ⊢
  refine rounds_of_contains h.pos (contains_search magnitude 1 17 ⟨16, by decide, ?_⟩)
  obtain ⟨d, hmem, hnear⟩ := exists_near hpos (magnitude - (1 + 16 : ℕ))
  rw [ratio_value] at hnear hmagnitude
  have hstep : 10 ^ (magnitude - (1 + 16 : ℕ)) * 10 ^ 16 ≤ Number.value m e := by
    rw [← zpow_natCast, ← zpow_add₀ (by norm_num), show magnitude - (1 + 16 : ℕ) + (16 : ℕ) = magnitude - 1 by omega]
    exact hmagnitude
  obtain ⟨hlow, hhigh⟩ := within_of_near h hstep hnear
  exact ⟨d, hmem, contains_of_within h.pos hlow hhigh⟩

end Menagerie.Number.Decimal
