import Mathlib.Algebra.Order.Field.Basic
import Mathlib.Tactic.Ring
import Menagerie.Proofs.Number.Difference

/-!
# Rounding to the nearest double

A mantissa from which digits were shifted out still tells, by its two bits, where the number was that it was cut
off from (`Describes`). That is enough to round the number to the nearest whole one, of two as near to the even
one (`Describes.roundedMantissa`). Hence a number that is nearer to a double than to any other is rounded to that
double, whatever mantissa and exponent it comes with (`roundWithAccuracy_of_rounds`); and so are products and
quotients (`mul_of_rounds`, `div_of_rounds`).
-/

namespace Menagerie.Number

open Float.Model Float.Model.UnpackedFloat

/-! ## Mantissas that were cut off -/

/-- A mantissa with the digit after it. -/
def lowEnd (em : ExtendedMantissa) : ℚ := em.mantissa + if em.roundBit then 1 / 2 else 0

/-- Whether a mantissa, with what was shifted out of it, is what a number was cut off to. -/
structure Describes (em : ExtendedMantissa) (x : ℚ) : Prop where
  high : x < lowEnd em + 1 / 2
  sticks : if em.stickyBit then lowEnd em < x else x = lowEnd em

/-- Whether a whole number is the nearest to a number; of two as near it is the even one. -/
structure Nearest (x : ℚ) (n : ℕ) : Prop where
  low : n - 1 / 2 ≤ x
  high : x ≤ n + 1 / 2
  tie : x = n - 1 / 2 ∨ x = n + 1 / 2 → n % 2 = 0

variable {em : ExtendedMantissa} {x q : ℚ} {m n : ℕ} {d e t : ℤ}

theorem Describes.low (h : Describes em x) : lowEnd em ≤ x := by
  have hsticks := h.sticks
  split at hsticks
  · exact hsticks.le
  · exact hsticks.ge

theorem Describes.bounds (h : Describes em x) : em.mantissa ≤ x ∧ x < em.mantissa + 1 := by
  have hlow := h.low
  have hhigh := h.high
  unfold lowEnd at hlow hhigh
  split at hlow
  · next hround =>
    rw [if_pos hround] at hhigh
    constructor <;> linarith
  · next hround =>
    rw [if_neg hround] at hhigh
    constructor <;> linarith

/-- The bit that is shifted out becomes the digit after the mantissa. -/
theorem lowEnd_shiftRightOne (em : ExtendedMantissa) : lowEnd em.shiftRightOne = em.mantissa / 2 := by
  unfold lowEnd ExtendedMantissa.shiftRightOne
  dsimp only
  obtain ⟨k, hk⟩ : ∃ k, em.mantissa = 2 * k ∨ em.mantissa = 2 * k + 1 := ⟨em.mantissa / 2, by omega⟩
  obtain hk | hk := hk
  · have hbit : (em.mantissa % 2 != 0) = false := by
      rw [hk, Nat.mul_mod_right]
      rfl
    rw [hbit, hk, Nat.mul_div_cancel_left k two_pos]
    push_cast
    simp
  · have hbit : (em.mantissa % 2 != 0) = true := by
      rw [hk, Nat.mul_add_mod]
      rfl
    rw [hbit, hk, show (2 * k + 1) / 2 = k by omega]
    push_cast
    rw [if_pos rfl]
    linarith

theorem Describes.shiftRightOne (h : Describes em x) : Describes em.shiftRightOne (x / 2) := by
  have hlow := h.low
  obtain ⟨hhigh, hsticks⟩ := h
  have hsticky : em.shiftRightOne.stickyBit = (em.roundBit || em.stickyBit) := rfl
  refine ⟨?_, ?_⟩
  · rw [lowEnd_shiftRightOne]
    unfold lowEnd at hhigh
    split at hhigh <;> linarith
  · rw [lowEnd_shiftRightOne, hsticky]
    unfold lowEnd at hlow hsticks
    cases hround : em.roundBit <;> cases hlast : em.stickyBit <;>
      simp only [hround, hlast, Bool.or_self, Bool.or_true, Bool.or_false, if_true, if_false, Bool.false_eq_true]
        at hlow hsticks ⊢ <;> linarith

theorem Describes.shiftRight (h : Describes em x) (k : ℕ) : Describes (em >>> k) (x / 2 ^ k) := by
  induction k with
  | zero =>
    rw [pow_zero, div_one]
    exact h
  | succ k ih =>
    rw [pow_succ, ← div_div]
    exact ih.shiftRightOne

/-- A number is rounded to the nearest whole one. -/
theorem Describes.roundedMantissa (h : Describes em x) (hn : Nearest x n) : em.roundedMantissa = n := by
  have hlow := h.low
  obtain ⟨mantissa, round, sticky⟩ := em
  obtain ⟨hhigh, hsticks⟩ := h
  have hle {a b : ℕ} (hab : (a : ℚ) < b + 1) : a ≤ b := by
    have hlt : a < b + 1 := by exact_mod_cast hab
    omega
  have hnlow := hn.low
  have hnhigh := hn.high
  unfold ExtendedMantissa.roundedMantissa
  cases round <;> cases sticky <;>
    simp only [lowEnd, ExtendedMantissa.accuracy, Accuracy.roundToNearestEven, if_true, if_false, Bool.false_eq_true]
      at hlow hhigh hsticks ⊢
  · exact le_antisymm (hle (by linarith)) (hle (by linarith))
  · exact le_antisymm (hle (by linarith)) (hle (by linarith))
  · -- Halfway between two whole numbers, the even one is meant.
    have hlower : mantissa ≤ n := hle (by linarith)
    have hupper : n ≤ mantissa + 1 := hle (by push_cast; linarith)
    have heven : n % 2 = 0 := by
      refine hn.tie ?_
      obtain rfl | rfl : n = mantissa ∨ n = mantissa + 1 := by omega
      · exact .inr hsticks
      · refine .inl ?_
        push_cast
        linarith
    omega
  · exact le_antisymm (hle (by push_cast; linarith)) (hle (by push_cast; linarith))

/-! ## Rounding -/

/-- Whether an exponent is the one that a number has when it is rounded to a double. -/
structure Fits (t : ℤ) (q : ℚ) : Prop where
  least : -1074 ≤ t
  low : t = -1074 ∨ 2 ^ (52 + t) ≤ q
  high : q < 2 ^ (53 + t)

theorem two_zpow_add_natCast (e : ℤ) (k : ℕ) : (2 : ℚ) ^ (e + k) = 2 ^ e * 2 ^ k := by
  rw [zpow_add₀ two_ne_zero, zpow_natCast]

/-- The bits of a mantissa tell which powers of two a number is between. -/
theorem zpow_log2_le (hm : m ≠ 0) (h : (m : ℚ) ≤ q / 2 ^ e) : (2 : ℚ) ^ (m.log2 + e : ℤ) ≤ q := by
  have hlog : (2 : ℚ) ^ m.log2 ≤ m := by exact_mod_cast Nat.log2_self_le hm
  rw [add_comm, two_zpow_add_natCast, mul_comm]
  exact (le_div_iff₀ (two_zpow_pos e)).mp (hlog.trans h)

theorem lt_zpow_log2 (h : q / 2 ^ e < m + 1) : q < (2 : ℚ) ^ (m.log2 + 1 + e : ℤ) := by
  have hlog : (m : ℚ) + 1 ≤ 2 ^ (m.log2 + 1) := by exact_mod_cast Nat.lt_log2_self
  have hpow : (2 : ℚ) ^ (m.log2 + 1 + e : ℤ) = 2 ^ (m.log2 + 1) * 2 ^ e := by
    rw [zpow_add₀ two_ne_zero]
    norm_cast
  rw [hpow]
  exact (div_lt_iff₀ (two_zpow_pos e)).mp (h.trans_le hlog)

theorem targetExponent_binary64 (m : ℕ) (e : ℤ) :
    Format.binary64.targetExponent (totalExponent m e) = max (m.log2 + e - 52) (-1074) := by
  unfold Format.targetExponent totalExponent
  rw [minExponent_binary64, show Format.binary64.mantissaBits = 53 from rfl]
  omega

theorem zpow_two_lt_iff {a b : ℤ} : (2 : ℚ) ^ a < 2 ^ b ↔ a < b := zpow_lt_zpow_iff_right₀ one_lt_two

theorem zpow_two_le_iff {a b : ℤ} : (2 : ℚ) ^ a ≤ 2 ^ b ↔ a ≤ b := zpow_le_zpow_iff_right₀ one_lt_two

/-- A number that comes with a smaller exponent is shifted to the one that it has as a double. -/
theorem Fits.shift (ht : Fits t q) (he : e ≤ t) (hlow : (m : ℚ) ≤ q / 2 ^ e) (hhigh : q / 2 ^ e < m + 1) :
    e + (Format.binary64.targetExponent (totalExponent m e) - e).toNat = t := by
  rw [targetExponent_binary64]
  obtain ⟨hleast, hq, hless⟩ := ht
  have hupper := lt_zpow_log2 hhigh
  have habove : t = -1074 ∨ 52 + t < m.log2 + 1 + e := hq.imp id fun hq => zpow_two_lt_iff.mp (hq.trans_lt hupper)
  by_cases hm : m = 0
  · subst hm
    have hnone : ((0 : ℕ).log2 : ℤ) = 0 := rfl
    rw [hnone] at habove ⊢
    omega
  · have hbelow := zpow_two_lt_iff.mp ((zpow_log2_le hm hlow).trans_lt hless)
    omega

/-- What is left after rounding is shifted once more if a digit was carried. -/
theorem shiftToTargetExponent_of_lt (hn : n < 2 ^ 53) (ht : -1074 ≤ t) :
    shiftToTargetExponent Format.binary64 n t .exact = (⟨n, false, false⟩, t) := by
  have hshort : Short Format.binary64 n t := short_binary64 hn ht
  have hnone : (Format.binary64.targetExponent (totalExponent n t) - t).toNat = 0 := by
    unfold Short at hshort
    omega
  unfold shiftToTargetExponent shiftToExponent
  dsimp only
  rw [hnone]
  exact congrArg _ (add_zero t)

theorem shiftToTargetExponent_of_carry (ht : -1074 ≤ t) :
    shiftToTargetExponent Format.binary64 (2 ^ 53) t .exact = (⟨2 ^ 52, false, false⟩, t + 1) := by
  have hone : (Format.binary64.targetExponent (totalExponent (2 ^ 53) t) - t).toNat = 1 := by
    rw [targetExponent_binary64, Nat.log2_two_pow]
    omega
  unfold shiftToTargetExponent shiftToExponent
  dsimp only
  rw [hone]
  rfl

theorem roundWithAccuracy_of_nearest (s : Sign) {accuracy : Accuracy}
    (hd : Describes (.ofMantissaAndAccuracy m accuracy) (q / 2 ^ e)) (he : e ≤ t) (ht : Fits t q)
    (hn : Nearest (q / 2 ^ t) n) (hpos : 0 < n) :
    roundWithAccuracy Format.binary64 s m e accuracy =
      if n = 2 ^ 53 then .finite s (2 ^ 52) (t + 1) (Nat.two_pow_pos 52) else .finite s n t hpos := by
  have hmantissa : (ExtendedMantissa.ofMantissaAndAccuracy m accuracy).mantissa = m := by
    cases accuracy with
    | exact => rfl
    | inexact o => cases o <;> rfl
  have hbounds := hd.bounds
  rw [hmantissa] at hbounds
  obtain ⟨k, hk⟩ : ∃ k, k = (Format.binary64.targetExponent (totalExponent m e) - e).toNat := ⟨_, rfl⟩
  have hshift : e + k = t := hk ▸ ht.shift he hbounds.1 hbounds.2
  have hq : q / 2 ^ t = q / 2 ^ e / 2 ^ k := by
    rw [← hshift, two_zpow_add_natCast, div_div]
  have hrounded : (ExtendedMantissa.ofMantissaAndAccuracy m accuracy >>> k).roundedMantissa = n :=
    (hd.shiftRight k).roundedMantissa (hq ▸ hn)
  have hfirst : shiftToTargetExponent Format.binary64 m e accuracy =
      (ExtendedMantissa.ofMantissaAndAccuracy m accuracy >>> k, t) := by
    unfold shiftToTargetExponent shiftToExponent
    dsimp only
    rw [← hk, hshift]
  unfold roundWithAccuracy
  rw [hfirst]
  dsimp only
  rw [hrounded]
  by_cases hcarry : n = 2 ^ 53
  · subst hcarry
    rw [shiftToTargetExponent_of_carry ht.least, if_pos rfl]
    rfl
  · have hle : n ≤ 2 ^ 53 := by
      have hlt : q / 2 ^ t < 2 ^ 53 := by
        rw [div_lt_iff₀ (two_zpow_pos t), mul_comm, ← zpow_natCast, ← zpow_add₀ two_ne_zero, add_comm]
        exact ht.high
      have hn' : (n : ℚ) < (2 ^ 53 : ℕ) + 1 := by
        have := hn.low
        push_cast
        linarith
      have : n < 2 ^ 53 + 1 := by exact_mod_cast hn'
      omega
    rw [shiftToTargetExponent_of_lt (by omega) ht.least, if_neg hcarry]
    exact dif_neg hpos.ne'

/-! ## Numbers nearer to a double than to any other -/

/-- Whether a mantissa and an exponent are those of a double above zero. -/
structure IsDouble (m : ℕ) (e : ℤ) : Prop where
  pos : 0 < m
  short : m < 2 ^ 53
  long : e = -1074 ∨ 2 ^ 52 ≤ m
  least : -1074 ≤ e

/-- How far down the numbers reach that are rounded to a double, in units of its last digit. Below a power of two
doubles are twice as close. -/
def reach (m : ℕ) (e : ℤ) : ℚ := if m = 2 ^ 52 ∧ -1074 < e then 1 / 4 else 1 / 2

/-- Whether a number is nearer to a double than to any other; of two as near, the double is meant whose mantissa is
even. -/
structure Rounds (m : ℕ) (e : ℤ) (q : ℚ) : Prop where
  low : (m - reach m e) * 2 ^ e ≤ q
  high : q ≤ (m + 1 / 2) * 2 ^ e
  tie : q = (m - reach m e) * 2 ^ e ∨ q = (m + 1 / 2) * 2 ^ e → m % 2 = 0

theorem reach_le (m : ℕ) (e : ℤ) : reach m e ≤ 1 / 2 := by
  unfold reach
  split <;> norm_num

theorem Rounds.pos (hm : 0 < m) (h : Rounds m e q) : 0 < q := by
  have hone : (1 : ℚ) ≤ m := by exact_mod_cast hm
  have hreach := reach_le m e
  exact (mul_pos (by linarith) (two_zpow_pos e)).trans_le h.low

theorem two_zpow_sub_one (e : ℤ) : (2 : ℚ) ^ (e - 1) = 2 ^ e / 2 := zpow_sub_one₀ two_ne_zero e

theorem two_zpow_natCast_add (k : ℕ) (t : ℤ) : (2 : ℚ) ^ (k + t) = 2 ^ k * 2 ^ t := by
  rw [zpow_add₀ two_ne_zero, zpow_natCast]

/-- In units of the last digit. -/
theorem rounds_mul_iff : Rounds m e (x * 2 ^ e) ↔
    m - reach m e ≤ x ∧ x ≤ m + 1 / 2 ∧ (x = m - reach m e ∨ x = m + 1 / 2 → m % 2 = 0) := by
  have hunit := two_zpow_pos e
  constructor
  · rintro ⟨hlow, hhigh, htie⟩
    rw [mul_le_mul_iff_left₀ hunit] at hlow hhigh
    simp only [mul_left_inj' hunit.ne'] at htie
    exact ⟨hlow, hhigh, htie⟩
  · rintro ⟨hlow, hhigh, htie⟩
    refine ⟨mul_le_mul_of_nonneg_right hlow hunit.le, mul_le_mul_of_nonneg_right hhigh hunit.le, ?_⟩
    simpa only [mul_left_inj' hunit.ne'] using htie

/-- Where a number has the digits that the exponent of its double leaves, the mantissa of the double is nearest to
it. -/
theorem Rounds.fits (h : IsDouble m e) (hq : Rounds m e (x * 2 ^ e)) (hx : e = -1074 ∨ 2 ^ 52 ≤ x) :
    Fits e (x * 2 ^ e) ∧ Nearest x m := by
  obtain ⟨hlow, hhigh, htie⟩ := rounds_mul_iff.mp hq
  have hreach := reach_le m e
  have hshort : (m : ℚ) + 1 ≤ 2 ^ 53 := by exact_mod_cast h.short
  refine ⟨⟨h.least, hx.imp id fun hx => ?_, ?_⟩, by linarith, hhigh, ?_⟩
  · exact (two_zpow_natCast_add 52 e).trans_le (mul_le_mul_of_nonneg_right hx (two_zpow_pos e).le)
  · have hless : x < 2 ^ 53 := by linarith
    exact (mul_lt_mul_of_pos_right hless (two_zpow_pos e)).trans_eq (two_zpow_natCast_add 53 e).symm
  · rintro (hx | hx)
    · refine htie (.inl ?_)
      linarith
    · exact htie (.inr hx)

/-- Where it has fewer, the double is a power of two, and the number is nearest to it from the exponent below. -/
theorem Rounds.fits_below (h : IsDouble m e) (hq : Rounds m e (x * 2 ^ e)) (he : e ≠ -1074) (hx : x < 2 ^ 52) :
    m = 2 ^ 52 ∧ Fits (e - 1) (x * 2 ^ e) ∧ Nearest (2 * x) (2 ^ 53) := by
  obtain ⟨hlow, hhigh, -⟩ := rounds_mul_iff.mp hq
  have hreach := reach_le m e
  have hlong := h.long.resolve_left he
  have hleast := h.least
  have hpower : m = 2 ^ 52 := by
    have hlt : (m : ℚ) < (2 ^ 52 : ℕ) + 1 := by
      push_cast
      linarith
    have : m < 2 ^ 52 + 1 := by exact_mod_cast hlt
    omega
  have hquarter : reach m e = 1 / 4 := if_pos ⟨hpower, by omega⟩
  have hm : (m : ℚ) = 2 ^ 52 := by
    rw [hpower]
    norm_num
  rw [hquarter, hm] at hlow
  have hscale : x * 2 ^ e = 2 * x * 2 ^ (e - 1) := by
    rw [two_zpow_sub_one]
    ring
  have hunit := two_zpow_pos (e - 1)
  refine ⟨hpower, ⟨by omega, .inr ?_, ?_⟩, ?_, ?_, fun _ => by norm_num⟩
  · rw [hscale]
    have hless : (2 : ℚ) ^ 52 ≤ 2 * x := by linarith
    exact (two_zpow_natCast_add 52 (e - 1)).trans_le (mul_le_mul_of_nonneg_right hless hunit.le)
  · rw [hscale]
    have hless : 2 * x < 2 ^ 53 := by linarith
    exact (mul_lt_mul_of_pos_right hless hunit).trans_eq (two_zpow_natCast_add 53 (e - 1)).symm
  · push_cast
    linarith
  · push_cast
    linarith

/-- A number that is rounded to a double is the nearest to its mantissa, at its exponent; or the double is a power of
two and the number is below it, and is rounded up from the exponent below. -/
theorem Rounds.cases (h : IsDouble m e) (hq : Rounds m e q) :
    Fits e q ∧ Nearest (q / 2 ^ e) m ∨ m = 2 ^ 52 ∧ Fits (e - 1) q ∧ Nearest (q / 2 ^ (e - 1)) (2 ^ 53) := by
  obtain ⟨x, rfl⟩ : ∃ x, q = x * 2 ^ e := ⟨q / 2 ^ e, (div_mul_cancel₀ q (two_zpow_pos e).ne').symm⟩
  by_cases hx : e = -1074 ∨ 2 ^ 52 ≤ x
  · rw [mul_div_cancel_right₀ x (two_zpow_pos e).ne']
    exact .inl (hq.fits h hx)
  · rw [not_or, not_le] at hx
    have hdouble : x * 2 ^ e / 2 ^ (e - 1) = 2 * x := by
      rw [div_eq_iff (two_zpow_pos _).ne', two_zpow_sub_one]
      ring
    rw [hdouble]
    exact .inr (hq.fits_below h hx.1 hx.2)

/-- A number that is nearer to a double than to any other is rounded to it, also where it comes with a mantissa that
was cut off, as long as the mantissa has the digits that count. -/
theorem roundWithAccuracy_of_rounds (s : Sign) {accuracy : Accuracy} (h : IsDouble m e) (hq : Rounds m e q)
    (hd : Describes (.ofMantissaAndAccuracy n accuracy) (q / 2 ^ d)) (hlong : d ≤ -1074 ∨ 2 ^ (52 + d) ≤ q) :
    roundWithAccuracy Format.binary64 s n d accuracy = .finite s m e h.pos := by
  have hle {t : ℤ} (ht : Fits t q) : d ≤ t := by
    have hleast := ht.least
    obtain hlong | hlong := hlong
    · exact hlong.trans hleast
    · have hlt := zpow_two_lt_iff.mp (hlong.trans_lt ht.high)
      omega
  obtain ⟨ht, hn⟩ | ⟨hpower, ht, hn⟩ := hq.cases h
  · have hround := roundWithAccuracy_of_nearest s hd (hle ht) ht hn h.pos
    rw [hround, if_neg h.short.ne]
  · have hround := roundWithAccuracy_of_nearest s hd (hle ht) ht hn (Nat.two_pow_pos 53)
    rw [hround, if_pos rfl]
    exact finite_congr hpower.symm (sub_add_cancel e 1)

theorem describes_exact (m : ℕ) : Describes (.ofMantissaAndAccuracy m .exact) m := by
  have hend : lowEnd (.ofMantissaAndAccuracy m .exact) = m := add_zero _
  refine ⟨?_, ?_⟩
  · rw [hend]
    linarith
  · exact hend.symm

/-- What a division leaves tells where the quotient is. -/
theorem describes_quotient (m : ℕ) (hn : 0 < n) :
    Describes (.ofMantissaAndAccuracy (m / n) (accuracyOfFraction (m % n) n)) (m / n) := by
  have hpos : (0 : ℚ) < n := by exact_mod_cast hn
  have hless := Nat.mod_lt m hn
  have hquotient : (m : ℚ) / n = (m / n : ℕ) + (m % n : ℕ) / n := by
    have hsplit : (m : ℚ) = n * (m / n : ℕ) + (m % n : ℕ) := by exact_mod_cast (Nat.div_add_mod m n).symm
    rw [div_eq_iff hpos.ne', add_mul, div_mul_cancel₀ _ hpos.ne', mul_comm _ (n : ℚ)]
    exact hsplit
  rw [hquotient]
  generalize m / n = k
  generalize hr : m % n = r at hless ⊢
  unfold accuracyOfFraction
  split
  · next hzero =>
    rw [hzero, Nat.cast_zero, zero_div, add_zero]
    exact describes_exact k
  · next hsome =>
    have hrest : (0 : ℚ) < (r : ℚ) / n := div_pos (by exact_mod_cast Nat.pos_of_ne_zero hsome) hpos
    have hbelow : (r : ℚ) / n < 1 := (div_lt_one hpos).mpr (by exact_mod_cast hless)
    have hhalf : (r : ℚ) / n = (2 * r : ℕ) / n / 2 := by
      push_cast
      rw [mul_div_assoc, mul_div_cancel_left₀ _ two_ne_zero]
    rcases hcompare : compare (2 * r) n with _ | _ | _
    · have hlt : ((2 * r : ℕ) : ℚ) / n < 1 := (div_lt_one hpos).mpr (by exact_mod_cast Nat.compare_eq_lt.mp hcompare)
      refine ⟨?_, ?_⟩
      · show _ < ((k : ℚ) + 0) + 1 / 2
        linarith
      · show (k : ℚ) + 0 < _
        linarith
    · have heq : ((2 * r : ℕ) : ℚ) / n = 1 := by
        rw [Nat.compare_eq_eq.mp hcompare, div_self hpos.ne']
      refine ⟨?_, ?_⟩
      · show _ < ((k : ℚ) + 1 / 2) + 1 / 2
        linarith
      · show _ = (k : ℚ) + 1 / 2
        linarith
    · have hgt : 1 < ((2 * r : ℕ) : ℚ) / n := (one_lt_div hpos).mpr (by exact_mod_cast Nat.compare_eq_gt.mp hcompare)
      refine ⟨?_, ?_⟩
      · show _ < ((k : ℚ) + 1 / 2) + 1 / 2
        linarith
      · show (k : ℚ) + 1 / 2 < _
        linarith

/-- A double is nearest to itself. -/
theorem rounds_value (m : ℕ) (e : ℤ) : Rounds m e (value m e) := by
  have hunit := two_zpow_pos e
  have hreach : 0 < reach m e := by
    unfold reach
    split <;> norm_num
  have hbelow : (m - reach m e) * 2 ^ e < value m e := mul_lt_mul_of_pos_right (sub_lt_self _ hreach) hunit
  have habove : value m e < (m + 1 / 2) * 2 ^ e := mul_lt_mul_of_pos_right (lt_add_of_pos_right _ (by norm_num)) hunit
  exact ⟨hbelow.le, habove.le, fun h => (h.elim (fun h => hbelow.ne' h) fun h => habove.ne h).elim⟩

/-- A number that comes with a mantissa of its own is rounded to the double that it is nearest to. -/
theorem round_of_rounds (s : Sign) (h : IsDouble m e) (hn : 0 < n) (hq : Rounds m e (value n d)) :
    UnpackedFloat.round Format.binary64 s n d = .finite s m e h.pos := by
  obtain ⟨k, hk⟩ : ∃ k, k = (d - Format.binary64.targetExponent (totalExponent n d)).toNat := ⟨_, rfl⟩
  have hround : UnpackedFloat.round Format.binary64 s n d =
      roundWithAccuracy Format.binary64 s (n <<< k) (d - k) .exact := by
    rw [hk]
    rfl
  have hshift : value (n <<< k) (d - k) = value n d := by
    rw [Nat.shiftLeft_eq, value_mul_pow]
  rw [hround]
  refine roundWithAccuracy_of_rounds s h hq ?_ ?_
  · rw [← hshift]
    unfold value
    rw [mul_div_cancel_right₀ _ (two_zpow_pos _).ne']
    exact describes_exact _
  · rw [targetExponent_binary64] at hk
    by_cases hleast : d - k ≤ -1074
    · exact .inl hleast
    · refine .inr ?_
      calc (2 : ℚ) ^ (52 + (d - k)) ≤ 2 ^ (n.log2 + d : ℤ) := zpow_le_zpow_right₀ one_le_two (by omega)
        _ ≤ value n d := zpow_log2_le hn.ne' (mul_div_cancel_right₀ _ (two_zpow_pos d).ne').ge

/-! ## Products and quotients -/

section Operations

variable {m₁ m₂ : ℕ} {e₁ e₂ : ℤ} {h₁ : 0 < m₁} {h₂ : 0 < m₂}

theorem value_mul (m₁ m₂ : ℕ) (e₁ e₂ : ℤ) : value m₁ e₁ * value m₂ e₂ = value (m₁ * m₂) (e₁ + e₂) := by
  unfold value
  rw [zpow_add₀ two_ne_zero, Nat.cast_mul, mul_mul_mul_comm]

/-- A product with digits enough is rounded to the double that it is nearest to. -/
theorem mul_of_rounds (h : IsDouble m e) (hq : Rounds m e (value m₁ e₁ * value m₂ e₂)) (hlong : 2 ^ 52 ≤ m₁ * m₂) :
    UnpackedFloat.mul Format.binary64 (.finite .positive m₁ e₁ h₁) (.finite .positive m₂ e₂ h₂) =
      .finite .positive m e h.pos := by
  rw [value_mul] at hq
  refine roundWithAccuracy_of_rounds .positive h hq ?_ (.inr ?_)
  · unfold value
    rw [mul_div_cancel_right₀ _ (two_zpow_pos _).ne']
    exact describes_exact _
  · unfold value
    rw [zpow_add₀ two_ne_zero]
    refine mul_le_mul_of_nonneg_right ?_ (two_zpow_pos _).le
    exact_mod_cast hlong

/-- A quotient is rounded to the double that it is nearest to. -/
theorem div_of_rounds (h : IsDouble m e) (hq : Rounds m e (value m₁ e₁ / value m₂ e₂)) :
    UnpackedFloat.div Format.binary64 (.finite .positive m₁ e₁ h₁) (.finite .positive m₂ e₂ h₂) =
      .finite .positive m e h.pos := by
  obtain ⟨target, htarget⟩ : ∃ target, target = min (e₁ - e₂)
    (Format.binary64.targetExponent (totalExponent m₁ e₁ - totalExponent m₂ e₂)) := ⟨_, rfl⟩
  obtain ⟨k, hk⟩ : ∃ k, k = (e₁ - e₂ - target).toNat := ⟨_, rfl⟩
  have hdiv : UnpackedFloat.div Format.binary64 (.finite .positive m₁ e₁ h₁) (.finite .positive m₂ e₂ h₂) =
      roundWithAccuracy Format.binary64 .positive (m₁ <<< k / m₂) target (accuracyOfFraction (m₁ <<< k % m₂) m₂) := by
    rw [hk, htarget]
    rfl
  have hshift : e₁ - e₂ = target + k := by omega
  have hpos : (0 : ℚ) < m₂ := by exact_mod_cast h₂
  have hquotient : value m₁ e₁ / value m₂ e₂ / 2 ^ target = (m₁ <<< k : ℕ) / m₂ := by
    have hpow : (2 : ℚ) ^ e₁ = 2 ^ target * 2 ^ k * 2 ^ e₂ := by
      rw [← two_zpow_add_natCast, ← hshift, ← zpow_add₀ two_ne_zero, sub_add_cancel]
    unfold value
    rw [Nat.shiftLeft_eq, div_div, div_eq_div_iff (by positivity) hpos.ne', hpow]
    push_cast
    ring
  have hlow : (2 : ℚ) ^ (m₁.log2 + e₁ : ℤ) ≤ value m₁ e₁ :=
    zpow_log2_le h₁.ne' (mul_div_cancel_right₀ _ (two_zpow_pos e₁).ne').ge
  have hhigh : value m₂ e₂ < (2 : ℚ) ^ (m₂.log2 + 1 + e₂ : ℤ) := by
    refine lt_zpow_log2 ?_
    unfold value
    rw [mul_div_cancel_right₀ _ (two_zpow_pos e₂).ne']
    exact lt_add_one _
  rw [hdiv]
  refine roundWithAccuracy_of_rounds .positive h hq (hquotient ▸ describes_quotient _ h₂) ?_
  by_cases hleast : target ≤ -1074
  · exact .inl hleast
  · refine .inr ?_
    have hexponent : 52 + target ≤ (m₁.log2 + e₁) - (m₂.log2 + 1 + e₂) := by
      have hbits : Format.binary64.mantissaBits = 53 := rfl
      unfold Format.targetExponent totalExponent at htarget
      rw [minExponent_binary64, hbits] at htarget
      omega
    have hvalue : (0 : ℚ) < value m₂ e₂ := mul_pos hpos (two_zpow_pos e₂)
    calc (2 : ℚ) ^ (52 + target) ≤ 2 ^ ((m₁.log2 + e₁ : ℤ) - (m₂.log2 + 1 + e₂)) :=
          zpow_le_zpow_right₀ one_le_two hexponent
      _ = 2 ^ (m₁.log2 + e₁ : ℤ) / 2 ^ (m₂.log2 + 1 + e₂ : ℤ) := zpow_sub₀ two_ne_zero _ _
      _ ≤ value m₁ e₁ / value m₂ e₂ := div_le_div₀ ((two_zpow_pos _).le.trans hlow) hlow hvalue hhigh.le

end Operations

end Menagerie.Number
