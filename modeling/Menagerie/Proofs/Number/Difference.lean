import Mathlib.Algebra.Order.Field.Power
import Mathlib.Tactic.Linarith
import Menagerie.Proofs.Number.Order
import Menagerie.Proofs.Number.Sign

/-!
# Differences of doubles

What is left of a double once a number that is not below zero is taken from it is at most that double, however
the difference is rounded (`sub_le`). The exact difference is no more; rounding to a number of bits does not
bring a number past one of as many bits (`noMore_round`), and packing such a number does not raise it
(`place_pack_le`).
-/

namespace Menagerie.Number

open Float.Model Float.Model.UnpackedFloat

/-! ## Exact values -/

/-- What a mantissa and an exponent stand for. -/
def value (mantissa : ℕ) (exponent : ℤ) : ℚ := mantissa * 2 ^ exponent

variable {m n : ℕ} {d e : ℤ}

theorem two_zpow_pos (e : ℤ) : (0 : ℚ) < 2 ^ e := zpow_pos two_pos e

theorem value_mul_pow (m k : ℕ) (e : ℤ) : value (m * 2 ^ k) (e - k) = value m e := by
  unfold value
  rw [zpow_sub₀ two_ne_zero, zpow_natCast, Nat.cast_mul, Nat.cast_pow, Nat.cast_ofNat, mul_assoc,
    mul_div_cancel₀ _ (pow_ne_zero k two_ne_zero)]

theorem value_le_iff : value m e ≤ value n e ↔ m ≤ n := by
  unfold value
  rw [mul_le_mul_iff_left₀ (two_zpow_pos e), Nat.cast_le]

/-- Values compared at the smaller exponent. -/
theorem value_le_iff_le_mul (h : d ≤ e) : value m d ≤ value n e ↔ m ≤ n * 2 ^ (e - d).toNat := by
  have hn := value_mul_pow n (e - d).toNat e
  rw [Int.toNat_of_nonneg (by omega), sub_sub_cancel] at hn
  rw [← hn, value_le_iff]

/-- The leading digit of the smaller number is not before that of the larger. -/
theorem totalExponent_le (hm : 0 < m) (h : value m d ≤ value n e) :
    totalExponent m d ≤ totalExponent n e := by
  have hlow : (2 : ℚ) ^ (m.log2 + d : ℤ) ≤ value m d := by
    unfold value
    rw [zpow_add₀ two_ne_zero, zpow_natCast]
    refine mul_le_mul_of_nonneg_right ?_ (two_zpow_pos d).le
    exact_mod_cast Nat.log2_self_le hm.ne'
  have hhigh : value n e < (2 : ℚ) ^ (n.log2 + 1 + e : ℤ) := by
    unfold value
    rw [zpow_add₀ two_ne_zero]
    refine mul_lt_mul_of_pos_right ?_ (two_zpow_pos e)
    exact_mod_cast Nat.lt_log2_self
  have hlt := (zpow_lt_zpow_iff_right₀ one_lt_two).mp (hlow.trans_lt (h.trans_lt hhigh))
  unfold totalExponent
  omega

variable {spec : Format}

theorem targetExponent_le (spec : Format) (hm : 0 < m) (h : value m d ≤ value n e) :
    spec.targetExponent (totalExponent m d) ≤ spec.targetExponent (totalExponent n e) := by
  have htotal := totalExponent_le hm h
  unfold Format.targetExponent
  omega

/-! ## Rounding -/

/-- Whether a mantissa with what was shifted out of it is at most a number. -/
def Within (em : ExtendedMantissa) (k : ℕ) : Prop :=
  em.mantissa < k ∨ em.mantissa = k ∧ em.roundBit = false ∧ em.stickyBit = false

theorem Within.shiftRightOne {em : ExtendedMantissa} {k : ℕ} (h : Within em (2 * k)) :
    Within em.shiftRightOne k := by
  unfold ExtendedMantissa.shiftRightOne
  obtain h | ⟨h, hround, hsticky⟩ := h
  · exact .inl (Nat.div_lt_of_lt_mul h)
  · refine .inr ⟨?_, ?_, ?_⟩
    · show em.mantissa / 2 = k
      omega
    · show (em.mantissa % 2 != 0) = false
      rw [h, Nat.mul_mod_right]
      rfl
    · show (em.roundBit || em.stickyBit) = false
      rw [hround, hsticky]
      rfl

theorem Within.shiftRight {em : ExtendedMantissa} {k : ℕ} (n : ℕ) (h : Within em (k * 2 ^ n)) :
    Within (em >>> n) k := by
  induction n generalizing k with
  | zero =>
    rw [pow_zero, mul_one] at h
    exact h
  | succ n ih =>
    rw [pow_succ', ← mul_assoc, mul_comm k] at h
    exact (ih h).shiftRightOne

theorem Within.roundedMantissa_le {em : ExtendedMantissa} {k : ℕ} (h : Within em k) :
    em.roundedMantissa ≤ k := by
  obtain ⟨mantissa, round, sticky⟩ := em
  unfold ExtendedMantissa.roundedMantissa
  obtain h | ⟨rfl, rfl, rfl⟩ := h
  · have hparity := Nat.mod_lt mantissa two_pos
    cases round <;> cases sticky <;>
      dsimp only [ExtendedMantissa.accuracy, Accuracy.roundToNearestEven] at h ⊢ <;> omega
  · exact le_rfl

theorem mantissa_shiftRight (em : ExtendedMantissa) (n : ℕ) :
    (em >>> n).mantissa = em.mantissa / 2 ^ n := by
  induction n with
  | zero => exact (Nat.div_one _).symm
  | succ n ih =>
    show (em >>> n).mantissa / 2 = _
    rw [ih, Nat.div_div_eq_div_mul, pow_succ]

theorem roundedMantissa_shiftRight_le {m k n : ℕ} (h : m ≤ k * 2 ^ n) :
    (ExtendedMantissa.ofMantissaAndAccuracy m .exact >>> n).roundedMantissa ≤ k := by
  have hatMost : Within (ExtendedMantissa.ofMantissaAndAccuracy m .exact) (k * 2 ^ n) :=
    h.lt_or_eq.imp id fun heq => ⟨heq, rfl, rfl⟩
  exact (hatMost.shiftRight n).roundedMantissa_le

/-- Whether a mantissa is no longer than the format has bits for at the exponent. -/
def Short (spec : Format) (mantissa : ℕ) (exponent : ℤ) : Prop :=
  spec.targetExponent (totalExponent mantissa exponent) ≤ exponent

/-- Whether a double taken apart is a zero, or is short and no more than a number, at no higher exponent. -/
def NoMore (spec : Format) (n : ℕ) (e : ℤ) : UnpackedFloat → Prop
  | .zero _ => True
  | .finite _ m d _ => Short spec m d ∧ d ≤ e ∧ value m d ≤ value n e
  | _ => False

theorem value_div_pow_le (m k : ℕ) (d : ℤ) : value (m / 2 ^ k) (d + k) ≤ value m d := by
  rw [← value_mul_pow _ k, add_sub_cancel_right, value_le_iff]
  exact Nat.div_mul_le_self m (2 ^ k)

/-- Digits that are shifted out leave a number that is no more. -/
theorem noMore_shift {s : Sign} (h : Short spec n e) (hd : d ≤ e) (hle : value m d ≤ value n e) :
    let shifted := shiftToTargetExponent spec m d .exact
    NoMore spec n e (if h : shifted.1.mantissa = 0 then .zero s
      else .finite s shifted.1.mantissa shifted.2 (Nat.pos_of_ne_zero h)) := by
  dsimp only [shiftToTargetExponent, shiftToExponent]
  generalize hk : (spec.targetExponent (totalExponent m d) - d).toNat = k
  have hmantissa : (ExtendedMantissa.ofMantissaAndAccuracy m .exact >>> k).mantissa = m / 2 ^ k :=
    mantissa_shiftRight _ k
  by_cases hnone : (ExtendedMantissa.ofMantissaAndAccuracy m .exact >>> k).mantissa = 0
  · rw [dif_pos hnone]
    trivial
  · rw [dif_neg hnone]
    have hpos : 0 < m / 2 ^ k := hmantissa ▸ Nat.pos_of_ne_zero hnone
    have hm : 0 < m := hpos.trans_le (Nat.div_le_self m (2 ^ k))
    have hless := value_div_pow_le m k d
    have hshort := targetExponent_le spec hpos hless
    have htarget := (targetExponent_le spec hm hle).trans h
    show Short _ _ _ ∧ _ ∧ _
    rw [hmantissa]
    refine ⟨hshort.trans ?_, ?_, hless.trans hle⟩
    · omega
    · omega

theorem noMore_roundWithAccuracy {s : Sign} (h : Short spec n e) (hm : 0 < m) (hd : d ≤ e)
    (hle : value m d ≤ value n e) : NoMore spec n e (roundWithAccuracy spec s m d .exact) := by
  have htarget := (targetExponent_le spec hm hle).trans h
  let k := (spec.targetExponent (totalExponent m d) - d).toNat
  have hshifted : d + k ≤ e := by omega
  -- The second shift only takes out a digit that rounding may have carried into.
  refine noMore_shift h hshifted ((value_le_iff_le_mul hshifted).mpr ?_)
  refine roundedMantissa_shiftRight_le ?_
  rw [mul_assoc, ← pow_add, show (e - (d + k)).toNat + k = (e - d).toNat by omega]
  exact (value_le_iff_le_mul hd).mp hle

/-- Rounding does not bring a number past one that is short. -/
theorem noMore_round {s : Sign} (h : Short spec n e) (hm : 0 < m) (hle : value m d ≤ value n e) :
    NoMore spec n e (UnpackedFloat.round spec s m d) := by
  have htarget := (targetExponent_le spec hm hle).trans h
  let k := (d - spec.targetExponent (totalExponent m d)).toNat
  show NoMore spec n e (roundWithAccuracy spec s (m <<< k) (d - k) .exact)
  rw [Nat.shiftLeft_eq]
  refine noMore_roundWithAccuracy h (Nat.mul_pos hm (Nat.two_pow_pos k)) ?_ ?_
  · omega
  · rw [value_mul_pow]
    exact hle

/-! ## Packing -/

theorem minExponent_binary64 : Format.binary64.minExponent = -1074 := rfl

theorem short_binary64 (h : m < 2 ^ 53) (he : -1074 ≤ e) : Short Format.binary64 m e := by
  have hlog : m.log2 ≤ 52 := by
    by_cases hm : m = 0
    · rw [hm]
      decide
    · exact Nat.le_of_lt_succ ((Nat.log2_lt hm).mpr h)
  unfold Short Format.targetExponent totalExponent
  rw [minExponent_binary64, show Format.binary64.mantissaBits = 53 from rfl]
  omega

theorem lt_of_short (h : Short Format.binary64 m e) : m < 2 ^ 53 ∧ -1074 ≤ e := by
  unfold Short Format.targetExponent totalExponent at h
  rw [minExponent_binary64, show Format.binary64.mantissaBits = 53 from rfl] at h
  constructor
  · refine Nat.lt_log2_self.trans_le (Nat.pow_le_pow_right two_pos ?_)
    omega
  · omega

/-- An exponent that is written out, by the bits that hold it. -/
theorem exponent_bounds {bits : BitVec 11} (hlargest : bits ≠ -1#11) (hleast : bits ≠ 0#11) :
    1 ≤ bits.toNat ∧ bits.toNat ≤ 2046 := by
  bv_omega

theorem ofNat_exponent {k : ℕ} (hlow : 1 ≤ k) (hhigh : k ≤ 2046) :
    BitVec.ofNat 11 k ≠ -1#11 ∧ BitVec.ofNat 11 k ≠ 0#11 ∧ (BitVec.ofNat 11 k).toNat = k := by
  refine ⟨?_, ?_, ?_⟩
  · bv_omega
  · bv_omega
  · exact Nat.mod_eq_of_lt (by omega)

theorem toNat_implicit (bits : BitVec 52) : (1#1 ++ bits).toNat = 2 ^ 52 + bits.toNat := by
  rw [BitVec.toNat_append, ← Nat.shiftLeft_add_eq_or_of_lt bits.isLt]
  rfl

/-- What a double is taken apart into if it is finite and no zero, by its bits. -/
theorem unpack_eq_finite {b : BitVec 64} {s : Sign} {hm : 0 < m}
    (h : UnpackedFloat.unpack Format.binary64 b = .finite s m e hm) :
    Sign.ofBitVec (@unpackSign Format.binary64 b) = s ∧
      (@unpackExponent Format.binary64 b = 0#11 ∧ (@unpackMantissa Format.binary64 b).toNat = m ∧ e = -1074 ∨
        @unpackExponent Format.binary64 b ≠ 0#11 ∧ @unpackExponent Format.binary64 b ≠ -1#11 ∧
          2 ^ 52 + (@unpackMantissa Format.binary64 b).toNat = m ∧
          e = (@unpackExponent Format.binary64 b).toNat - 1075) := by
  unfold UnpackedFloat.unpack at h
  dsimp only at h
  by_cases hlargest : @unpackExponent Format.binary64 b = -1#11
  · rw [if_pos hlargest] at h
    by_cases hnone : @unpackMantissa Format.binary64 b = 0#52
    · rw [if_pos hnone] at h
      cases h
    · rw [if_neg hnone] at h
      cases h
  · rw [if_neg hlargest] at h
    by_cases hleast : @unpackExponent Format.binary64 b = 0#11
    · rw [if_pos hleast] at h
      by_cases hnone : @unpackMantissa Format.binary64 b = 0#52
      · rw [dif_pos hnone] at h
        cases h
      · rw [dif_neg hnone] at h
        obtain ⟨hsign, hmantissa, hexponent⟩ := UnpackedFloat.finite.inj h
        refine ⟨hsign, .inl ⟨hleast, hmantissa, ?_⟩⟩
        rw [← hexponent, hleast]
        decide
    · rw [if_neg hleast] at h
      obtain ⟨hsign, hmantissa, hexponent⟩ := UnpackedFloat.finite.inj h
      refine ⟨hsign, .inr ⟨hleast, hlargest, ?_, hexponent.symm⟩⟩
      rw [← hmantissa]
      exact (toNat_implicit _).symm

/-- What doubles are taken apart into is short, and not too large for a double. -/
theorem short_of_unpack {b : BitVec 64} {s : Sign} {hm : 0 < m}
    (h : UnpackedFloat.unpack Format.binary64 b = .finite s m e hm) :
    Short Format.binary64 m e ∧ e ≤ 971 := by
  have hbound : (@unpackMantissa Format.binary64 b).toNat < 2 ^ 52 := BitVec.isLt _
  obtain ⟨-, ⟨-, hmantissa, hexponent⟩ | ⟨hleast, hlargest, hmantissa, hexponent⟩⟩ := unpack_eq_finite h
  · exact ⟨short_binary64 (by omega) (by omega), by omega⟩
  · obtain ⟨hlow, hhigh⟩ := exponent_bounds hlargest hleast
    exact ⟨short_binary64 (by omega) (by omega), by omega⟩

theorem finite_congr {s : Sign} {hm : 0 < m} {hn : 0 < n} (hmn : m = n) (hde : d = e) :
    UnpackedFloat.finite s m d hm = .finite s n e hn := by
  subst hmn hde
  rfl

/-- What is packed with an exponent that is written out is taken apart with the digit that is not. -/
theorem unpack_normal {b : BitVec spec.numBits} {s : Sign} {exponent mantissa}
    (hb : b = packComponents spec s exponent mantissa) (hlargest : exponent ≠ -1#_) (hleast : exponent ≠ 0#_)
    (hm : 0 < m) (hmantissa : (1#1 ++ mantissa).toNat = m)
    (hexponent : exponent.toNat - (spec.exponentBias + spec.mantissaBitsWithoutImplicit) = e) :
    UnpackedFloat.unpack spec b = .finite s m e hm := by
  have hexponentBits : unpackExponent b = exponent := hb ▸ unpackExponent_packComponents
  have hmantissaBits : unpackMantissa b = mantissa := hb ▸ unpackMantissa_packComponents
  have hsign : unpackSign b = s.toBitVec := hb ▸ unpackSign_packComponents
  clear hb
  subst hexponentBits hmantissaBits
  unfold UnpackedFloat.unpack
  dsimp only
  rw [hsign, ofBitVec_toBitVec, if_neg hlargest, if_neg hleast]
  exact finite_congr hmantissa hexponent

/-- What is packed without an exponent is taken apart with the least one. -/
theorem unpack_subnormal {b : BitVec spec.numBits} {s : Sign} {mantissa}
    (hb : b = packComponents spec s 0#_ mantissa) (hm : 0 < m) (hmantissa : mantissa.toNat = m)
    (hexponent : 1 - (spec.exponentBias + spec.mantissaBitsWithoutImplicit) = e) :
    UnpackedFloat.unpack spec b = .finite s m e hm := by
  have hexponentBits : unpackExponent b = 0#_ := hb ▸ unpackExponent_packComponents
  have hmantissaBits : unpackMantissa b = mantissa := hb ▸ unpackMantissa_packComponents
  have hsign : unpackSign b = s.toBitVec := hb ▸ unpackSign_packComponents
  clear hb
  subst hmantissaBits
  have hwide : (0#_ : BitVec spec.exponentBits) ≠ -1#_ := by
    have hpow : 1 < 2 ^ spec.exponentBits := Nat.one_lt_two_pow spec.he.ne'
    rw [BitVec.neg_one_eq_allOnes, ← BitVec.toNat_inj.ne, BitVec.toNat_allOnes, BitVec.toNat_zero]
    omega
  have hsome : unpackMantissa b ≠ 0#_ := by
    rw [← BitVec.toNat_inj.ne, BitVec.toNat_zero, hmantissa]
    exact hm.ne'
  unfold UnpackedFloat.unpack
  dsimp only
  rw [hsign, ofBitVec_toBitVec, hexponentBits, if_neg hwide, if_pos rfl, dif_neg hsome]
  refine finite_congr hmantissa ?_
  rw [← hexponent, BitVec.toNat_zero]
  omega

/-- A number with as many digits as a double has is packed as it is. -/
theorem unpack_pack_normal (s : Sign) (hm : 0 < m) (hshort : m < 2 ^ 53) (hlong : 2 ^ 52 ≤ m) (hleast : -1074 ≤ e)
    (he : e ≤ 971) :
    UnpackedFloat.unpack Format.binary64 (UnpackedFloat.pack Format.binary64 (.finite s m e hm)) =
      .finite s m e hm := by
  have hbias : (Format.binary64.exponentBias : ℤ) = 1023 := rfl
  have hwidth : (Format.binary64.mantissaBitsWithoutImplicit : ℤ) = 52 := rfl
  let biased := (e + Format.binary64.exponentBias + Format.binary64.mantissaBitsWithoutImplicit).toNat
  have hfits : ¬ 2 ^ 11 ≤ biased + 1 := by omega
  have hnormal : m.log2 + 1 = Format.binary64.mantissaBits := by
    rw [(Nat.log2_eq_iff hm.ne').mpr ⟨hlong, hshort⟩]
    rfl
  have hpacked : UnpackedFloat.pack Format.binary64 (.finite s m e hm) = packComponents Format.binary64 s
      (BitVec.ofNat 11 biased) (BitVec.ofNat 52 m) := (if_neg hfits).trans (if_pos hnormal)
  obtain ⟨hlargest, hnone, hbits⟩ := ofNat_exponent (k := biased) (by omega) (by omega)
  refine unpack_normal hpacked hlargest hnone hm ?_ ?_
  · rw [toNat_implicit, BitVec.toNat_ofNat]
    omega
  · rw [hbits]
    omega

/-- A number with fewer digits is packed with the least exponent. -/
theorem unpack_pack_subnormal (s : Sign) (hm : 0 < m) (hless : m < 2 ^ 52) (hleast : -1074 ≤ e) (he : e ≤ 971) :
    UnpackedFloat.unpack Format.binary64 (UnpackedFloat.pack Format.binary64 (.finite s m e hm)) =
      .finite s m (-1074) hm := by
  have hbias : (Format.binary64.exponentBias : ℤ) = 1023 := rfl
  have hwidth : (Format.binary64.mantissaBitsWithoutImplicit : ℤ) = 52 := rfl
  let biased := (e + Format.binary64.exponentBias + Format.binary64.mantissaBitsWithoutImplicit).toNat
  have hfits : ¬ 2 ^ 11 ≤ biased + 1 := by omega
  have hsubnormal : m.log2 + 1 ≠ Format.binary64.mantissaBits := by
    have hlog := (Nat.log2_lt hm.ne').mpr hless
    have hbits : Format.binary64.mantissaBits = 53 := rfl
    omega
  have hpacked : UnpackedFloat.pack Format.binary64 (.finite s m e hm) = packComponents Format.binary64 s
      0#11 (BitVec.ofNat 52 m) := (if_neg hfits).trans (if_neg hsubnormal)
  exact unpack_subnormal hpacked hm (Nat.mod_eq_of_lt hless) rfl

/-- A short number that is not too large for a double is packed as it is, with the least exponent if its mantissa
is not as long as it may be. -/
theorem unpack_pack_finite (s : Sign) (hm : 0 < m) (h : Short Format.binary64 m e) (he : e ≤ 971) :
    ∃ d ≤ e, UnpackedFloat.unpack Format.binary64
      (UnpackedFloat.pack Format.binary64 (.finite s m e hm)) = .finite s m d hm := by
  obtain ⟨hshort, hleast⟩ := lt_of_short h
  by_cases hlong : 2 ^ 52 ≤ m
  · exact ⟨e, le_rfl, unpack_pack_normal s hm hshort hlong hleast he⟩
  · exact ⟨-1074, hleast, unpack_pack_subnormal s hm (not_le.mp hlong) hleast he⟩

/-! ## Differences -/

/-- What is left of a number, once a double that is not below zero is taken from it, is no more, unless it is
below zero. -/
theorem noMore_sub {hn : 0 < n} {v : UnpackedFloat} (h : Short spec n e)
    (hv : (UnpackedFloat.compare (.zero .positive) v).any (·.isLE))
    (hpos : signOf (UnpackedFloat.sub spec (.finite .positive n e hn) v) = .positive) :
    NoMore spec n e (UnpackedFloat.sub spec (.finite .positive n e hn) v) := by
  cases v with
  | notANumber => cases hv
  | infinity s =>
    cases s with
    | positive => cases hpos
    | negative => cases hv
  | zero s => exact ⟨h, le_rfl, le_rfl⟩
  | finite s m d hm =>
    cases s with
    | negative => cases hv
    | positive =>
      -- At the smaller of the exponents the exact difference is one of whole numbers.
      let shift := (e - min e d).toNat
      let rest : ℤ := (n <<< shift : ℕ) - (m <<< (d - min e d).toNat : ℕ)
      have hsub : UnpackedFloat.sub spec (.finite .positive n e hn) (.finite .positive m d hm) =
        UnpackedFloat.normalize spec rest (min e d) .positive := rfl
      rw [hsub] at hpos ⊢
      unfold UnpackedFloat.normalize at hpos ⊢
      split at hpos
      · rw [signOf_round] at hpos
        cases hpos
      · trivial
      · next hgt =>
        have hrest : 0 < rest := Int.compare_eq_gt.mp hgt
        refine noMore_round h (by omega) ?_
        have hshift : min e d = e - shift := by omega
        rw [hshift, ← value_mul_pow n shift e, value_le_iff, ← Nat.shiftLeft_eq]
        exact Int.toNat_le.mpr (Int.sub_le_self _ (Int.natCast_nonneg _))

/-- Packing does not raise a number. -/
theorem place_pack_le {hn : 0 < n} {u : UnpackedFloat} (h : NoMore Format.binary64 n e u) (he : e ≤ 971)
    (hpos : signOf u = .positive) :
    place (Float.Model.pack u).unpack ≤ place (.finite .positive n e hn) := by
  cases u with
  | notANumber => cases h
  | infinity s => cases h
  | zero s =>
    obtain rfl : s = .positive := hpos
    show place (.zero .positive) ≤ _
    exact (Prod.Lex.toLex_lt_toLex.mpr (.inl one_pos)).le
  | finite s m d hm =>
    obtain rfl : s = .positive := hpos
    obtain ⟨hshort, hde, hle⟩ := h
    obtain ⟨d', hd', hpacked⟩ := unpack_pack_finite .positive hm hshort (hde.trans he)
    have hunpack : (Float.Model.pack (.finite .positive m d hm)).unpack = .finite .positive m d' hm := hpacked
    rw [hunpack]
    refine Prod.Lex.toLex_le_toLex.mpr (.inr ⟨rfl, Prod.Lex.toLex_le_toLex.mpr ?_⟩)
    obtain hlt | rfl := (hd'.trans hde).lt_or_eq
    · exact .inl hlt
    · obtain rfl : d = d' := by omega
      exact .inr ⟨rfl, Int.ofNat_le.mpr (value_le_iff.mp hle)⟩

theorem place_le_infinity (u : UnpackedFloat) : place u ≤ place (.infinity .positive) := by
  have hleft : ∀ i < 2, ∀ rest : ℤ ×ₗ ℤ, toLex (i, rest) ≤ place (.infinity .positive) :=
    fun _ hi _ => (Prod.Lex.toLex_lt_toLex.mpr (.inl hi)).le
  cases u with
  | notANumber | zero _ => exact hleft 0 (by decide) _
  | infinity s =>
    cases s with
    | negative => exact hleft (-2) (by decide) _
    | positive => exact le_rfl
  | finite s m e hm =>
    cases s with
    | negative => exact hleft (-1) (by decide) _
    | positive => exact hleft 1 (by decide) _

variable {x y z : Float}

theorem isNumber_of_sub (h : IsNumber (x - y)) : IsNumber y := by
  rw [isNumber_iff] at h ⊢
  intro hy
  have hsub : UnpackedFloat.sub Format.binary64 x.toModel.unpack y.toModel.unpack = .notANumber := by
    rw [hy]
    cases x.toModel.unpack <;> rfl
  apply h
  show (Float.Model.pack (UnpackedFloat.sub Format.binary64 x.toModel.unpack y.toModel.unpack)).unpack = _
  rw [hsub]
  rfl

/-- What is left of a double, once one that is not below zero is taken from it, is at most that double, unless it is
no longer above zero. -/
theorem sub_le (hx : 0.0 < x) (hy : ¬ y < 0.0) (h : 0.0 < x - y) : x - y ≤ x := by
  let u := UnpackedFloat.sub Format.binary64 x.toModel.unpack y.toModel.unpack
  have hunpack : (x - y).toModel.unpack = (Float.Model.pack u).unpack := rfl
  obtain ⟨hzero, hnumber, _⟩ := lt_iff.mp h
  have hzeroLe : 0.0 ≤ y := le_of_not_lt hzero (isNumber_of_sub hnumber) hy
  -- Nothing that is below zero is packed as something above it.
  have hsign : signOf u = .positive := by
    rw [← signOf_pack (hunpack ▸ isNumber_iff.mp hnumber)]
    exact unsigned_of_pos h
  refine le_iff.mpr ⟨hnumber, (lt_iff.mp hx).2.1, ?_⟩
  rw [hunpack]
  obtain hinfinite | ⟨m, e, hm, hfinite⟩ := eq_of_zero_compare (zero_lt_iff.mp hx)
  · rw [hinfinite]
    exact place_le_infinity _
  · obtain ⟨hshort, he⟩ := short_of_unpack (b := x.toModel.toBits.toBitVec) hfinite
    rw [hfinite]
    have hu : u = UnpackedFloat.sub Format.binary64 (.finite .positive m e hm) y.toModel.unpack := by
      rw [← hfinite]
    refine place_pack_le ?_ he hsign
    rw [hu] at hsign ⊢
    exact noMore_sub hshort (zero_le_iff.mp hzeroLe) hsign

/-- What is left of a double above zero, held above zero, does not pass a bound that the double did not pass. -/
theorem atLeast_sub_le (hx : 0.0 < x) (hy : ¬ y < 0.0) (h : x ≤ z) : atLeast 0.0 (x - y) ≤ z := by
  unfold atLeast
  split
  · next hleft => exact le_trans (sub_le hx hy hleft) h
  · exact le_trans (le_of_lt hx) h

end Menagerie.Number
