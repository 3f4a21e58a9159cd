import Menagerie.Number.Binary

/-!
# Sums of unsigned doubles

A double is unsigned if it has no sign, as positive zero and not-a-number have none. Unsigned
doubles add up to unsigned ones, however the sum is rounded, and to an unsigned double either zero
adds the same. This is what lets a weight of negative zero count for nothing.
-/

namespace Menagerie.Number

open Float.Model Float.Model.UnpackedFloat

/-- The sign of a double taken apart; what is not a number has none. -/
def signOf : UnpackedFloat → Sign
  | .notANumber => .positive
  | .infinity s | .zero s | .finite s _ _ _ => s

/-- Whether a double is without a sign. -/
def Unsigned (x : Float) : Prop := signOf x.toModel.unpack = .positive

/-- A zero and a finite number of the same sign. -/
theorem signOf_dite {c : Prop} [Decidable c] {s : Sign} {mantissa : Nat} {exponent : Int}
    (hpos : ¬ c → 0 < mantissa) :
    signOf (if h : c then .zero s else .finite s mantissa exponent (hpos h)) = s := by
  by_cases h : c
  · rw [dif_pos h]
    rfl
  · rw [dif_neg h]
    rfl

/-! ## Signs in packed form -/

theorem unpackSign_packComponents {spec : Format} {sign : Sign} {exponent mantissa} :
    unpackSign (packComponents spec sign exponent mantissa) = sign.toBitVec := by
  apply BitVec.eq_of_getLsbD_eq
  intro i hi
  obtain rfl : i = 0 := by omega
  show BitVec.getLsbD (BitVec.cast _ (BitVec.extractLsb _ _
    (sign.toBitVec ++ exponent ++ mantissa : BitVec spec.numBits))) 0 = _
  simp [BitVec.getLsbD_append, BitVec.getElem_append]

theorem unpackSign_pack {spec : Format} {u : UnpackedFloat} :
    unpackSign (UnpackedFloat.pack spec u) = (signOf u).toBitVec := by
  cases u with
  | notANumber => exact unpackSign_packComponents
  | infinity s => exact unpackSign_packComponents
  | zero s => exact unpackSign_packComponents
  | finite s mantissa exponent hpos =>
    show unpackSign (UnpackedFloat.pack spec _) = s.toBitVec
    unfold UnpackedFloat.pack
    dsimp only
    split
    · exact unpackSign_packComponents
    · split
      · exact unpackSign_packComponents
      · exact unpackSign_packComponents

/-- What is taken apart into a number has the sign that its first bit says. -/
theorem signOf_unpack {spec : Format} {b : BitVec spec.numBits}
    (h : UnpackedFloat.unpack spec b ≠ .notANumber) :
    signOf (UnpackedFloat.unpack spec b) = Sign.ofBitVec (unpackSign b) := by
  unfold UnpackedFloat.unpack at h ⊢
  dsimp only at h ⊢
  by_cases hlargest : unpackExponent b = -1#_
  · rw [if_pos hlargest] at h ⊢
    by_cases hnone : unpackMantissa b = 0#_
    · rw [if_pos hnone]
      rfl
    · rw [if_neg hnone] at h
      exact absurd rfl h
  · rw [if_neg hlargest]
    by_cases hleast : unpackExponent b = 0#_
    · rw [if_pos hleast]
      exact signOf_dite _
    · rw [if_neg hleast]
      rfl

theorem ofBitVec_toBitVec (s : Sign) : Sign.ofBitVec s.toBitVec = s := by
  cases s <;> rfl

/-- A number keeps its sign when it is packed. -/
theorem signOf_pack {u : UnpackedFloat} (h : (Float.Model.pack u).unpack ≠ .notANumber) :
    signOf (Float.Model.pack u).unpack = signOf u := by
  have hsign : unpackSign (UnpackedFloat.pack Format.binary64 u) = (signOf u).toBitVec := unpackSign_pack
  rw [← ofBitVec_toBitVec (signOf u), ← hsign]
  exact signOf_unpack h

theorem signOf_unpack_pack {u : UnpackedFloat} (h : signOf u = .positive) :
    signOf (Float.Model.pack u).unpack = .positive := by
  by_cases hnumber : (Float.Model.pack u).unpack = .notANumber
  · rw [hnumber]
    rfl
  · rw [signOf_pack hnumber, h]

/-! ## Sums -/

theorem signOf_roundWithAccuracy {spec : Format} {sign : Sign} {mantissa : Nat} {exponent : Int}
    {accuracy : Accuracy} : signOf (roundWithAccuracy spec sign mantissa exponent accuracy) = sign := by
  unfold roundWithAccuracy
  exact signOf_dite _

theorem signOf_round {spec : Format} {sign : Sign} {mantissa : Nat} {exponent : Int} :
    signOf (UnpackedFloat.round spec sign mantissa exponent) = sign :=
  signOf_roundWithAccuracy

theorem signOf_normalize {spec : Format} {mantissa exponent : Int} (h : 0 ≤ mantissa) :
    signOf (UnpackedFloat.normalize spec mantissa exponent .positive) = .positive := by
  unfold UnpackedFloat.normalize
  split
  · next hlt => exact absurd (Int.compare_eq_lt.mp hlt) (Int.not_lt.mpr h)
  · rfl
  · exact signOf_round

theorem signOf_add {spec : Format} {u v : UnpackedFloat} (hu : signOf u = .positive)
    (hv : signOf v = .positive) : signOf (UnpackedFloat.add spec u v) = .positive := by
  cases u with
  | notANumber => rfl
  | infinity s =>
    obtain rfl : s = .positive := hu
    cases v with
    | infinity s' =>
      obtain rfl : s' = .positive := hv
      rfl
    | _ => rfl
  | zero s =>
    obtain rfl : s = .positive := hu
    cases v with
    | zero s' =>
      obtain rfl : s' = .positive := hv
      rfl
    | _ => exact hv
  | finite s m e hm =>
    obtain rfl : s = .positive := hu
    cases v with
    | finite s' m' e' hm' =>
      obtain rfl : s' = .positive := hv
      exact signOf_normalize (Int.add_nonneg (Int.natCast_nonneg _) (Int.natCast_nonneg _))
    | infinity _ => exact hv
    | _ => rfl

/-- Either zero adds the same to what has no sign. -/
theorem add_zero_of_unsigned {spec : Format} {u : UnpackedFloat} (hu : signOf u = .positive)
    (s : Sign) : UnpackedFloat.add spec u (.zero s) = UnpackedFloat.add spec u (.zero .positive) := by
  cases u with
  | notANumber => rfl
  | infinity _ => rfl
  | zero sign =>
    obtain rfl : sign = .positive := hu
    cases s <;> rfl
  | finite _ _ _ _ => rfl

theorem Unsigned.add {x y : Float} (hx : Unsigned x) (hy : Unsigned y) : Unsigned (x + y) :=
  signOf_unpack_pack (signOf_add hx hy)

/-! ## Comparing with zero -/

theorem unpack_zero : (0.0 : Float).toModel.unpack = .zero .positive := rfl

theorem unsigned_zero : Unsigned 0.0 := by
  unfold Unsigned
  rw [unpack_zero]
  rfl

theorem zero_lt_iff {x : Float} :
    0.0 < x ↔ UnpackedFloat.compare (.zero .positive) x.toModel.unpack = some .lt := by
  show decide (UnpackedFloat.lt (0.0 : Float).toModel.unpack x.toModel.unpack = true) = true ↔ _
  rw [unpack_zero, decide_eq_true_iff]
  unfold UnpackedFloat.lt
  simp

theorem zero_le_iff {x : Float} :
    0.0 ≤ x ↔ (UnpackedFloat.compare (.zero .positive) x.toModel.unpack).any (·.isLE) := by
  show decide (UnpackedFloat.le (0.0 : Float).toModel.unpack x.toModel.unpack = true) = true ↔ _
  rw [unpack_zero, decide_eq_true_iff]
  rfl

theorem le_zero_iff {x : Float} :
    x ≤ 0.0 ↔ (UnpackedFloat.compare x.toModel.unpack (.zero .positive)).any (·.isLE) := by
  show decide (UnpackedFloat.le x.toModel.unpack (0.0 : Float).toModel.unpack = true) = true ↔ _
  rw [unpack_zero, decide_eq_true_iff]
  rfl

/-- What is above zero is infinite or finite, and without a sign. -/
theorem eq_of_zero_compare {u : UnpackedFloat}
    (h : UnpackedFloat.compare (.zero .positive) u = some .lt) :
    u = .infinity .positive ∨ ∃ m e hm, u = .finite .positive m e hm := by
  cases u with
  | notANumber => cases h
  | infinity s =>
    cases s with
    | positive => exact .inl rfl
    | negative => cases h
  | zero s => cases h
  | finite s m e hm =>
    cases s with
    | positive => exact .inr ⟨m, e, hm, rfl⟩
    | negative => cases h

theorem unsigned_of_pos {x : Float} (h : 0.0 < x) : Unsigned x := by
  unfold Unsigned
  obtain hx | ⟨m, e, hm, hx⟩ := eq_of_zero_compare (zero_lt_iff.mp h)
  · rw [hx]
    rfl
  · rw [hx]
    rfl

theorem not_le_zero_of_pos {x : Float} (h : 0.0 < x) : ¬ x ≤ 0.0 := by
  rw [le_zero_iff]
  obtain hx | ⟨m, e, hm, hx⟩ := eq_of_zero_compare (zero_lt_iff.mp h)
  · rw [hx]
    decide
  · rw [hx]
    exact Bool.false_ne_true

/-- A double that is neither below nor above zero is a zero. -/
theorem unpack_eq_zero {x : Float} (hle : 0.0 ≤ x) (hlt : ¬ 0.0 < x) :
    ∃ s, x.toModel.unpack = .zero s := by
  rw [zero_le_iff] at hle
  rw [zero_lt_iff] at hlt
  cases hx : x.toModel.unpack with
  | zero s => exact ⟨s, rfl⟩
  | notANumber =>
    rw [hx] at hle
    cases hle
  | infinity s =>
    rw [hx] at hle hlt
    cases s with
    | positive => exact absurd rfl hlt
    | negative => cases hle
  | finite s m e hm =>
    rw [hx] at hle hlt
    cases s with
    | positive => exact absurd rfl hlt
    | negative => cases hle

/-- A double that is neither below nor above zero adds the same as zero to an unsigned one. -/
theorem add_eq_add_zero {x y : Float} (hx : Unsigned x) (hle : 0.0 ≤ y) (hlt : ¬ 0.0 < y) :
    x + y = x + 0.0 := by
  obtain ⟨s, hs⟩ := unpack_eq_zero hle hlt
  have hsum : UnpackedFloat.add Format.binary64 x.toModel.unpack y.toModel.unpack =
      UnpackedFloat.add Format.binary64 x.toModel.unpack (0.0 : Float).toModel.unpack := by
    rw [hs, unpack_zero]
    exact add_zero_of_unsigned hx s
  exact congrArg (fun u => Float.ofModel (Float.Model.pack u)) hsum

end Menagerie.Number
