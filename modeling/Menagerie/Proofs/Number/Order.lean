import Mathlib.Data.Prod.Lex
import Menagerie.Number.Binary

/-!
# The order of doubles

Doubles that are numbers lie on one line (`place`), both zeros in one place, and they are compared as
their places are (`le_iff`, `lt_iff`). What is not a number is neither at most, nor below, nor above
anything: that a double is not above a bound says that it is at most the bound only of numbers
(`le_of_not_lt`).
-/

namespace Menagerie.Number

open Float.Model Float.Model.UnpackedFloat

/-- The place of a double taken apart: by its sign and whether it is finite, and then by exponent and
mantissa. -/
def place : UnpackedFloat → ℤ ×ₗ ℤ ×ₗ ℤ
  | .notANumber | .zero _ => toLex (0, toLex (0, 0))
  | .infinity .negative => toLex (-2, toLex (0, 0))
  | .infinity .positive => toLex (2, toLex (0, 0))
  | .finite .negative mantissa exponent _ => toLex (-1, toLex (-exponent, -mantissa))
  | .finite .positive mantissa exponent _ => toLex (1, toLex (exponent, mantissa))

theorem compare_neg (i j : ℤ) : compare (-i) (-j) = (compare i j).swap := by
  rw [Int.compare_swap, ← cmp_eq_compare, ← cmp_eq_compare]
  exact StrictAnti.cmp_map_eq (fun _ _ => Int.neg_lt_neg) i j

theorem compare_natCast (m n : ℕ) : compare (m : ℤ) n = compare m n := by
  rw [← cmp_eq_compare, ← cmp_eq_compare]
  exact StrictMono.cmp_map_eq (fun _ _ => Int.ofNat_lt.mpr) m n

/-- Numbers are compared as their places are. -/
theorem compare_eq_compare_place {u v : UnpackedFloat} (hu : u ≠ .notANumber) (hv : v ≠ .notANumber) :
    UnpackedFloat.compare u v = some (compare (place u) (place v)) := by
  cases u with
  | notANumber => exact absurd rfl hu
  | infinity s =>
    cases v with
    | notANumber => exact absurd rfl hv
    | zero s' => cases s <;> rfl
    | infinity s' | finite s' => cases s <;> cases s' <;> rfl
  | zero s =>
    cases v with
    | notANumber => exact absurd rfl hv
    | zero s' => rfl
    | infinity s' | finite s' => cases s' <;> rfl
  | finite s m e hm =>
    cases v with
    | notANumber => exact absurd rfl hv
    | zero s' => cases s <;> rfl
    | infinity s' => cases s <;> cases s' <;> rfl
    | finite s' m' e' hm' =>
      cases s with
      | negative =>
        cases s' with
        | positive => rfl
        | negative =>
          show some ((compare e e').then (compare m m')).swap =
            some ((compare (-e) (-e')).then (compare (-m : ℤ) (-m')))
          rw [Ordering.swap_then, compare_neg, compare_neg, compare_natCast]
      | positive =>
        cases s' with
        | negative => rfl
        | positive =>
          show some ((compare e e').then (compare m m')) =
            some ((compare e e').then (compare (m : ℤ) m'))
          rw [compare_natCast]

/-- Whether a double is a number. -/
def IsNumber (x : Float) : Prop := x.isNaN = false

variable {x y z : Float}

theorem isNumber_iff : IsNumber x ↔ x.toModel.unpack ≠ .notANumber := by
  unfold IsNumber Float.isNaN Float.Model.isNaN
  cases x.toModel.unpack with
  | notANumber => exact ⟨(nomatch ·), fun h => absurd rfl h⟩
  | infinity _ | zero _ | finite _ _ _ _ => exact ⟨fun _ => nofun, fun _ => rfl⟩

theorem isNumber_zero : IsNumber 0.0 := rfl

theorem compare_notANumber (u : UnpackedFloat) : UnpackedFloat.compare u .notANumber = none := by
  cases u <;> rfl

/-- Of doubles that are compared both are numbers. -/
theorem isNumber_of_compare {o : Ordering}
    (h : UnpackedFloat.compare x.toModel.unpack y.toModel.unpack = some o) : IsNumber x ∧ IsNumber y := by
  rw [isNumber_iff, isNumber_iff]
  constructor
  · intro hx
    rw [hx] at h
    cases h
  · intro hy
    rw [hy, compare_notANumber] at h
    cases h

theorem lt_iff :
    x < y ↔ IsNumber x ∧ IsNumber y ∧ place x.toModel.unpack < place y.toModel.unpack := by
  show decide (UnpackedFloat.lt x.toModel.unpack y.toModel.unpack = true) = true ↔ _
  rw [decide_eq_true_iff]
  unfold UnpackedFloat.lt
  rw [beq_iff_eq]
  constructor
  · intro h
    obtain ⟨hx, hy⟩ := isNumber_of_compare h
    rw [compare_eq_compare_place (isNumber_iff.mp hx) (isNumber_iff.mp hy)] at h
    exact ⟨hx, hy, compare_lt_iff_lt.mp (Option.some.inj h)⟩
  · rintro ⟨hx, hy, h⟩
    rw [compare_eq_compare_place (isNumber_iff.mp hx) (isNumber_iff.mp hy)]
    exact congrArg some (compare_lt_iff_lt.mpr h)

theorem le_iff :
    x ≤ y ↔ IsNumber x ∧ IsNumber y ∧ place x.toModel.unpack ≤ place y.toModel.unpack := by
  show decide (UnpackedFloat.le x.toModel.unpack y.toModel.unpack = true) = true ↔ _
  rw [decide_eq_true_iff]
  unfold UnpackedFloat.le
  rw [Option.any_eq_true]
  constructor
  · rintro ⟨o, h, ho⟩
    obtain ⟨hx, hy⟩ := isNumber_of_compare h
    rw [compare_eq_compare_place (isNumber_iff.mp hx) (isNumber_iff.mp hy)] at h
    cases h
    refine ⟨hx, hy, compare_le_iff_le.mp ?_⟩
    rwa [Ordering.isLE_iff_ne_gt] at ho
  · rintro ⟨hx, hy, h⟩
    refine ⟨_, compare_eq_compare_place (isNumber_iff.mp hx) (isNumber_iff.mp hy), ?_⟩
    rw [Ordering.isLE_iff_ne_gt]
    exact compare_le_iff_le.mpr h

theorem le_refl (hx : IsNumber x) : x ≤ x := le_iff.mpr ⟨hx, hx, le_rfl⟩

theorem le_of_lt (h : x < y) : x ≤ y := by
  rw [lt_iff] at h
  exact le_iff.mpr ⟨h.1, h.2.1, h.2.2.le⟩

theorem le_trans (h : x ≤ y) (h' : y ≤ z) : x ≤ z := by
  rw [le_iff] at h h' ⊢
  exact ⟨h.1, h'.2.1, h.2.2.trans h'.2.2⟩

theorem not_lt_of_le (h : x ≤ y) : ¬ y < x := by
  rw [lt_iff]
  exact fun hlt => (le_iff.mp h).2.2.not_gt hlt.2.2

theorem le_of_not_lt (hx : IsNumber x) (hy : IsNumber y) (h : ¬ y < x) : x ≤ y := by
  refine le_iff.mpr ⟨hx, hy, le_of_not_gt fun hlt => ?_⟩
  exact h (lt_iff.mpr ⟨hy, hx, hlt⟩)

theorem beq_iff :
    x == y ↔ IsNumber x ∧ IsNumber y ∧ place x.toModel.unpack = place y.toModel.unpack := by
  show (UnpackedFloat.compare x.toModel.unpack y.toModel.unpack == some .eq) = true ↔ _
  rw [beq_iff_eq]
  constructor
  · intro h
    obtain ⟨hx, hy⟩ := isNumber_of_compare h
    rw [compare_eq_compare_place (isNumber_iff.mp hx) (isNumber_iff.mp hy)] at h
    exact ⟨hx, hy, compare_eq_iff_eq.mp (Option.some.inj h)⟩
  · rintro ⟨hx, hy, h⟩
    rw [compare_eq_compare_place (isNumber_iff.mp hx) (isNumber_iff.mp hy)]
    exact congrArg some (compare_eq_iff_eq.mpr h)

theorem beq_trans (h : x == y) (h' : y == z) : x == z := by
  rw [beq_iff] at h h' ⊢
  exact ⟨h.1, h'.2.1, h.2.2.trans h'.2.2⟩

theorem le_of_beq (h : x == y) : x ≤ y := by
  rw [beq_iff] at h
  exact le_iff.mpr ⟨h.1, h.2.1, h.2.2.le⟩

theorem lt_or_beq_of_le (h : x ≤ y) : x < y ∨ x == y := by
  rw [le_iff] at h
  rw [lt_iff, beq_iff]
  exact h.2.2.lt_or_eq.imp (fun hlt => ⟨h.1, h.2.1, hlt⟩) fun heq => ⟨h.1, h.2.1, heq⟩

/-! ## Bounds -/

theorem le_atLeast {floor : Float} (hfloor : IsNumber floor) (x : Float) : floor ≤ atLeast floor x := by
  unfold atLeast
  split
  · next h => exact le_of_lt h
  · exact le_refl hfloor

theorem atMost_le {ceiling : Float} (hceiling : IsNumber ceiling) (x : Float) : atMost ceiling x ≤ ceiling := by
  unfold atMost
  split
  · exact le_refl hceiling
  · next hx =>
    split
    · exact le_refl hceiling
    · next h => exact le_of_not_lt (Bool.eq_false_iff.mpr hx) hceiling h

/-- What is held below a ceiling that is not below a bound is not below that bound either, or is as it was. -/
theorem le_atMost_or {bound ceiling : Float} (h : bound ≤ ceiling) (x : Float) :
    bound ≤ atMost ceiling x ∨ x < bound ∧ atMost ceiling x = x := by
  unfold atMost
  split
  · exact .inl h
  · next hx =>
    split
    · exact .inl h
    · by_cases hbelow : x < bound
      · exact .inr ⟨hbelow, rfl⟩
      · exact .inl (le_of_not_lt (le_iff.mp h).1 (Bool.eq_false_iff.mpr hx) hbelow)

end Menagerie.Number
