import Menagerie.Behavior.Weighted
import Menagerie.Proofs.Number.Sign

/-!
# A draw from a checked table picks an entry

The weights of a table drawn from on spawning are finite and not negative, and their sum is
positive. That is checked with the weights as they are written, while a draw takes zeros of either
sign for zero. The two sums are the same (`totalWeight_eq`), so that a draw from a checked table
always picks one of its entries (`exists_pickWeighted`).
-/

namespace Menagerie

open Number

/-- What is checked of each weight of a table. -/
def FitWeight (w : Float) : Prop := w.isFinite ∧ 0.0 ≤ w

theorem usableWeight_of_pos {w : Float} (hfinite : w.isFinite) (hpos : 0.0 < w) :
    usableWeight w = w := by
  unfold usableWeight
  rw [if_pos (by simp [hfinite, hpos])]

theorem usableWeight_of_not_pos {w : Float} (h : ¬ 0.0 < w) : usableWeight w = 0.0 := by
  unfold usableWeight
  rw [if_neg (by simp [h])]

/-- A weight made usable is one that is above zero, or else zero. -/
theorem usableWeight_cases (w : Float) : 0.0 < usableWeight w ∨ usableWeight w = 0.0 := by
  unfold usableWeight
  split
  · next h =>
    simp only [Bool.and_eq_true, decide_eq_true_eq] at h
    exact .inl h.2
  · exact .inr rfl

theorem unsigned_usableWeight (w : Float) : Unsigned (usableWeight w) := by
  obtain hpos | hzero := usableWeight_cases w
  · exact unsigned_of_pos hpos
  · rw [hzero]
    exact unsigned_zero

/-- A weight does not count if it is no more than zero once it is made usable. -/
theorem usableWeight_eq_zero {w : Float} (h : usableWeight w ≤ 0.0) : usableWeight w = 0.0 := by
  obtain hpos | hzero := usableWeight_cases w
  · exact absurd h (not_le_zero_of_pos hpos)
  · exact hzero

/-! ## The sum -/

theorem add_usableWeight {x w : Float} (hx : Unsigned x) (hw : FitWeight w) :
    x + usableWeight w = x + w := by
  by_cases hpos : 0.0 < w
  · rw [usableWeight_of_pos hw.1 hpos]
  · rw [usableWeight_of_not_pos hpos, add_eq_add_zero hx hw.2 hpos]

theorem foldl_usableWeight {weights : List Float} {x : Float} (hx : Unsigned x)
    (fit : ∀ w ∈ weights, FitWeight w) :
    (weights.map usableWeight).foldl (· + ·) x = weights.foldl (· + ·) x := by
  induction weights generalizing x with
  | nil => rfl
  | cons w rest ih =>
    rw [List.forall_mem_cons] at fit
    simp only [List.map_cons, List.foldl_cons]
    rw [← add_usableWeight hx fit.1]
    exact ih (hx.add (unsigned_usableWeight w)) fit.2

/-- The weights that count add up to what all weights add up to. -/
theorem totalWeight_eq {weights : List Float} (fit : ∀ w ∈ weights, FitWeight w) :
    totalWeight weights = weights.foldl (· + ·) 0.0 :=
  foldl_usableWeight unsigned_zero fit

theorem foldl_zero (n : Nat) : (List.replicate n (0.0 : Float)).foldl (· + ·) 0.0 = 0.0 := by
  induction n with
  | zero => rfl
  | succ n ih => exact ih

/-- Weights add up to zero where none of them counts. -/
theorem totalWeight_eq_zero {weights : List Float} (h : ∀ w ∈ weights, usableWeight w ≤ 0.0) :
    totalWeight weights = 0.0 := by
  have hzero : weights.map usableWeight = List.replicate weights.length 0.0 := by
    rw [List.eq_replicate_iff, List.forall_mem_map]
    exact ⟨List.length_map usableWeight, fun w hw => usableWeight_eq_zero (h w hw)⟩
  rw [totalWeight, hzero, foldl_zero]

/-! ## The pick -/

theorem pickFrom_isSome {target total : Float} {weights : List Float} {index : Nat}
    {last : Option Nat} (h : last.isSome ∨ ∃ w ∈ weights, ¬ usableWeight w ≤ 0.0) :
    (pickFrom target weights index total last).isSome := by
  induction weights generalizing index total last with
  | nil => simpa [pickFrom] using h
  | cons w rest ih =>
    simp only [pickFrom]
    split
    · next hle =>
      refine ih (h.imp_right ?_)
      rintro ⟨w', hw', hcounts⟩
      obtain rfl | hw' := List.mem_cons.mp hw'
      · exact absurd hle hcounts
      · exact ⟨w', hw', hcounts⟩
    · split
      · rfl
      · exact ih (.inl rfl)

theorem pickFrom_lt {target total : Float} {weights : List Float} {index i : Nat}
    {last : Option Nat} (hlast : ∀ j, last = some j → j < index + weights.length)
    (h : pickFrom target weights index total last = some i) : i < index + weights.length := by
  induction weights generalizing index total last with
  | nil => exact hlast i h
  | cons w rest ih =>
    rw [List.length_cons] at hlast ⊢
    simp only [pickFrom] at h
    split at h
    · have := ih (fun j hj => by have := hlast j hj; omega) h
      omega
    · split at h
      · cases h
        omega
      · have := ih (by rintro j ⟨⟩; omega) h
        omega

theorem pickWeighted_lt {weights : List Float} {draw : Float} {i : Nat}
    (h : pickWeighted weights draw = some i) : i < weights.length := by
  unfold pickWeighted at h
  dsimp only at h
  split at h
  · cases h
  · simpa using pickFrom_lt (by rintro j ⟨⟩) h

/-- Every draw from a checked table picks one of its entries. -/
theorem exists_pickWeighted {weights : List Float} (fit : ∀ w ∈ weights, FitWeight w)
    (h : ¬ weights.foldl (· + ·) 0.0 ≤ 0.0) (draw : Float) :
    ∃ i < weights.length, pickWeighted weights draw = some i := by
  have htotal : ¬ totalWeight weights ≤ 0.0 := by
    rwa [totalWeight_eq fit]
  have hcounts : ∃ w ∈ weights, ¬ usableWeight w ≤ 0.0 := by
    by_cases hnone : ∀ w ∈ weights, usableWeight w ≤ 0.0
    · rw [totalWeight_eq_zero hnone] at htotal
      exact absurd (by decide) htotal
    · simpa using hnone
  have hsome : (pickFrom (clamp 0.0 1.0 draw * totalWeight weights) weights 0 0.0 none).isSome :=
    pickFrom_isSome (.inr hcounts)
  obtain ⟨i, hi⟩ := Option.isSome_iff_exists.mp hsome
  have hpick : pickWeighted weights draw = some i := by
    unfold pickWeighted
    dsimp only
    rw [if_neg htotal, hi]
  exact ⟨i, pickWeighted_lt hpick, hpick⟩

end Menagerie
