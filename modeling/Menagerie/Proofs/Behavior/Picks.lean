import Menagerie.Proofs.Behavior.Weighted
import Menagerie.Proofs.Number.Sums

/-!
# Which entries a draw may pick

An entry counts if its weight is finite and above zero. No draw picks another one, and every draw picks one if
there is one that counts, whatever the other weights are and wherever rounding leaves the running total
(`pickWeighted_exact`). The least draw picks the first entry that counts as long as the weights add up to
something finite; where they do not, its share of the whole is no number, no running total exceeds that, and it
picks the last entry that counts instead (`pickWeighted_zero`, `pickWeighted_zero_overflow`).
-/

namespace Menagerie

open Number

/-- Whether a weight counts. -/
def Weighs (w : Float) : Prop := w.isFinite ∧ 0.0 < w

variable {w x draw target total : Float} {weights : List Float} {index : Nat} {last : Option Nat}

theorem usableWeight_of_weighs (h : Weighs w) : usableWeight w = w := usableWeight_of_pos h.1 h.2

theorem usableWeight_of_not_weighs (h : ¬ Weighs w) : usableWeight w = 0.0 := by
  unfold usableWeight
  rw [if_neg]
  rw [Bool.and_eq_true, decide_eq_true_eq]
  exact h

theorem usableWeight_le_zero_iff : usableWeight w ≤ 0.0 ↔ ¬ Weighs w := by
  constructor
  · intro hle hcounts
    rw [usableWeight_of_weighs hcounts] at hle
    exact not_le_zero_of_pos hcounts.2 hle
  · intro h
    rw [usableWeight_of_not_weighs h]
    decide

/-- A whole weight counts unless it is zero. -/
theorem weighs_toFloat_iff {n : UInt32} : Weighs n.toFloat ↔ n ≠ 0 := by
  constructor
  · rintro ⟨-, hpos⟩ rfl
    exact absurd hpos (by decide)
  · exact toFloat_of_ne_zero

/-- A weight that is passed over leaves the running total and the last entry that counts. -/
theorem pickFrom_cons_of_not_weighs (h : ¬ Weighs w) :
    pickFrom target (w :: weights) index total last = pickFrom target weights (index + 1) total last := by
  rw [pickFrom]
  exact if_pos (usableWeight_le_zero_iff.mpr h)

theorem pickFrom_cons_of_weighs (h : Weighs w) :
    pickFrom target (w :: weights) index total last =
      if total + w > target then some index else pickFrom target weights (index + 1) (total + w) (some index) := by
  rw [pickFrom, usableWeight_of_weighs h]
  exact if_neg (not_le_zero_of_pos h.2)

/-! ## The sum -/

/-- What has been added up is above zero once a weight counts, and stays so. -/
theorem zero_lt_foldl_iff (weights : List Float) (hx : 0.0 < x ∨ x = 0.0) :
    (0.0 < (weights.map usableWeight).foldl (· + ·) x ∨ (weights.map usableWeight).foldl (· + ·) x = 0.0) ∧
      (0.0 < (weights.map usableWeight).foldl (· + ·) x ↔ 0.0 < x ∨ ∃ w ∈ weights, Weighs w) := by
  induction weights generalizing x with
  | nil => exact ⟨hx, by simp⟩
  | cons w rest ih =>
    simp only [List.map_cons, List.foldl_cons, List.mem_cons, exists_eq_or_imp]
    by_cases hw : Weighs w
    · have hsum : 0.0 < x + w := by
        obtain hpos | rfl := hx
        · exact add_pos hpos hw.2
        · rw [zero_add_of_pos hw.2 hw.1]
          exact hw.2
      rw [usableWeight_of_weighs hw]
      obtain ⟨hcases, hiff⟩ := ih (.inl hsum)
      exact ⟨hcases, hiff.trans (by simp [hsum, hw])⟩
    · have hsum : x + 0.0 = x := by
        obtain hpos | rfl := hx
        · exact add_zero_of_pos hpos
        · rfl
      rw [usableWeight_of_not_weighs hw, hsum]
      obtain ⟨hcases, hiff⟩ := ih hx
      exact ⟨hcases, hiff.trans (by simp [hw])⟩

/-- The weights add up to more than zero if one of them counts. -/
theorem totalWeight_pos_iff : 0.0 < totalWeight weights ↔ ∃ w ∈ weights, Weighs w := by
  refine (zero_lt_foldl_iff weights (.inr rfl)).2.trans (or_iff_right ?_)
  decide

theorem totalWeight_le_zero_iff : totalWeight weights ≤ 0.0 ↔ ∀ w ∈ weights, ¬ Weighs w := by
  have hsome : (∀ w ∈ weights, ¬ Weighs w) ↔ ¬ 0.0 < totalWeight weights := by
    rw [totalWeight_pos_iff]
    simp
  rw [hsome]
  obtain hpos | hzero := (zero_lt_foldl_iff weights (.inr rfl)).1
  · exact iff_of_false (not_le_zero_of_pos hpos) (not_not_intro hpos)
  · have htotal : totalWeight weights = 0.0 := hzero
    rw [htotal]
    decide

/-! ## The pick -/

/-- What is picked counts, or was the last that counted before. -/
theorem weighs_of_pickFrom {i : Nat} (h : pickFrom target weights index total last = some i) :
    last = some i ∨ ∃ j, i = index + j ∧ ∃ hj : j < weights.length, Weighs weights[j] := by
  induction weights generalizing index total last with
  | nil => exact .inl h
  | cons w rest ih =>
    -- An entry of the rest is one further in the whole.
    have hshift {last' : Option Nat}
        (h' : last' = some i ∨ ∃ j, i = index + 1 + j ∧ ∃ hj : j < rest.length, Weighs rest[j]) :
        last' = some i ∨ ∃ j, i = index + j ∧ ∃ hj : j < (w :: rest).length, Weighs (w :: rest)[j] := by
      refine h'.imp_right ?_
      rintro ⟨j, rfl, hj, hcounts⟩
      exact ⟨j + 1, by omega, Nat.succ_lt_succ hj, hcounts⟩
    by_cases hw : Weighs w
    · have hhere : ∃ j, index = index + j ∧ ∃ hj : j < (w :: rest).length, Weighs (w :: rest)[j] :=
        ⟨0, rfl, Nat.succ_pos _, hw⟩
      rw [pickFrom_cons_of_weighs hw] at h
      split at h
      · cases h
        exact .inr hhere
      · obtain hlast | hlater := hshift (ih h)
        · cases hlast
          exact .inr hhere
        · exact .inr hlater
    · rw [pickFrom_cons_of_not_weighs hw] at h
      exact hshift (ih h)

theorem pickWeighted_of_weighs (h : ∃ w ∈ weights, Weighs w) :
    pickWeighted weights draw = pickFrom (clamp 0.0 1.0 draw * totalWeight weights) weights 0 0.0 none :=
  if_neg (not_le_zero_of_pos (totalWeight_pos_iff.mpr h))

theorem pickWeighted_eq_none_iff : pickWeighted weights draw = none ↔ ∀ w ∈ weights, ¬ Weighs w := by
  by_cases hsome : ∃ w ∈ weights, Weighs w
  · obtain ⟨w, hw, hcounts⟩ := hsome
    have hpicks : (pickWeighted weights draw).isSome := by
      rw [pickWeighted_of_weighs ⟨w, hw, hcounts⟩]
      exact pickFrom_isSome (.inr ⟨w, hw, fun hle => usableWeight_le_zero_iff.mp hle hcounts⟩)
    exact iff_of_false (Option.isSome_iff_ne_none.mp hpicks) fun hnone => hnone w hw hcounts
  · have hnone : ∀ w ∈ weights, ¬ Weighs w := fun w hw hcounts => hsome ⟨w, hw, hcounts⟩
    exact iff_of_true (if_pos (totalWeight_le_zero_iff.mpr hnone)) hnone

theorem weighs_of_pickWeighted {i : Nat} (h : pickWeighted weights draw = some i) :
    ∃ hi : i < weights.length, Weighs weights[i] := by
  have hsome : ∃ w ∈ weights, Weighs w := by
    by_contra hnot
    have hnone : pickWeighted weights draw = none :=
      pickWeighted_eq_none_iff.mpr fun w hw hcounts => hnot ⟨w, hw, hcounts⟩
    rw [hnone] at h
    cases h
  rw [pickWeighted_of_weighs hsome] at h
  obtain hlast | ⟨j, rfl, hj, hcounts⟩ := weighs_of_pickFrom h
  · cases hlast
  · rw [Nat.zero_add]
    exact ⟨hj, hcounts⟩

/-- A draw picks nothing exactly where no weight counts, and otherwise an entry whose weight counts. -/
theorem pickWeighted_exact (weights : List Float) (draw : Float) :
    (pickWeighted weights draw = none ↔ ∀ w ∈ weights, ¬ Weighs w) ∧
      ∀ i ∈ pickWeighted weights draw, ∃ h : i < weights.length, Weighs weights[i] :=
  ⟨pickWeighted_eq_none_iff, fun _ hi => weighs_of_pickWeighted hi⟩

/-! ## The least draw -/

/-- Nothing more is picked where nothing more counts. -/
theorem pickFrom_of_none (h : ∀ w ∈ weights, ¬ Weighs w) : pickFrom target weights index total last = last := by
  induction weights generalizing index with
  | nil => rfl
  | cons w rest ih =>
    rw [List.forall_mem_cons] at h
    rw [pickFrom_cons_of_not_weighs h.1, ih h.2]

/-- Every running total exceeds zero, so that the first entry that counts is picked. -/
theorem pickFrom_zero (index : Nat) (last : Option Nat) (h : ∃ w ∈ weights, Weighs w) :
    ∃ j, pickFrom 0.0 weights index 0.0 last = some (index + j) ∧
      ∃ hj : j < weights.length, Weighs weights[j] ∧ ∀ k (hk : k < j), ¬ Weighs weights[k] := by
  induction weights generalizing index with
  | nil => simp at h
  | cons w rest ih =>
    by_cases hw : Weighs w
    · have hexceeds : 0.0 + w > 0.0 := by
        rw [zero_add_of_pos hw.2 hw.1]
        exact hw.2
      rw [pickFrom_cons_of_weighs hw, if_pos hexceeds]
      exact ⟨0, rfl, Nat.succ_pos _, hw, fun k hk => nomatch hk⟩
    · have hrest : ∃ w ∈ rest, Weighs w := by simpa [hw] using h
      rw [pickFrom_cons_of_not_weighs hw]
      obtain ⟨j, hpick, hj, hcounts, hfirst⟩ := ih (index + 1) hrest
      refine ⟨j + 1, ?_, Nat.succ_lt_succ hj, hcounts, ?_⟩
      · rw [hpick, Nat.add_assoc, Nat.add_comm 1]
      · intro k hk
        cases k with
        | zero => exact hw
        | succ k => exact hfirst k (Nat.lt_of_succ_lt_succ hk)

/-- No running total exceeds what is no number, so that the last entry that counts is picked. -/
theorem pickFrom_nan (index : Nat) (total : Float) (last : Option Nat) (h : ∃ w ∈ weights, Weighs w) :
    ∃ j, pickFrom nan weights index total last = some (index + j) ∧
      ∃ hj : j < weights.length, Weighs weights[j] ∧ ∀ k (hk : k < weights.length), j < k → ¬ Weighs weights[k] := by
  induction weights generalizing index total last with
  | nil => simp at h
  | cons w rest ih =>
    by_cases hrest : ∃ w ∈ rest, Weighs w
    · -- Whether or not the first counts, one of the rest is picked.
      obtain ⟨total', last', hpick⟩ : ∃ total' last',
          pickFrom nan (w :: rest) index total last = pickFrom nan rest (index + 1) total' last' := by
        by_cases hw : Weighs w
        · exact ⟨_, _, (pickFrom_cons_of_weighs hw).trans (if_neg (not_lt_nan _))⟩
        · exact ⟨_, _, pickFrom_cons_of_not_weighs hw⟩
      obtain ⟨j, hrestPick, hj, hcounts, hlast⟩ := ih (index + 1) total' last' hrest
      refine ⟨j + 1, ?_, Nat.succ_lt_succ hj, hcounts, ?_⟩
      · rw [hpick, hrestPick, Nat.add_assoc, Nat.add_comm 1]
      · intro k hk hjk
        cases k with
        | zero => exact absurd hjk (Nat.not_lt_zero _)
        | succ k => exact hlast k (Nat.lt_of_succ_lt_succ hk) (Nat.lt_of_succ_lt_succ hjk)
    · have hw : Weighs w := by simpa [hrest] using h
      have hnone : ∀ w ∈ rest, ¬ Weighs w := fun w hmem hcounts => hrest ⟨w, hmem, hcounts⟩
      rw [pickFrom_cons_of_weighs hw, if_neg (not_lt_nan _), pickFrom_of_none hnone]
      refine ⟨0, rfl, Nat.succ_pos _, hw, ?_⟩
      intro k hk hjk
      cases k with
      | zero => exact absurd hjk (Nat.lt_irrefl _)
      | succ k => exact hnone _ (List.getElem_mem _)

/-- Of a checked table the least draw picks the first entry above zero if the weights add up to something finite,
and the last one if they do not. -/
theorem pickWeighted_zero {weights : List Float} (fit : ∀ w ∈ weights, FitWeight w)
    (hsome : ∃ w ∈ weights, 0.0 < w) :
    ∃ i, pickWeighted weights 0.0 = some i ∧ ∃ h : i < weights.length, 0.0 < weights[i] ∧
      if (weights.foldl (· + ·) 0.0).isFinite then ∀ j (hj : j < i), ¬ 0.0 < weights[j]
      else ∀ j (hj : j < weights.length), i < j → ¬ 0.0 < weights[j] := by
  have hcounts : ∃ w ∈ weights, Weighs w := by
    obtain ⟨w, hw, hpos⟩ := hsome
    exact ⟨w, hw, (fit w hw).1, hpos⟩
  have hidle {j : Nat} (hj : j < weights.length) (hnot : ¬ Weighs weights[j]) : ¬ 0.0 < weights[j] :=
    fun hpos => hnot ⟨(fit _ (List.getElem_mem hj)).1, hpos⟩
  have hpos : 0.0 < totalWeight weights := totalWeight_pos_iff.mpr hcounts
  have hpick : pickWeighted weights 0.0 = pickFrom (0.0 * totalWeight weights) weights 0 0.0 none := by
    have hclamp : clamp 0.0 1.0 0.0 = 0.0 := rfl
    rw [pickWeighted_of_weighs hcounts, hclamp]
  rw [← totalWeight_eq fit, hpick]
  split
  · next hfinite =>
    rw [zero_mul_of_pos hpos hfinite]
    obtain ⟨j, hj, hlt, hcount, hfirst⟩ := pickFrom_zero 0 none hcounts
    rw [Nat.zero_add] at hj
    exact ⟨j, hj, hlt, hcount.2, fun k hk => hidle _ (hfirst k hk)⟩
  · next hinfinite =>
    rw [eq_infinity_of_pos hpos (Bool.eq_false_iff.mpr hinfinite), zero_mul_infinity]
    obtain ⟨j, hj, hlt, hcount, hlast⟩ := pickFrom_nan 0 0.0 none hcounts
    rw [Nat.zero_add] at hj
    exact ⟨j, hj, hlt, hcount.2, fun k hk hjk => hidle _ (hlast k hk hjk)⟩

/-- The least draw passes over zeros of either sign. -/
theorem pickWeighted_zero_third :
    (∀ w ∈ [0.0, -0.0, 3.0, 1.0], FitWeight w) ∧ (∃ w ∈ ([0.0, -0.0, 3.0, 1.0] : List Float), 0.0 < w) ∧
      ∃ i, pickWeighted [0.0, -0.0, 3.0, 1.0] 0.0 = some i ∧
        ∃ h : i < [0.0, -0.0, 3.0, 1.0].length, 0.0 < [0.0, -0.0, 3.0, 1.0][i] ∧
          if ([0.0, -0.0, 3.0, 1.0].foldl (· + ·) 0.0).isFinite then
            ∀ j (hj : j < i), ¬ 0.0 < [0.0, -0.0, 3.0, 1.0][j]
          else ∀ j (hj : j < [0.0, -0.0, 3.0, 1.0].length), i < j → ¬ 0.0 < [0.0, -0.0, 3.0, 1.0][j] := by
  have fit : ∀ w ∈ [0.0, -0.0, 3.0, 1.0], FitWeight w := by
    unfold FitWeight
    decide
  have hsome : ∃ w ∈ ([0.0, -0.0, 3.0, 1.0] : List Float), 0.0 < w := by decide
  exact ⟨fit, hsome, pickWeighted_zero fit hsome⟩

/-- Two weights of a checked table that are as large as can be add up to something infinite, and the least draw
picks the second. -/
theorem pickWeighted_zero_overflow :
    (∀ w ∈ [Float.ofBits 0x7fefffffffffffff, Float.ofBits 0x7fefffffffffffff], FitWeight w) ∧
      0.0 < Float.ofBits 0x7fefffffffffffff ∧
      pickWeighted [Float.ofBits 0x7fefffffffffffff, Float.ofBits 0x7fefffffffffffff] 0.0 = some 1 := by
  unfold FitWeight
  decide

end Menagerie
