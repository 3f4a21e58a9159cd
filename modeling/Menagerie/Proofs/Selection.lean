import Mathlib.Order.Lattice
import Menagerie.Selection

/-!
# What is least

Where items are compared by a key in a line, `firstLeast?` picks an item whose key is at most that of every
other (`key_le_of_firstLeast?`), and of several with the least key the first (`firstLeast?_eq_some_iff`).
-/

namespace Menagerie

variable {α β : Type} [LinearOrder β] {before : α → α → Bool} {key : α → β} {l : List α}

section

variable (hbefore : ∀ a b, before a b = true ↔ key a < key b)

include hbefore

theorem key_better (a b : α) : key (better before a b) = min (key a) (key b) := by
  unfold better
  split
  · next h => exact (min_eq_right ((hbefore b a).mp h).le).symm
  · next h => exact (min_eq_left (le_of_not_gt fun hlt => h ((hbefore b a).mpr hlt))).symm

theorem key_foldl_better_le (l : List α) (a : α) : ∀ b ∈ a :: l, key (l.foldl (better before) a) ≤ key b := by
  induction l generalizing a with
  | nil =>
    intro b hb
    rw [List.mem_singleton.mp hb]
    exact le_rfl
  | cons c rest ih =>
    have hfirst : key (rest.foldl (better before) (better before a c)) ≤ min (key a) (key c) := by
      rw [← key_better hbefore]
      exact ih _ _ List.mem_cons_self
    intro b hb
    rcases List.mem_cons.mp hb with rfl | hb
    · exact hfirst.trans (min_le_left _ _)
    rcases List.mem_cons.mp hb with rfl | hb
    · exact hfirst.trans (min_le_right _ _)
    · exact ih _ b (List.mem_cons_of_mem _ hb)

/-- No item has a lesser key than the one that is picked. -/
theorem key_le_of_firstLeast? {a : α} (h : firstLeast? before l = some a) : ∀ b ∈ l, key a ≤ key b := by
  cases l with
  | nil => cases h
  | cons b rest =>
    obtain rfl := Option.some.inj h
    exact key_foldl_better_le hbefore rest b

/-! ## The first of several -/

theorem foldl_better_eq_self {a : α} (h : ∀ b ∈ l, key a ≤ key b) : l.foldl (better before) a = a := by
  induction l with
  | nil => rfl
  | cons b rest ih =>
    rw [List.forall_mem_cons] at h
    have hkept : better before a b = a := if_neg fun hlt => h.1.not_gt ((hbefore b a).mp hlt)
    rw [List.foldl_cons, hkept]
    exact ih h.2

theorem exists_append_of_foldl_better (l : List α) (a : α) :
    ∃ l₁ l₂, a :: l = l₁ ++ l.foldl (better before) a :: l₂ ∧
      (∀ b ∈ l₁, key (l.foldl (better before) a) < key b) ∧
        ∀ b ∈ l₂, key (l.foldl (better before) a) ≤ key b := by
  induction l generalizing a with
  | nil => exact ⟨[], [], rfl, List.forall_mem_nil _, List.forall_mem_nil _⟩
  | cons c rest ih =>
    rw [List.foldl_cons]
    by_cases hlt : key c < key a
    · rw [show better before a c = c from if_pos ((hbefore c a).mpr hlt)]
      obtain ⟨l₁, l₂, hsplit, hless, hle⟩ := ih c
      have hfirst := key_foldl_better_le hbefore rest c c List.mem_cons_self
      refine ⟨a :: l₁, l₂, congrArg (a :: ·) hsplit, ?_, hle⟩
      exact List.forall_mem_cons.mpr ⟨hfirst.trans_lt hlt, hless⟩
    · rw [show better before a c = a from if_neg fun h => hlt ((hbefore c a).mp h)]
      obtain ⟨l₁, l₂, hsplit, hless, hle⟩ := ih a
      cases l₁ with
      | nil =>
        obtain ⟨hfirst, rfl⟩ := List.cons.inj hsplit
        rw [← hfirst] at hle ⊢
        refine ⟨[], c :: rest, rfl, List.forall_mem_nil _, ?_⟩
        exact List.forall_mem_cons.mpr ⟨not_lt.mp hlt, hle⟩
      | cons b l₁ =>
        obtain ⟨rfl, hrest⟩ := List.cons.inj hsplit
        rw [List.forall_mem_cons] at hless
        refine ⟨a :: c :: l₁, l₂, congrArg (fun l => a :: c :: l) hrest, ?_, hle⟩
        exact List.forall_mem_cons.mpr
          ⟨hless.1, List.forall_mem_cons.mpr ⟨hless.1.trans_le (not_lt.mp hlt), hless.2⟩⟩

/-- What is picked comes before everything that is in front of it, and nothing that is behind it comes before it. -/
theorem firstLeast?_eq_some_iff {a : α} : firstLeast? before l = some a ↔
    ∃ l₁ l₂, l = l₁ ++ a :: l₂ ∧ (∀ b ∈ l₁, key a < key b) ∧ ∀ b ∈ l₂, key a ≤ key b := by
  constructor
  · intro h
    cases l with
    | nil => cases h
    | cons b rest =>
      obtain rfl := Option.some.inj h
      exact exists_append_of_foldl_better hbefore rest b
  · rintro ⟨l₁, l₂, rfl, hless, hle⟩
    cases l₁ with
    | nil => exact congrArg some (foldl_better_eq_self hbefore hle)
    | cons b l₁ =>
      show some ((l₁ ++ a :: l₂).foldl (better before) b) = some a
      have hfront := hless _ (foldl_better_mem before b l₁)
      have htaken : better before (l₁.foldl (better before) b) a = a := if_pos ((hbefore _ _).mpr hfront)
      rw [List.foldl_append, List.foldl_cons, htaken, foldl_better_eq_self hbefore hle]

/-- The same where only some of the items are to be had. -/
theorem firstLeast?_filter_eq_some_iff {p : α → Bool} {a : α} :
    firstLeast? before (l.filter p) = some a ↔ ∃ l₁ l₂, l = l₁ ++ a :: l₂ ∧ p a ∧
      (∀ b ∈ l₁, p b → key a < key b) ∧ ∀ b ∈ l₂, p b → key a ≤ key b := by
  have hforall {q : α → Prop} (l : List α) : (∀ b ∈ l.filter p, q b) ↔ ∀ b ∈ l, p b → q b := by
    simp only [List.mem_filter, and_imp]
  rw [firstLeast?_eq_some_iff hbefore]
  constructor
  · rintro ⟨l₁, l₂, hsplit, hless, hle⟩
    obtain ⟨front, rest, rfl, rfl, hrest⟩ := List.filter_eq_append_iff.mp hsplit
    obtain ⟨more, back, rfl, hmore, ha, rfl⟩ := List.filter_eq_cons_iff.mp hrest
    refine ⟨front ++ more, back, (List.append_assoc front more _).symm, ha, ?_, (hforall back).mp hle⟩
    -- What stands between is not to be had.
    refine List.forall_mem_append.mpr ⟨(hforall front).mp hless, ?_⟩
    exact fun b hb hp => absurd hp (hmore b hb)
  · rintro ⟨l₁, l₂, rfl, ha, hless, hle⟩
    refine ⟨l₁.filter p, l₂.filter p, ?_, (hforall l₁).mpr hless, (hforall l₂).mpr hle⟩
    rw [List.filter_append, List.filter_cons_of_pos ha]

end

end Menagerie
