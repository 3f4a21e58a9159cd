/-!
# Picking the least

`firstLeast?` picks from a list an item that no other item comes before, the first of several that
rank alike.
-/

namespace Menagerie

variable {α : Type}

/-- The better of two items; the first of two that rank alike. -/
def better (before : α → α → Bool) (a b : α) : α := if before b a then b else a

/-- The first item of a list that no other comes before. -/
def firstLeast? (before : α → α → Bool) : List α → Option α
  | [] => none
  | a :: rest => some (rest.foldl (better before) a)

theorem better_eq_or (before : α → α → Bool) (a b : α) :
    better before a b = a ∨ better before a b = b := by
  unfold better
  split
  · exact Or.inr rfl
  · exact Or.inl rfl

theorem foldl_better_mem (before : α → α → Bool) (a : α) (l : List α) :
    l.foldl (better before) a ∈ a :: l := by
  induction l generalizing a with
  | nil => exact List.mem_singleton_self a
  | cons b rest ih =>
    rcases List.mem_cons.mp (ih (better before a b)) with h | h
    · rw [List.foldl_cons, h]
      rcases better_eq_or before a b with h' | h'
      · rw [h']; exact List.mem_cons_self
      · rw [h']; exact List.mem_cons_of_mem _ List.mem_cons_self
    · exact List.mem_cons_of_mem _ (List.mem_cons_of_mem _ h)

theorem mem_of_firstLeast? {before : α → α → Bool} {l : List α} {a : α}
    (h : firstLeast? before l = some a) : a ∈ l := by
  cases l with
  | nil => cases h
  | cons b rest =>
    obtain rfl := Option.some.inj h
    exact foldl_better_mem before b rest

theorem firstLeast?_eq_none_iff {before : α → α → Bool} {l : List α} :
    firstLeast? before l = none ↔ l = [] := by
  cases l <;> simp [firstLeast?]

end Menagerie
