/-!
# Maps kept in key order

A `SortedMap` is a list of entries whose keys strictly ascend, and the order is part of the type.
Two maps that answer every look-up alike are therefore the same map (`SortedMap.ext_get?`), however
they were built, and reading the entries off gives them in key order.

Each operation is pinned by what it does to look-ups: `get?_insert`, `get?_erase`, `get?_modify`.
A `SortedSet` is a map that carries no values.
-/

namespace Menagerie

open Std

section Order

variable {κ : Type} [Ord κ]

/-- Keys compared through a rank order as the ranks do. -/
theorem transOrd_of_rank {ρ : Type} [Ord ρ] [TransOrd ρ] (rank : κ → ρ)
    (agree : ∀ a b : κ, compare a b = compare (rank a) (rank b)) : TransOrd κ where
  eq_swap {a b} := by
    rw [agree a b, agree b a]
    exact OrientedCmp.eq_swap
  isLE_trans {a b c} hab hbc := by
    rw [agree] at hab hbc ⊢
    exact TransCmp.isLE_trans hab hbc

/-- Keys told apart by their rank are told apart by the order. -/
theorem lawfulEqOrd_of_rank {ρ : Type} [Ord ρ] [LawfulEqOrd ρ] (rank : κ → ρ)
    (agree : ∀ a b : κ, compare a b = compare (rank a) (rank b))
    (injective : ∀ a b, rank a = rank b → a = b) : LawfulEqOrd κ where
  compare_self {a} := by rw [agree]; exact ReflCmp.compare_self
  eq_of_compare {a b} h := by
    rw [agree] at h
    exact injective a b (LawfulEqCmp.eq_of_compare h)

end Order

/-- Entries whose keys strictly ascend. -/
structure SortedMap (κ ν : Type) [Ord κ] where
  entries : List (κ × ν)
  ascending : entries.Pairwise fun a b => compare a.1 b.1 = .lt

namespace SortedMap

variable {κ ν μ σ : Type} [Ord κ]

instance [DecidableEq κ] [DecidableEq ν] : DecidableEq (SortedMap κ ν) := fun a b =>
  decidable_of_iff (a.entries = b.entries) (by cases a; cases b; simp)

/-! ## Entries -/

namespace Entries

/-- The value under `key`, searched up to the first larger key. -/
def get? (key : κ) : List (κ × ν) → Option ν
  | [] => none
  | (k, v) :: rest =>
    match compare key k with
    | .lt => none
    | .eq => some v
    | .gt => get? key rest

/-- The entries with `value` under `key`, replacing what was there. -/
def insert (key : κ) (value : ν) : List (κ × ν) → List (κ × ν)
  | [] => [(key, value)]
  | (k, v) :: rest =>
    match compare key k with
    | .lt => (key, value) :: (k, v) :: rest
    | .eq => (key, value) :: rest
    | .gt => (k, v) :: insert key value rest

/-- The entries without `key`. -/
def erase (key : κ) : List (κ × ν) → List (κ × ν)
  | [] => []
  | (k, v) :: rest =>
    match compare key k with
    | .lt => (k, v) :: rest
    | .eq => rest
    | .gt => (k, v) :: erase key rest

/-- The entries with the value under `key` changed. -/
def modify (key : κ) (f : ν → ν) : List (κ × ν) → List (κ × ν)
  | [] => []
  | (k, v) :: rest =>
    match compare key k with
    | .lt => (k, v) :: rest
    | .eq => (k, f v) :: rest
    | .gt => (k, v) :: modify key f rest

/-- Every value rebuilt in key order, with a state carried along. -/
def mapWithState (f : κ → ν → σ → μ × σ) : List (κ × ν) → σ → List (κ × μ) × σ
  | [], s => ([], s)
  | (k, v) :: rest, s =>
    let (v', s₁) := f k v s
    let (rest', s₂) := mapWithState f rest s₁
    ((k, v') :: rest', s₂)

theorem keys_modify (key : κ) (f : ν → ν) (l : List (κ × ν)) :
    (modify key f l).map Prod.fst = l.map Prod.fst := by
  induction l with
  | nil => rfl
  | cons head rest ih =>
    obtain ⟨k, v⟩ := head
    simp only [modify]
    split <;> simp_all only [List.map_cons]

omit [Ord κ] in
theorem keys_mapWithState (f : κ → ν → σ → μ × σ) (l : List (κ × ν)) (s : σ) :
    (mapWithState f l s).1.map Prod.fst = l.map Prod.fst := by
  induction l generalizing s with
  | nil => rfl
  | cons head rest ih =>
    obtain ⟨k, v⟩ := head
    simp only [mapWithState, List.map_cons, ih]

/-- Order is a matter of the keys alone. -/
theorem pairwise_of_keys {l : List (κ × ν)} {l' : List (κ × μ)}
    (keys : l'.map Prod.fst = l.map Prod.fst)
    (h : l.Pairwise fun a b => compare a.1 b.1 = .lt) :
    l'.Pairwise fun a b => compare a.1 b.1 = .lt := by
  have hk : (l.map Prod.fst).Pairwise fun a b => compare a b = .lt :=
    List.pairwise_map.mpr h
  rw [← keys] at hk
  exact List.pairwise_map.mp hk

theorem mem_insert {key : κ} {value : ν} {e : κ × ν} {l : List (κ × ν)}
    (h : e ∈ insert key value l) : e = (key, value) ∨ e ∈ l := by
  induction l with
  | nil => exact Or.inl (List.mem_singleton.mp h)
  | cons head rest ih =>
    obtain ⟨k, v⟩ := head
    simp only [insert] at h
    split at h
    · exact (List.mem_cons.mp h).imp id id
    · exact (List.mem_cons.mp h).imp id (List.mem_cons_of_mem _)
    · rcases List.mem_cons.mp h with rfl | h
      · exact Or.inr List.mem_cons_self
      · exact (ih h).imp id (List.mem_cons_of_mem _)

theorem erase_sublist (key : κ) (l : List (κ × ν)) : (erase key l).Sublist l := by
  induction l with
  | nil => exact List.Sublist.refl _
  | cons head rest ih =>
    obtain ⟨k, v⟩ := head
    simp only [erase]
    split
    · exact List.Sublist.refl _
    · exact List.sublist_cons_self _ _
    · exact ih.cons_cons _

theorem insert_ascending [TransOrd κ] [LawfulEqOrd κ] (key : κ) (value : ν) {l : List (κ × ν)}
    (h : l.Pairwise fun a b => compare a.1 b.1 = .lt) :
    (insert key value l).Pairwise fun a b => compare a.1 b.1 = .lt := by
  induction l with
  | nil => exact List.pairwise_singleton _ _
  | cons head rest ih =>
    obtain ⟨k, v⟩ := head
    have hhead := fun {e : κ × ν} (he : e ∈ rest) => List.rel_of_pairwise_cons h he
    have hrest := h.of_cons
    simp only [insert]
    split
    · next hlt =>
      refine List.pairwise_cons.mpr ⟨?_, h⟩
      intro e he
      rcases List.mem_cons.mp he with rfl | he
      · exact hlt
      · exact TransCmp.lt_trans hlt (hhead he)
    · next heq =>
      have := LawfulEqCmp.eq_of_compare heq
      subst this
      exact List.pairwise_cons.mpr ⟨fun e he => hhead he, hrest⟩
    · next hgt =>
      refine List.pairwise_cons.mpr ⟨?_, ih hrest⟩
      intro e he
      rcases mem_insert he with rfl | he
      · exact OrientedCmp.gt_iff_lt.mp hgt
      · exact hhead he

theorem get?_eq_some_iff [TransOrd κ] [LawfulEqOrd κ] {key : κ} {value : ν} {l : List (κ × ν)}
    (h : l.Pairwise fun a b => compare a.1 b.1 = .lt) :
    get? key l = some value ↔ (key, value) ∈ l := by
  induction l with
  | nil => simp [get?]
  | cons head rest ih =>
    obtain ⟨k, v⟩ := head
    have hhead := fun {e : κ × ν} (he : e ∈ rest) => List.rel_of_pairwise_cons h he
    simp only [get?, List.mem_cons, Prod.mk.injEq]
    split
    · next hlt =>
      refine iff_of_false (by simp) ?_
      rintro (⟨rfl, rfl⟩ | he)
      · simp [ReflCmp.compare_self] at hlt
      · have := TransCmp.lt_trans hlt (hhead he)
        simp [ReflCmp.compare_self] at this
    · next heq =>
      have := LawfulEqCmp.eq_of_compare heq
      subst this
      constructor
      · intro hv
        exact Or.inl ⟨rfl, (Option.some.inj hv).symm⟩
      · rintro (⟨_, rfl⟩ | he)
        · rfl
        · have := hhead he
          simp [ReflCmp.compare_self] at this
    · next hgt =>
      rw [ih h.of_cons]
      constructor
      · exact Or.inr
      · rintro (⟨rfl, rfl⟩ | he)
        · simp [ReflCmp.compare_self] at hgt
        · exact he

end Entries

/-! ## Operations -/

def empty : SortedMap κ ν := ⟨[], List.Pairwise.nil⟩

instance : EmptyCollection (SortedMap κ ν) := ⟨empty⟩

instance : Inhabited (SortedMap κ ν) := ⟨empty⟩

def get? (m : SortedMap κ ν) (key : κ) : Option ν := Entries.get? key m.entries

def contains (m : SortedMap κ ν) (key : κ) : Bool := (m.get? key).isSome

/-- The keys, ascending. -/
def keys (m : SortedMap κ ν) : List κ := m.entries.map Prod.fst

/-- The values, in key order. -/
def values (m : SortedMap κ ν) : List ν := m.entries.map Prod.snd

/-- The entries, in key order. -/
def toList (m : SortedMap κ ν) : List (κ × ν) := m.entries

def size (m : SortedMap κ ν) : Nat := m.entries.length

def isEmpty (m : SortedMap κ ν) : Bool := m.entries.isEmpty

def erase (m : SortedMap κ ν) (key : κ) : SortedMap κ ν :=
  ⟨Entries.erase key m.entries, m.ascending.sublist (Entries.erase_sublist key m.entries)⟩

/-- The map with the value under `key` changed; nothing happens to a key that is not there. -/
def modify (m : SortedMap κ ν) (key : κ) (f : ν → ν) : SortedMap κ ν :=
  ⟨Entries.modify key f m.entries,
    Entries.pairwise_of_keys (Entries.keys_modify key f m.entries) m.ascending⟩

/-- Every value rebuilt in key order, with a state carried from each to the next. -/
def mapWithState (m : SortedMap κ ν) (f : κ → ν → σ → μ × σ) (s : σ) : SortedMap κ μ × σ :=
  (⟨(Entries.mapWithState f m.entries s).1,
    Entries.pairwise_of_keys (Entries.keys_mapWithState f m.entries s) m.ascending⟩,
   (Entries.mapWithState f m.entries s).2)

/-- The map with every value changed. -/
def map (m : SortedMap κ ν) (f : ν → μ) : SortedMap κ μ :=
  ⟨m.entries.map fun e => (e.1, f e.2),
    Entries.pairwise_of_keys (by simp [Function.comp_def]) m.ascending⟩

@[simp] theorem get?_empty (key : κ) : (empty : SortedMap κ ν).get? key = none := rfl

@[simp] theorem keys_modify (m : SortedMap κ ν) (key : κ) (f : ν → ν) :
    (m.modify key f).keys = m.keys :=
  Entries.keys_modify key f m.entries

@[simp] theorem keys_mapWithState (m : SortedMap κ ν) (f : κ → ν → σ → μ × σ) (s : σ) :
    (m.mapWithState f s).1.keys = m.keys :=
  Entries.keys_mapWithState f m.entries s

variable [TransOrd κ] [LawfulEqOrd κ]

def insert (m : SortedMap κ ν) (key : κ) (value : ν) : SortedMap κ ν :=
  ⟨Entries.insert key value m.entries, Entries.insert_ascending key value m.ascending⟩

/-- Inserts in order, so the last value of a repeated key stays. -/
def insertAll (m : SortedMap κ ν) (entries : List (κ × ν)) : SortedMap κ ν :=
  entries.foldl (fun acc e => acc.insert e.1 e.2) m

def ofList (entries : List (κ × ν)) : SortedMap κ ν := empty.insertAll entries

/-! ## Look-ups through each operation -/

theorem get?_eq_some_iff {m : SortedMap κ ν} {key : κ} {value : ν} :
    m.get? key = some value ↔ (key, value) ∈ m.entries :=
  Entries.get?_eq_some_iff m.ascending

private theorem mem_entries_insert (key : κ) (value : ν) (e : κ × ν) {l : List (κ × ν)}
    (h : l.Pairwise fun a b => compare a.1 b.1 = .lt) :
    e ∈ Entries.insert key value l ↔ e = (key, value) ∨ (e ∈ l ∧ e.1 ≠ key) := by
  induction l with
  | nil => simp [Entries.insert]
  | cons head rest ih =>
    obtain ⟨k, v⟩ := head
    have hhead := fun {e : κ × ν} (he : e ∈ rest) => List.rel_of_pairwise_cons h he
    have hk : ∀ {a b : κ}, compare a b = .lt → a ≠ b := by
      intro a b hab hEq
      subst hEq
      simp [ReflCmp.compare_self] at hab
    simp only [Entries.insert]
    split
    · next hlt =>
      simp only [List.mem_cons]
      constructor
      · rintro (rfl | rfl | he)
        · exact Or.inl rfl
        · exact Or.inr ⟨Or.inl rfl, (hk hlt).symm⟩
        · exact Or.inr ⟨Or.inr he, (hk (TransCmp.lt_trans hlt (hhead he))).symm⟩
      · rintro (rfl | ⟨he, _⟩)
        · exact Or.inl rfl
        · exact Or.inr he
    · next heq =>
      have := LawfulEqCmp.eq_of_compare heq
      subst this
      simp only [List.mem_cons]
      constructor
      · rintro (rfl | he)
        · exact Or.inl rfl
        · exact Or.inr ⟨Or.inr he, (hk (hhead he)).symm⟩
      · rintro (rfl | ⟨rfl | he, hne⟩)
        · exact Or.inl rfl
        · exact absurd rfl hne
        · exact Or.inr he
    · next hgt =>
      have hlt : compare k key = .lt := OrientedCmp.gt_iff_lt.mp hgt
      simp only [List.mem_cons, ih h.of_cons]
      constructor
      · rintro (rfl | rfl | ⟨he, hne⟩)
        · exact Or.inr ⟨Or.inl rfl, hk hlt⟩
        · exact Or.inl rfl
        · exact Or.inr ⟨Or.inr he, hne⟩
      · rintro (rfl | ⟨rfl | he, hne⟩)
        · exact Or.inr (Or.inl rfl)
        · exact Or.inl rfl
        · exact Or.inr (Or.inr ⟨he, hne⟩)

theorem get?_insert [DecidableEq κ] (m : SortedMap κ ν) (key other : κ) (value : ν) :
    (m.insert key value).get? other = if other = key then some value else m.get? other := by
  apply Option.ext
  intro v
  rw [get?_eq_some_iff, insert, mem_entries_insert key value _ m.ascending]
  by_cases h : other = key
  · subst h
    simp [eq_comm]
  · simp [h, get?_eq_some_iff]

private theorem mem_entries_erase (key : κ) (e : κ × ν) {l : List (κ × ν)}
    (h : l.Pairwise fun a b => compare a.1 b.1 = .lt) :
    e ∈ Entries.erase key l ↔ e ∈ l ∧ e.1 ≠ key := by
  induction l with
  | nil => simp [Entries.erase]
  | cons head rest ih =>
    obtain ⟨k, v⟩ := head
    have hhead := fun {e : κ × ν} (he : e ∈ rest) => List.rel_of_pairwise_cons h he
    have hk : ∀ {a b : κ}, compare a b = .lt → b ≠ a := by
      intro a b hab hEq
      subst hEq
      simp [ReflCmp.compare_self] at hab
    simp only [Entries.erase]
    split
    · next hlt =>
      refine ⟨fun he => ⟨he, ?_⟩, And.left⟩
      rcases List.mem_cons.mp he with rfl | he
      · exact hk hlt
      · exact hk (TransCmp.lt_trans hlt (hhead he))
    · next heq =>
      have := LawfulEqCmp.eq_of_compare heq
      subst this
      simp only [List.mem_cons]
      constructor
      · exact fun he => ⟨Or.inr he, hk (hhead he)⟩
      · rintro ⟨rfl | he, hne⟩
        · exact absurd rfl hne
        · exact he
    · next hgt =>
      have hlt : compare k key = .lt := OrientedCmp.gt_iff_lt.mp hgt
      simp only [List.mem_cons, ih h.of_cons]
      constructor
      · rintro (rfl | ⟨he, hne⟩)
        · exact ⟨Or.inl rfl, (hk hlt).symm⟩
        · exact ⟨Or.inr he, hne⟩
      · rintro ⟨rfl | he, hne⟩
        · exact Or.inl rfl
        · exact Or.inr ⟨he, hne⟩

theorem get?_erase [DecidableEq κ] (m : SortedMap κ ν) (key other : κ) :
    (m.erase key).get? other = if other = key then none else m.get? other := by
  apply Option.ext
  intro v
  rw [get?_eq_some_iff, erase, mem_entries_erase key _ m.ascending]
  by_cases h : other = key
  · subst h
    simp
  · simp [h, get?_eq_some_iff]

omit [TransOrd κ] in
private theorem get?_entries_modify [DecidableEq κ] (key other : κ) (f : ν → ν)
    (l : List (κ × ν)) :
    Entries.get? other (Entries.modify key f l) =
      if other = key then (Entries.get? other l).map f else Entries.get? other l := by
  induction l with
  | nil => simp [Entries.modify, Entries.get?]
  | cons head rest ih =>
    obtain ⟨k, v⟩ := head
    simp only [Entries.modify]
    split
    · next hlt =>
      by_cases h : other = key
      · subst h
        simp [Entries.get?, hlt]
      · simp [h]
    · next heq =>
      have := LawfulEqCmp.eq_of_compare heq
      subst this
      by_cases h : other = key
      · subst h
        simp [Entries.get?, ReflCmp.compare_self]
      · simp only [Entries.get?, h, if_false]
        split
        · rfl
        · next heq' => exact absurd (LawfulEqCmp.eq_of_compare heq') h
        · rfl
    · next hgt =>
      by_cases h : other = key
      · subst h
        simp [Entries.get?, hgt, ih]
      · simp only [h, if_false] at ih
        simp only [Entries.get?, h, if_false, ih]

omit [TransOrd κ] in
theorem get?_modify [DecidableEq κ] (m : SortedMap κ ν) (key other : κ) (f : ν → ν) :
    (m.modify key f).get? other =
      if other = key then (m.get? other).map f else m.get? other :=
  get?_entries_modify key other f m.entries

private theorem entries_ext {l l' : List (κ × ν)}
    (h : l.Pairwise fun a b => compare a.1 b.1 = .lt)
    (h' : l'.Pairwise fun a b => compare a.1 b.1 = .lt)
    (same : ∀ e, e ∈ l ↔ e ∈ l') : l = l' := by
  induction l generalizing l' with
  | nil =>
    cases l' with
    | nil => rfl
    | cons head rest => exact absurd ((same head).mpr List.mem_cons_self) (List.not_mem_nil)
  | cons a rest ih =>
    cases l' with
    | nil => exact absurd ((same a).mp List.mem_cons_self) (List.not_mem_nil)
    | cons b rest' =>
      have hirr : ∀ {x : κ}, compare x x ≠ .lt := by
        intro x
        simp [ReflCmp.compare_self]
      have hab : a = b := by
        rcases List.mem_cons.mp ((same a).mp List.mem_cons_self) with hEq | ha
        · exact hEq
        · rcases List.mem_cons.mp ((same b).mpr List.mem_cons_self) with hEq | hb
          · exact hEq.symm
          · exact absurd (TransCmp.lt_trans (List.rel_of_pairwise_cons h hb)
              (List.rel_of_pairwise_cons h' ha)) hirr
      subst hab
      congr 1
      apply ih h.of_cons h'.of_cons
      intro e
      constructor
      · intro he
        rcases List.mem_cons.mp ((same e).mp (List.mem_cons_of_mem _ he)) with hEq | he'
        · subst hEq
          exact absurd (List.rel_of_pairwise_cons h he) hirr
        · exact he'
      · intro he
        rcases List.mem_cons.mp ((same e).mpr (List.mem_cons_of_mem _ he)) with hEq | he'
        · subst hEq
          exact absurd (List.rel_of_pairwise_cons h' he) hirr
        · exact he'

/-- Maps that answer every look-up alike are equal. -/
theorem ext_get? {m m' : SortedMap κ ν} (same : ∀ key, m.get? key = m'.get? key) : m = m' := by
  have entriesEq : m.entries = m'.entries := by
    apply entries_ext m.ascending m'.ascending
    intro e
    obtain ⟨k, v⟩ := e
    rw [← get?_eq_some_iff, ← get?_eq_some_iff, same]
  cases m
  cases m'
  cases entriesEq
  rfl

omit [TransOrd κ] [LawfulEqOrd κ] in
theorem get?_map (m : SortedMap κ ν) (f : ν → μ) (key : κ) :
    (m.map f).get? key = (m.get? key).map f := by
  show Entries.get? key (m.entries.map fun e => (e.1, f e.2)) = (Entries.get? key m.entries).map f
  induction m.entries with
  | nil => rfl
  | cons head rest ih =>
    obtain ⟨k, v⟩ := head
    simp only [List.map_cons, Entries.get?]
    split
    · rfl
    · rfl
    · exact ih

omit [TransOrd κ] in
private theorem entries_mapWithState_keeps (f : κ → ν → σ → μ × σ) {inv : σ → Prop}
    {rel : κ → ν → μ → Prop} {l : List (κ × ν)}
    (h : ∀ e ∈ l, ∀ s, inv s → inv (f e.1 e.2 s).2 ∧ rel e.1 e.2 (f e.1 e.2 s).1) {s : σ}
    (hs : inv s) :
    inv (Entries.mapWithState f l s).2 ∧ ∀ key,
      Option.Rel (rel key) (Entries.get? key l) (Entries.get? key (Entries.mapWithState f l s).1) := by
  induction l generalizing s with
  | nil => exact ⟨hs, fun _ => .none⟩
  | cons head rest ih =>
    obtain ⟨k, v⟩ := head
    rw [List.forall_mem_cons] at h
    obtain ⟨hs', hrel⟩ := h.1 s hs
    obtain ⟨hs'', hrest⟩ := ih h.2 hs'
    refine ⟨hs'', ?_⟩
    intro key
    simp only [Entries.mapWithState, Entries.get?]
    split
    · exact .none
    · next heq =>
      obtain rfl := LawfulEqCmp.eq_of_compare heq
      exact .some hrel
    · exact hrest key

/-- Where every step from value to value keeps what holds of the state, the state keeps it, and each
new value stands to the one it was made from as the steps have it. -/
theorem mapWithState_keeps (m : SortedMap κ ν) (f : κ → ν → σ → μ × σ) (inv : σ → Prop)
    (rel : κ → ν → μ → Prop)
    (h : ∀ key value s, m.get? key = some value → inv s →
      inv (f key value s).2 ∧ rel key value (f key value s).1) {s : σ} (hs : inv s) :
    inv (m.mapWithState f s).2 ∧
      ∀ key, Option.Rel (rel key) (m.get? key) ((m.mapWithState f s).1.get? key) :=
  entries_mapWithState_keeps f (fun e he s => h e.1 e.2 s (get?_eq_some_iff.mpr he)) hs

theorem contains_insert [DecidableEq κ] (m : SortedMap κ ν) (key other : κ) (value : ν) :
    (m.insert key value).contains other ↔ other = key ∨ m.contains other := by
  unfold contains
  rw [get?_insert]
  by_cases h : other = key
  · simp [h]
  · simp [h]

omit [TransOrd κ] in
theorem contains_modify [DecidableEq κ] (m : SortedMap κ ν) (key other : κ) (f : ν → ν) :
    (m.modify key f).contains other = m.contains other := by
  unfold contains
  rw [get?_modify]
  split
  · exact Option.isSome_map
  · rfl

theorem mem_keys {m : SortedMap κ ν} {key : κ} : key ∈ m.keys ↔ m.contains key := by
  unfold keys contains
  rw [List.mem_map, Option.isSome_iff_exists]
  constructor
  · rintro ⟨⟨_, value⟩, he, rfl⟩
    exact ⟨value, get?_eq_some_iff.mpr he⟩
  · rintro ⟨value, hvalue⟩
    exact ⟨(key, value), get?_eq_some_iff.mp hvalue, rfl⟩

omit [TransOrd κ] [LawfulEqOrd κ] in
theorem keys_map (m : SortedMap κ ν) (f : ν → μ) : (m.map f).keys = m.keys := by
  unfold keys map
  rw [List.map_map]
  rfl

/-- Maps that have the same keys list them alike. -/
theorem keys_congr {m : SortedMap κ ν} {m' : SortedMap κ μ}
    (h : ∀ key, m.contains key = m'.contains key) : m.keys = m'.keys := by
  have hmap : (m.map fun _ => ()) = m'.map fun _ => () := by
    refine ext_get? fun key => ?_
    have hkey : (m.get? key).isSome = (m'.get? key).isSome := h key
    rw [get?_map, get?_map]
    revert hkey
    cases m.get? key <;> cases m'.get? key <;> simp
  rw [← keys_map m fun _ => (), hmap, keys_map]

omit [TransOrd κ] in
theorem nodup_keys (m : SortedMap κ ν) : m.keys.Nodup := by
  have hkeys : m.keys.Pairwise fun a b => compare a b = .lt := List.pairwise_map.mpr m.ascending
  refine hkeys.imp ?_
  rintro a _ hlt rfl
  simp [ReflCmp.compare_self] at hlt

omit [TransOrd κ] in
private theorem exists_entries_insert {key : κ} {value : ν} {l : List (κ × ν)}
    (h : Entries.get? key l = some value) (value' : ν) :
    ∃ before after, l = before ++ (key, value) :: after ∧
      Entries.insert key value' l = before ++ (key, value') :: after := by
  induction l with
  | nil => cases h
  | cons head rest ih =>
    obtain ⟨k, v⟩ := head
    simp only [Entries.get?] at h
    simp only [Entries.insert]
    split at h
    · cases h
    · next heq =>
      obtain rfl := LawfulEqCmp.eq_of_compare heq
      cases h
      exact ⟨[], rest, rfl, rfl⟩
    · next hgt =>
      obtain ⟨before, after, hrest, hinsert⟩ := ih h
      refine ⟨(k, v) :: before, after, by rw [hrest]; rfl, ?_⟩
      rw [hinsert]
      rfl

/-- A value that is replaced stays at its place. -/
theorem exists_values_insert {m : SortedMap κ ν} {key : κ} {value : ν}
    (h : m.get? key = some value) (value' : ν) :
    ∃ before after, m.values = before ++ value :: after ∧
      (m.insert key value').values = before ++ value' :: after := by
  obtain ⟨before, after, hold, hnew⟩ := exists_entries_insert h value'
  refine ⟨before.map Prod.snd, after.map Prod.snd, ?_, ?_⟩
  · unfold values
    rw [hold, List.map_append, List.map_cons]
  · show (Entries.insert key value' m.entries).map Prod.snd = _
    rw [hnew, List.map_append, List.map_cons]

end SortedMap

/-- A set of keys, read off in ascending order. -/
abbrev SortedSet (κ : Type) [Ord κ] := SortedMap κ Unit

namespace SortedSet

variable {κ : Type} [Ord κ] [TransOrd κ] [LawfulEqOrd κ]

def add (s : SortedSet κ) (key : κ) : SortedSet κ := SortedMap.insert s key ()

def addAll (s : SortedSet κ) (keys : List κ) : SortedSet κ := keys.foldl add s

def ofKeys (keys : List κ) : SortedSet κ := addAll SortedMap.empty keys

theorem contains_add [DecidableEq κ] (s : SortedSet κ) (key other : κ) :
    (s.add key).contains other ↔ other = key ∨ s.contains other :=
  SortedMap.contains_insert s key other ()

theorem contains_addAll [DecidableEq κ] (s : SortedSet κ) (keys : List κ) (other : κ) :
    (s.addAll keys).contains other ↔ other ∈ keys ∨ s.contains other := by
  unfold addAll
  induction keys generalizing s with
  | nil => simp
  | cons key rest ih =>
    rw [List.foldl_cons, ih, contains_add, List.mem_cons, or_assoc, or_left_comm]

end SortedSet

end Menagerie
