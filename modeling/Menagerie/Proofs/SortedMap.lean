import Mathlib.Data.List.Nodup
import Menagerie.SortedMap

/-!
# The entries of a map, in any order

What an insertion and a removal do to the entries of a map, where their order is of no matter: an entry
is put before the others, or is taken from among them.
-/

namespace Menagerie.SortedMap

open Std

variable {κ ν ν' : Type} [Ord κ] [TransOrd κ] [LawfulEqOrd κ] [DecidableEq κ]

theorem contains_erase (m : SortedMap κ ν) (key other : κ) :
    (m.erase key).contains other ↔ other ≠ key ∧ m.contains other := by
  unfold contains
  rw [get?_erase]
  split
  · next h => simp [h]
  · next h => simp [h]

omit [TransOrd κ] [DecidableEq κ] in
theorem nodup_toList (m : SortedMap κ ν) : m.toList.Nodup := m.nodup_keys.of_map Prod.fst

theorem toList_insert_perm (m : SortedMap κ ν) (key : κ) (value : ν) :
    (m.insert key value).toList.Perm ((key, value) :: (m.erase key).toList) := by
  have hfresh : (key, value) ∉ (m.erase key).toList := by
    intro hmem
    have hget : (m.erase key).get? key = some value := get?_eq_some_iff.mpr hmem
    rw [get?_erase, if_pos rfl] at hget
    cases hget
  refine (List.perm_ext_iff_of_nodup (nodup_toList _)
    (List.nodup_cons.mpr ⟨hfresh, nodup_toList _⟩)).mpr ?_
  rintro ⟨other, value'⟩
  have hinsert : (other, value') ∈ (m.insert key value).toList ↔ _ := get?_eq_some_iff.symm
  have herase : (other, value') ∈ (m.erase key).toList ↔ _ := get?_eq_some_iff.symm
  rw [List.mem_cons, hinsert, herase, get?_insert, get?_erase, Prod.mk.injEq]
  split
  · next h => simp [h, eq_comm]
  · next h => simp [h]

/-- An entry that there is may be put in again. -/
theorem insert_of_get?_eq_some {m : SortedMap κ ν} {key : κ} {value : ν} (h : m.get? key = some value) :
    m.insert key value = m := by
  refine ext_get? fun other => ?_
  rw [get?_insert]
  split
  · next heq => rw [heq, h]
  · rfl

/-- An entry that there is can be taken from among the others. -/
theorem toList_perm_of_get? {m : SortedMap κ ν} {key : κ} {value : ν} (h : m.get? key = some value) :
    m.toList.Perm ((key, value) :: (m.erase key).toList) := by
  have hperm := m.toList_insert_perm key value
  rwa [insert_of_get?_eq_some h] at hperm

theorem values_insert_perm (m : SortedMap κ ν) (key : κ) (value : ν) :
    (m.insert key value).values.Perm (value :: (m.erase key).values) :=
  (m.toList_insert_perm key value).map Prod.snd

theorem values_perm_of_get? {m : SortedMap κ ν} {key : κ} {value : ν} (h : m.get? key = some value) :
    m.values.Perm (value :: (m.erase key).values) :=
  (toList_perm_of_get? h).map Prod.snd

theorem erase_of_get?_eq_none {m : SortedMap κ ν} {key : κ} (h : m.get? key = none) :
    m.erase key = m := by
  refine ext_get? fun other => ?_
  rw [get?_erase]
  split
  · next heq => rw [heq, h]
  · rfl

omit [TransOrd κ] [LawfulEqOrd κ] [DecidableEq κ] in
theorem erase_sublist (m : SortedMap κ ν) (key : κ) : (m.erase key).toList.Sublist m.toList :=
  Entries.erase_sublist key m.entries

/-- Of two entries under one key that are put in, the second stays. -/
theorem insert_insert (m : SortedMap κ ν) (key : κ) (value value' : ν) :
    (m.insert key value).insert key value' = m.insert key value' := by
  refine ext_get? fun other => ?_
  simp only [get?_insert]
  split
  · rfl
  · rfl

omit [DecidableEq κ] [TransOrd κ] [LawfulEqOrd κ] in
theorem values_map (m : SortedMap κ ν) (f : ν → ν') : (m.map f).values = m.values.map f := by
  unfold values map
  rw [List.map_map, List.map_map]
  rfl

/-- Where a value that is put in has more in it than what it takes the place of, so has the map. What is not
there has nothing in it. -/
theorem flatMap_values_insert {α : Type} (f : ν → List α) (before : ν) (hbefore : f before = [])
    {m : SortedMap κ ν} {key : κ} {value : ν} {more : List α}
    (hmore : (f value).Perm (f ((m.get? key).getD before) ++ more)) :
    ((m.insert key value).values.flatMap f).Perm (m.values.flatMap f ++ more) := by
  have hold : (m.values.flatMap f).Perm (f ((m.get? key).getD before) ++ (m.erase key).values.flatMap f) := by
    cases hget : m.get? key with
    | none => rw [erase_of_get?_eq_none hget, Option.getD_none, hbefore, List.nil_append]
    | some old => exact (values_perm_of_get? hget).flatMap_right f
  refine ((m.values_insert_perm key value).flatMap_right f).trans ?_
  refine (hmore.append_right _).trans ?_
  refine .trans ?_ (hold.symm.append_right more)
  -- What is more goes behind the other values.
  rw [List.append_assoc, List.append_assoc]
  exact .append_left _ List.perm_append_comm

/-- Entries of different keys are put in in either order. -/
theorem insert_comm {key other : κ} (hne : key ≠ other) (m : SortedMap κ ν) (value value' : ν) :
    (m.insert key value).insert other value' = (m.insert other value').insert key value := by
  refine ext_get? fun k => ?_
  simp only [get?_insert]
  by_cases hkey : k = key
  · have hother : k ≠ other := hkey ▸ hne
    simp only [if_pos hkey, if_neg hother]
  · simp only [if_neg hkey]

/-- Entries of different keys are put in in any order. -/
theorem insertAll_perm {entries entries' : List (κ × ν)} (hperm : entries.Perm entries')
    (hnodup : (entries.map Prod.fst).Nodup) (m : SortedMap κ ν) : m.insertAll entries = m.insertAll entries' := by
  refine hperm.foldl_eq' (fun entry hentry other hother m => ?_) m
  by_cases hkey : entry.1 = other.1
  · rw [List.inj_on_of_nodup_map hnodup hentry hother hkey]
  · exact insert_comm hkey m entry.2 other.2

/-- A change of an entry that there is puts another in its place. -/
theorem modify_eq_insert {m : SortedMap κ ν} {key : κ} {value : ν} (h : m.get? key = some value)
    (f : ν → ν) : m.modify key f = m.insert key (f value) := by
  refine ext_get? fun other => ?_
  rw [get?_modify, get?_insert]
  split
  · next heq => rw [heq, h]; rfl
  · rfl

section

variable {μ σ : Type}

/-- The state in which the value under a key is rebuilt, after those under smaller keys. -/
def Entries.stateAt (f : κ → ν → σ → μ × σ) (key : κ) : List (κ × ν) → σ → σ
  | [], s => s
  | (k, v) :: rest, s =>
    match compare key k with
    | .lt | .eq => s
    | .gt => stateAt f key rest (f k v s).2

omit [TransOrd κ] [DecidableEq κ] in
theorem Entries.get?_mapWithState (f : κ → ν → σ → μ × σ) (key : κ) (l : List (κ × ν)) (s : σ) :
    get? key (mapWithState f l s).1 = (get? key l).map fun value => (f key value (stateAt f key l s)).1 := by
  induction l generalizing s with
  | nil => rfl
  | cons head rest ih =>
    obtain ⟨k, v⟩ := head
    rw [mapWithState, get?, get?, stateAt]
    cases hcompare : compare key k with
    | lt => rfl
    | eq =>
      obtain rfl := LawfulEqCmp.eq_of_compare hcompare
      rfl
    | gt => exact ih _

end

end Menagerie.SortedMap
