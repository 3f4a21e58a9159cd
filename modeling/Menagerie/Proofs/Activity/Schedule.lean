import Mathlib.Logic.Relation
import Menagerie.Activity.Schedule

/-!
# What adding and activating make of schedules

However a schedule comes about by adding activities and making them active, it is `Disciplined`: the active
activity of each group is one of the group, and no activity is in two groups (`Built.disciplined`). To make an
activity active concerns the group that it is in, and nothing where it is in none (`Disciplined.get?_activate`).
-/

namespace Menagerie

/-- A group after an activity was made active. -/
def ActivityGroup.activated (group : ActivityGroup) (a : Activity) : ActivityGroup :=
  if a ∈ group.members then { group with active := a } else group

theorem ActivityGroup.activated_of_mem {group : ActivityGroup} {a : Activity} (h : a ∈ group.members) :
    group.activated a = { group with active := a } := if_pos h

theorem ActivityGroup.activated_of_not_mem {group : ActivityGroup} {a : Activity}
    (h : a ∉ group.members) : group.activated a = group := if_neg h

namespace Schedule

variable {s s' : Schedule} {a x : Activity} {number number' : UInt8}

/-- The activities of each group. -/
def members (s : Schedule) : SortedMap UInt8 (List Activity) := s.groups.map ActivityGroup.members

theorem members_of_activate? (h : s.activate? a = some s') : s'.members = s.members := by
  obtain ⟨number, _, rfl⟩ := Option.map_eq_some_iff.mp h
  refine SortedMap.ext_get? fun key => ?_
  unfold members
  rw [SortedMap.get?_map, SortedMap.get?_map, SortedMap.get?_modify]
  split
  · exact Option.map_map ..
  · rfl

/-- Whether a schedule comes of another as activities are made active one after the other. -/
def Switches : Schedule → Schedule → Prop :=
  Relation.ReflTransGen fun s s' => ∃ a, s.activate? a = some s'

theorem Switches.refl (s : Schedule) : Switches s s := Relation.ReflTransGen.refl

theorem Switches.trans {s'' : Schedule} (h : Switches s s') (h' : Switches s' s'') : Switches s s'' :=
  Relation.ReflTransGen.trans h h'

theorem switches_of_activate? (h : s.activate? a = some s') : Switches s s' :=
  Relation.ReflTransGen.single ⟨a, h⟩

/-- What holds of a schedule stays so as activities are made active, if it does each time. -/
theorem Switches.keeps {p : Schedule → Prop} (h : Switches s s') (hs : p s)
    (hstep : ∀ s a s', p s → s.activate? a = some s' → p s') : p s' := by
  induction h with
  | refl => exact hs
  | tail _ hlast ih =>
    obtain ⟨a, ha⟩ := hlast
    exact hstep _ a _ ih ha

theorem Switches.members (h : Switches s s') : s'.members = s.members :=
  h.keeps (p := fun s' => s'.members = s.members) rfl
    fun _ _ _ hs ha => (members_of_activate? ha).trans hs

/-! ## Which group an activity is in -/

/-- Whether an activity is in a group. -/
def Holds (s : Schedule) (number : UInt8) (a : Activity) : Prop :=
  ∃ group, s.groups.get? number = some group ∧ a ∈ group.members

theorem holds_of_groupOf? (h : s.groupOf? a = some number) : s.Holds number a := by
  obtain ⟨⟨_, group⟩, hfound, rfl⟩ := Option.map_eq_some_iff.mp h
  have hmember := List.find?_some hfound
  exact ⟨group, SortedMap.get?_eq_some_iff.mpr (List.mem_of_find?_eq_some hfound),
    List.contains_iff_mem.mp hmember⟩

theorem contains_iff : s.contains a ↔ ∃ number, s.Holds number a := by
  unfold contains
  refine ⟨fun h => ?_, ?_⟩
  · obtain ⟨number, hnumber⟩ := Option.isSome_iff_exists.mp h
    exact ⟨number, holds_of_groupOf? hnumber⟩
  · rintro ⟨number, group, hgroup, hmember⟩
    unfold groupOf?
    rw [Option.isSome_map, List.find?_isSome]
    exact ⟨(number, group), SortedMap.get?_eq_some_iff.mp hgroup, List.contains_iff_mem.mpr hmember⟩

/-- The group that an activity comes to by being added to it. -/
def grown (s : Schedule) (number : UInt8) (a : Activity) : ActivityGroup :=
  match s.groups.get? number with
  | some group => { group with members := group.members ++ [a] }
  | none => ⟨[a], a⟩

theorem get?_add (hnew : ¬ s.contains a) : (s.add number a).groups.get? number' =
    if number' = number then some (s.grown number a) else s.groups.get? number' := by
  unfold add
  rw [if_neg hnew]
  exact SortedMap.get?_insert ..

/-- An activity that is in no group yet comes to one, and all others stay where they are. -/
theorem holds_add (hnew : ¬ s.contains a) :
    (s.add number a).Holds number' x ↔ s.Holds number' x ∨ (number' = number ∧ x = a) := by
  unfold Holds
  rw [get?_add hnew]
  by_cases hnumber : number' = number
  · subst hnumber
    rw [if_pos rfl]
    unfold grown
    cases s.groups.get? number' with
    | none => simp
    | some group => simp
  · rw [if_neg hnumber]
    exact (or_iff_left fun h => hnumber h.1).symm

theorem holds_of_members (h : s'.members = s.members) : s'.Holds number a ↔ s.Holds number a := by
  have hiff : ∀ s : Schedule, s.Holds number a ↔ ∃ l, s.members.get? number = some l ∧ a ∈ l := by
    intro s
    unfold Holds members
    rw [SortedMap.get?_map]
    refine ⟨?_, ?_⟩
    · rintro ⟨group, hgroup, hmember⟩
      exact ⟨group.members, by rw [hgroup]; rfl, hmember⟩
    · rintro ⟨_, hl, hmember⟩
      obtain ⟨group, hgroup, rfl⟩ := Option.map_eq_some_iff.mp hl
      exact ⟨group, hgroup, hmember⟩
  rw [hiff, hiff, h]

/-! ## Discipline -/

/-- Whether the active activity of each group is one of the group, and no activity is in two groups. -/
structure Disciplined (s : Schedule) : Prop where
  active : ∀ number group, s.groups.get? number = some group → group.active ∈ group.members
  apart : ∀ a number number', s.Holds number a → s.Holds number' a → number = number'

theorem disciplined_empty : Disciplined empty :=
  ⟨nofun, fun _ _ _ ⟨_, hgroup, _⟩ => nomatch hgroup⟩

theorem Disciplined.add (h : s.Disciplined) (number : UInt8) (a : Activity) :
    (s.add number a).Disciplined := by
  by_cases hnew : s.contains a
  · unfold Schedule.add
    rw [if_pos hnew]
    exact h
  · refine ⟨fun number' group hgroup => ?_, fun x first second hfirst hsecond => ?_⟩
    · rw [get?_add hnew] at hgroup
      split at hgroup
      · cases hgroup
        unfold grown
        cases hold : s.groups.get? number with
        | none => exact .head _
        | some group => exact List.mem_append_left _ (h.active number group hold)
      · exact h.active number' group hgroup
    · have hnowhere : ∀ number, ¬ s.Holds number a := fun number hholds =>
        hnew (contains_iff.mpr ⟨number, hholds⟩)
      rcases (holds_add hnew).mp hfirst with hold | ⟨rfl, rfl⟩
      · rcases (holds_add hnew).mp hsecond with hold' | ⟨rfl, rfl⟩
        · exact h.apart x first second hold hold'
        · exact absurd hold (hnowhere first)
      · rcases (holds_add hnew).mp hsecond with hold' | ⟨rfl, _⟩
        · exact absurd hold' (hnowhere second)
        · rfl

/-- To make an activity active concerns the group that it is in, and nothing where it is in none. -/
theorem Disciplined.get?_activate (h : s.Disciplined) (a : Activity) (number : UInt8) :
    (s.activate a).groups.get? number =
      (s.groups.get? number).map fun group => group.activated a := by
  have hmember : ∀ group, s.groups.get? number = some group → a ∈ group.members → s.Holds number a :=
    fun group hgroup hmember => ⟨group, hgroup, hmember⟩
  unfold activate activate?
  cases hfound : s.groupOf? a with
  | none =>
    show s.groups.get? number = _
    cases hgroup : s.groups.get? number with
    | none => rfl
    | some group =>
      have hnowhere : ¬ s.contains a := by
        unfold contains
        rw [hfound]
        exact Bool.false_ne_true
      have hout : a ∉ group.members := fun hin =>
        hnowhere (contains_iff.mpr ⟨number, hmember group hgroup hin⟩)
      exact congrArg some (ActivityGroup.activated_of_not_mem hout).symm
  | some own =>
    have hown := holds_of_groupOf? hfound
    show (s.groups.modify own _).get? number = _
    rw [SortedMap.get?_modify]
    by_cases hnumber : number = own
    · subst hnumber
      rw [if_pos rfl]
      obtain ⟨group, hgroup, hin⟩ := hown
      rw [hgroup]
      exact congrArg some (ActivityGroup.activated_of_mem hin).symm
    · rw [if_neg hnumber]
      cases hgroup : s.groups.get? number with
      | none => rfl
      | some group =>
        have hout : a ∉ group.members := fun hin =>
          hnumber (h.apart a number own (hmember group hgroup hin) hown)
        exact congrArg some (ActivityGroup.activated_of_not_mem hout).symm

theorem members_activate (s : Schedule) (a : Activity) : (s.activate a).members = s.members := by
  unfold activate
  cases hactivated : s.activate? a with
  | none => rfl
  | some s' => exact members_of_activate? hactivated

theorem Disciplined.activate (h : s.Disciplined) (a : Activity) : (s.activate a).Disciplined := by
  refine ⟨fun number group hgroup => ?_, fun x number number' hx hx' => ?_⟩
  · rw [h.get?_activate] at hgroup
    obtain ⟨before, hbefore, rfl⟩ := Option.map_eq_some_iff.mp hgroup
    unfold ActivityGroup.activated
    split
    · next hin => exact hin
    · exact h.active number before hbefore
  · have hsame := s.members_activate a
    exact h.apart x number number' ((holds_of_members hsame).mp hx) ((holds_of_members hsame).mp hx')

/-- Nothing comes of making an activity active that is in no group, and something does otherwise. -/
theorem isSome_activate? (s : Schedule) (a : Activity) : (s.activate? a).isSome = s.contains a :=
  Option.isSome_map ..

/-- The schedules that come about as activities are added and made active. -/
inductive Built : Schedule → Prop
  | empty : Built empty
  | add {s : Schedule} (number : UInt8) (a : Activity) : Built s → Built (s.add number a)
  | activate {s : Schedule} (a : Activity) : Built s → Built (s.activate a)

theorem Built.disciplined (h : s.Built) : s.Disciplined := by
  induction h with
  | empty => exact disciplined_empty
  | add number a _ ih => exact ih.add number a
  | activate a _ ih => exact ih.activate a

end Schedule

end Menagerie
