import Menagerie.Activity.Label

/-!
# Schedules

A `Schedule` keeps activities in numbered groups. Each group has one active activity, and the
groups are taken in the order of their numbers. An activity is in one group at most.
-/

namespace Menagerie

/-- The activities of a group, in the order in which they were added, and the active one. -/
structure ActivityGroup where
  members : List Activity
  active : Activity
  deriving DecidableEq, Repr

/-- Activities in numbered groups. -/
structure Schedule where
  groups : SortedMap UInt8 ActivityGroup
  deriving DecidableEq

namespace Schedule

def empty : Schedule := ⟨.empty⟩

instance : Inhabited Schedule := ⟨empty⟩

/-- The number of the group that an activity is in. -/
def groupOf? (s : Schedule) (a : Activity) : Option UInt8 :=
  (s.groups.toList.find? fun (_, group) => group.members.contains a).map Prod.fst

def contains (s : Schedule) (a : Activity) : Bool := (s.groupOf? a).isSome

/-- Adds an activity to a group, unless it is in one already. The first of a group is active. -/
def add (s : Schedule) (number : UInt8) (a : Activity) : Schedule :=
  if s.contains a then s
  else
    let group := match s.groups.get? number with
      | some group => { group with members := group.members ++ [a] }
      | none => ⟨[a], a⟩
    ⟨s.groups.insert number group⟩

/-- Makes an activity the active one of its group, if it is in one. -/
def activate? (s : Schedule) (a : Activity) : Option Schedule :=
  (s.groupOf? a).map fun number =>
    ⟨s.groups.modify number fun group => { group with active := a }⟩

/-- Makes an activity the active one of its group; nothing happens if it is in none. -/
def activate (s : Schedule) (a : Activity) : Schedule := (s.activate? a).getD s

def isActive (s : Schedule) (a : Activity) : Bool :=
  s.groups.values.any fun group => group.active == a

def activeIn? (s : Schedule) (number : UInt8) : Option Activity :=
  (s.groups.get? number).map ActivityGroup.active

/-- The active activities, in group order. -/
def active (s : Schedule) : List Activity := s.groups.values.map ActivityGroup.active

end Schedule

end Menagerie
