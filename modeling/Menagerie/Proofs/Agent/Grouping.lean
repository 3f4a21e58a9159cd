import Menagerie.Proofs.Agent.Brain
import Menagerie.Proofs.Agent.Rounds
import Menagerie.Proofs.SortedMap

/-!
# How a brain groups behaviors

A brain is made of tasks, each with an activity and a priority. Tasks that agree in both share a bucket, whose
behaviors are theirs in the order of the tasks; there is no bucket without a behavior, and those of an activity
ascend in priority (`ofTasks_groups`). Nothing is lost or doubled on the way (`behaviors_ofTasks_perm`).
-/

namespace Menagerie

open Std

/-- The behaviors of the tasks under an activity and a priority, in the order of the tasks. -/
def CompiledTask.behaviorsUnder (tasks : List CompiledTask) (label : Activity) (priority : UInt32) : List Behavior :=
  (tasks.filter fun t => label = t.activity ∧ priority = t.priority).flatMap CompiledTask.behaviors

namespace Brain

variable {grouped : SortedMap Activity Ranks} {tasks : List CompiledTask} {label : Activity} {priority : UInt32}

/-- Tasks are placed behind what is there, in order. -/
theorem placedAt_foldl (grouped : SortedMap Activity Ranks) : placedAt (tasks.foldl place grouped) label priority =
    placedAt grouped label priority ++ CompiledTask.behaviorsUnder tasks label priority := by
  induction tasks generalizing grouped with
  | nil => exact (List.append_nil _).symm
  | cons t rest ih =>
    rw [List.foldl_cons, ih, placedAt_place, List.append_assoc]
    unfold CompiledTask.behaviorsUnder
    rw [List.filter_cons]
    split
    · next h => rw [if_pos (by simpa using h), List.flatMap_cons]
    · next h => rw [if_neg (by simpa using h), List.nil_append]

/-- The buckets of an activity are its ranks that have a behavior, each behavior without a fault. -/
theorem mem_bucketsOf_iff {ranks : Ranks} {bucket : Bucket} :
    bucket ∈ bucketsOf ranks ↔ bucket.behaviors ≠ [] ∧
      bucket.behaviors = ((ranks.get? bucket.priority).getD []).map fun behavior => { behavior } := by
  unfold bucketsOf
  simp only [List.mem_map, List.mem_filter, Prod.exists]
  constructor
  · rintro ⟨priority, behaviors, ⟨hmem, hfull⟩, rfl⟩
    have hget : ranks.get? priority = some behaviors := SortedMap.get?_eq_some_iff.mpr hmem
    refine ⟨?_, by rw [hget]; rfl⟩
    simpa using hfull
  · rintro ⟨hfull, hbehaviors⟩
    obtain ⟨priority, behaviors⟩ := bucket
    dsimp only at hfull hbehaviors
    subst hbehaviors
    cases hget : ranks.get? priority with
    | none =>
      rw [hget] at hfull
      exact absurd rfl hfull
    | some behaviors =>
      rw [hget, Option.getD_some] at hfull
      refine ⟨priority, behaviors, ⟨SortedMap.get?_eq_some_iff.mp hget, ?_⟩, rfl⟩
      simpa using hfull

/-! ## All behaviors -/

/-- The behaviors that are placed, under whatever activity and priority. -/
def placed (grouped : SortedMap Activity Ranks) : List Behavior :=
  grouped.values.flatMap fun ranks => ranks.values.flatten

theorem placed_place_perm (t : CompiledTask) : (placed (place grouped t)).Perm (placed grouped ++ t.behaviors) := by
  let ranks := (grouped.get? t.activity).getD .empty
  refine SortedMap.flatMap_values_insert _ .empty rfl ?_
  have hranks : ((ranks.insert t.priority ((ranks.get? t.priority).getD [] ++ t.behaviors)).values.flatMap id).Perm
      (ranks.values.flatMap id ++ t.behaviors) :=
    SortedMap.flatMap_values_insert id [] rfl (.refl _)
  rwa [List.flatMap_id, List.flatMap_id] at hranks

theorem placed_foldl_perm :
    (placed (tasks.foldl place grouped)).Perm (placed grouped ++ tasks.flatMap CompiledTask.behaviors) := by
  induction tasks generalizing grouped with
  | nil =>
    rw [List.flatMap_nil, List.append_nil]
    exact .refl _
  | cons t rest ih =>
    rw [List.foldl_cons, List.flatMap_cons, ← List.append_assoc]
    exact ih.trans ((placed_place_perm t).append_right _)

/-- All behaviors of a brain, bucket after bucket. -/
def behaviors (b : Brain) : List Behavior :=
  b.activities.values.flatten.flatMap fun bucket => bucket.behaviors.map CountedBehavior.behavior

theorem length_behaviors (b : Brain) : b.behaviors.length = b.size := by
  unfold behaviors size
  induction b.activities.values.flatten with
  | nil => rfl
  | cons bucket rest ih =>
    rw [List.flatMap_cons, List.length_append, List.length_map, ih]
    rfl

/-- Ranks without a behavior are left out, and that takes no behavior away. -/
theorem behaviors_bucketsOf (ranks : Ranks) :
    ((bucketsOf ranks).flatMap fun bucket => bucket.behaviors.map CountedBehavior.behavior) = ranks.values.flatten := by
  unfold bucketsOf SortedMap.values SortedMap.toList
  induction ranks.entries with
  | nil => rfl
  | cons rank rest ih =>
    obtain ⟨priority, behaviors⟩ := rank
    cases behaviors with
    | nil => exact ih
    | cons behavior others =>
      rw [List.filter_cons_of_pos rfl, List.map_cons, List.flatMap_cons, ih, List.map_map]
      exact congrArg (· ++ _) (List.map_id _)

/-- A brain has the behaviors of the tasks that it is made of, each as often. -/
theorem behaviors_ofTasks_perm (agent : AgentId) (table : VariableTable) (tasks : List CompiledTask)
    (memories : SortedSet MemoryKey) (sensors : SortedSet SensorKind) :
    (ofTasks agent table tasks memories sensors).behaviors.Perm (tasks.flatMap CompiledTask.behaviors) := by
  have hplaced : (ofTasks agent table tasks memories sensors).behaviors = placed (tasks.foldl place .empty) := by
    unfold behaviors ofTasks placed
    rw [SortedMap.values_map, ← List.flatMap_def, List.flatMap_assoc]
    exact List.flatMap_congr fun ranks _ => behaviors_bucketsOf ranks
  rw [hplaced]
  exact placed_foldl_perm

/-! ## Buckets -/

/-- A brain has one bucket for each activity and priority under which there are behaviors, with all of them in the
order of the tasks, and the buckets of an activity ascend in priority. Its size is the number of behaviors of the
tasks that it is made of. -/
theorem ofTasks_groups (agent : AgentId) (table : VariableTable) (tasks : List CompiledTask)
    (memories : SortedSet MemoryKey) (sensors : SortedSet SensorKind) :
    (∀ label, (((ofTasks agent table tasks memories sensors).buckets label).Pairwise fun b b' =>
        b.priority < b'.priority) ∧
      ∀ bucket, bucket ∈ (ofTasks agent table tasks memories sensors).buckets label ↔ bucket.behaviors ≠ [] ∧
        bucket.behaviors =
          (CompiledTask.behaviorsUnder tasks label bucket.priority).map fun behavior => { behavior }) ∧
      (ofTasks agent table tasks memories sensors).size = (tasks.flatMap CompiledTask.behaviors).length := by
  refine ⟨fun label => ⟨?ascending, fun bucket => ?buckets⟩, ?size⟩
  case ascending =>
    exact List.pairwise_map.mp ((Arises.made agent table tasks memories sensors).ascending label)
  case buckets =>
    have hplaced : ((((tasks.foldl place .empty).get? label).getD .empty).get? bucket.priority).getD [] =
        CompiledTask.behaviorsUnder tasks label bucket.priority :=
      placedAt_foldl .empty
    rw [buckets_ofTasks, mem_bucketsOf_iff, hplaced]
  case size =>
    rw [← length_behaviors, (behaviors_ofTasks_perm agent table tasks memories sensors).length_eq]

end Brain

end Menagerie
