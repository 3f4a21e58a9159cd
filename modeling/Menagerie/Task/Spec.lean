import Menagerie.Activity.Label
import Menagerie.Terrain.Feature
import Menagerie.Variable.Binding

/-!
# Task specifications

A `TaskSpec` is a task as content describes it: its parameters are bindings, and groups hold tasks
of their own. Compiling makes behaviors of it for one agent; a specification itself never changes.

A specification has a kind, which is its tag in content. Its own bindings come in a fixed order, and
the variables they declare come before those of the tasks inside it.
-/

namespace Menagerie

open Std

/-- The kind of a task. -/
inductive TaskKind where
  | allOf
  | oneOf
  | random
  | doNothing
  | wander
  | fleeAttacker
  | switchToPanicWhenHurt
  | calmDown
  | retaliate
  | meleeAttack
  | findRestingPlace
  | goToSleep
  | wakeUp
  | moveIntoFluid
  | moveToItem
  | pathToFlower
  | pollinateFlower
  | findHerdLeader
  | maintainHerdLeader
  | countFollowers
  | followHerdLeader
  | switchToHerd
  | switchFromHerd
  deriving DecidableEq, Repr

instance : Named TaskKind where
  all := [.allOf, .oneOf, .random, .doNothing, .wander, .fleeAttacker, .switchToPanicWhenHurt,
    .calmDown, .retaliate, .meleeAttack, .findRestingPlace, .goToSleep, .wakeUp, .moveIntoFluid,
    .moveToItem, .pathToFlower, .pollinateFlower, .findHerdLeader, .maintainHerdLeader,
    .countFollowers, .followHerdLeader, .switchToHerd, .switchFromHerd]
  name
    | .allOf => "all_of"
    | .oneOf => "one_of"
    | .random => "random"
    | .doNothing => "do_nothing"
    | .wander => "wander"
    | .fleeAttacker => "flee_attacker"
    | .switchToPanicWhenHurt => "switch_to_panic_when_hurt"
    | .calmDown => "calm_down"
    | .retaliate => "retaliate"
    | .meleeAttack => "melee_attack"
    | .findRestingPlace => "find_resting_place"
    | .goToSleep => "go_to_sleep"
    | .wakeUp => "wake_up"
    | .moveIntoFluid => "move_into_fluid"
    | .moveToItem => "move_to_item"
    | .pathToFlower => "path_to_flower"
    | .pollinateFlower => "pollinate_flower"
    | .findHerdLeader => "find_herd_leader"
    | .maintainHerdLeader => "maintain_herd_leader"
    | .countFollowers => "count_followers"
    | .followHerdLeader => "follow_herd_leader"
    | .switchToHerd => "switch_to_herd"
    | .switchFromHerd => "switch_from_herd"

/-- A task without tasks inside it, as content describes it. -/
inductive LeafSpec where
  | doNothing
  | wander (condition chance horizontalRange verticalRange speed cooldownTicks : Binding)
  | fleeAttacker (condition speed desiredDistance : Binding)
  | switchToPanicWhenHurt (condition : Binding)
  | calmDown (activity : Activity)
  | retaliate (condition : Binding)
  | meleeAttack (range cooldownTicks chaseSpeed : Binding)
  | findRestingPlace (horizontalRange verticalRange speed cooldownTicks : Binding)
  | goToSleep (activity : Activity)
  | wakeUp (activity : Activity)
  | moveIntoFluid (fluid : FeatureKind)
      (condition horizontalRange verticalRange speed cooldownTicks : Binding)
  | moveToItem (condition speed maxDistance maxAttempts disableTicks : Binding)
  | pathToFlower (speed : Binding)
  | pollinateFlower (requiredTicks cooldownTicks : Binding)
  | findHerdLeader (checkTicks : Binding)
  | maintainHerdLeader (checkTicks : Binding)
  | countFollowers (checkTicks : Binding)
  | followHerdLeader (tooFar closeEnough followChance speed : Binding)
  | switchToHerd
  | switchFromHerd (activity : Activity)
  deriving DecidableEq, Repr

namespace LeafSpec

def kind : LeafSpec → TaskKind
  | doNothing => .doNothing
  | wander .. => .wander
  | fleeAttacker .. => .fleeAttacker
  | switchToPanicWhenHurt _ => .switchToPanicWhenHurt
  | calmDown _ => .calmDown
  | retaliate _ => .retaliate
  | meleeAttack .. => .meleeAttack
  | findRestingPlace .. => .findRestingPlace
  | goToSleep _ => .goToSleep
  | wakeUp _ => .wakeUp
  | moveIntoFluid .. => .moveIntoFluid
  | moveToItem .. => .moveToItem
  | pathToFlower _ => .pathToFlower
  | pollinateFlower .. => .pollinateFlower
  | findHerdLeader _ => .findHerdLeader
  | maintainHerdLeader _ => .maintainHerdLeader
  | countFollowers _ => .countFollowers
  | followHerdLeader .. => .followHerdLeader
  | switchToHerd => .switchToHerd
  | switchFromHerd _ => .switchFromHerd

/-- The bindings of a task, with the names of their fields. -/
def bindings : LeafSpec → List (String × Binding)
  | doNothing | calmDown _ | goToSleep _ | wakeUp _ | switchToHerd | switchFromHerd _ => []
  | wander condition chance horizontalRange verticalRange speed cooldownTicks =>
    [("condition", condition), ("wander_chance", chance), ("horizontal_range", horizontalRange),
      ("vertical_range", verticalRange), ("speed", speed), ("path_cooldown_ticks", cooldownTicks)]
  | fleeAttacker condition speed desiredDistance =>
    [("condition", condition), ("speed", speed), ("desired_distance", desiredDistance)]
  | switchToPanicWhenHurt condition => [("condition", condition)]
  | retaliate condition => [("condition", condition)]
  | meleeAttack range cooldownTicks chaseSpeed =>
    [("range", range), ("cooldown_ticks", cooldownTicks), ("chase_speed", chaseSpeed)]
  | findRestingPlace horizontalRange verticalRange speed cooldownTicks =>
    [("horizontal_range", horizontalRange), ("vertical_range", verticalRange), ("speed", speed),
      ("cooldown_ticks", cooldownTicks)]
  | moveIntoFluid _ condition horizontalRange verticalRange speed cooldownTicks =>
    [("condition", condition), ("horizontal_range", horizontalRange),
      ("vertical_range", verticalRange), ("speed", speed), ("cooldown_ticks", cooldownTicks)]
  | moveToItem condition speed maxDistance maxAttempts disableTicks =>
    [("condition", condition), ("speed", speed), ("max_distance", maxDistance),
      ("max_attempts", maxAttempts), ("disable_ticks", disableTicks)]
  | pathToFlower speed => [("speed", speed)]
  | pollinateFlower requiredTicks cooldownTicks =>
    [("required_ticks", requiredTicks), ("cooldown_ticks", cooldownTicks)]
  | findHerdLeader checkTicks => [("check_ticks", checkTicks)]
  | maintainHerdLeader checkTicks => [("check_ticks", checkTicks)]
  | countFollowers checkTicks => [("check_ticks", checkTicks)]
  | followHerdLeader tooFar closeEnough followChance speed =>
    [("too_far", tooFar), ("close_enough", closeEnough), ("follow_chance", followChance),
      ("speed", speed)]

/-- The activity that a task switches to, for the tasks that are told one. -/
def activity? : LeafSpec → Option Activity
  | calmDown a | goToSleep a | wakeUp a | switchFromHerd a => some a
  | _ => none

/-- The fluid that a task heads for, for the task that is told one. -/
def fluid? : LeafSpec → Option FeatureKind
  | moveIntoFluid fluid .. => some fluid
  | _ => none

end LeafSpec

/-- A task as content describes it. -/
inductive TaskSpec where
  | leaf (l : LeafSpec)
  /-- All tasks in order, if the condition holds for the agent. -/
  | allOf (condition : Binding) (tasks : List TaskSpec)
  /-- One of several tasks, drawn anew on each tick. -/
  | oneOf (condition : Binding) (options : List (UInt32 × TaskSpec))
  /-- One of several tasks, drawn once for each agent. -/
  | random (condition : Binding) (choices : List (Float × TaskSpec))

namespace TaskSpec

def kind : TaskSpec → TaskKind
  | leaf l => l.kind
  | allOf .. => .allOf
  | oneOf .. => .oneOf
  | random .. => .random

/-- The bindings of the task itself, with the names of their fields. -/
def bindings : TaskSpec → List (String × Binding)
  | leaf l => l.bindings
  | allOf condition _ | oneOf condition _ | random condition _ => [("condition", condition)]

/-- The place of a task in the list `field` at `place`, of which it is an entry's task. -/
def entryPlace (place : Location) (field : String) (i : Nat) : Location :=
  ((place.field field).index i).field "task"

/-- The tasks inside a task, with their places. -/
def children (place : Location) : TaskSpec → List (Location × TaskSpec)
  | leaf _ => []
  | allOf _ tasks => tasks.mapIdx fun i t => ((place.field "tasks").index i, t)
  | oneOf _ options => options.mapIdx fun i o => (entryPlace place "options" i, o.2)
  | random _ choices => choices.mapIdx fun i c => (entryPlace place "choices" i, c.2)

/-- The variables that bindings declare. -/
def declared (bindings : List (String × Binding)) : List Declaration :=
  bindings.filterMap fun b => b.2.declaration?

mutual

/-- The variables that a task declares, its own before those of the tasks inside it. -/
def declarations : TaskSpec → List Declaration
  | leaf l => declared l.bindings
  | allOf condition tasks => declared [("condition", condition)] ++ declarationsOfTasks tasks
  | oneOf condition options => declared [("condition", condition)] ++ declarationsOfOptions options
  | random condition choices => declared [("condition", condition)] ++ declarationsOfChoices choices

def declarationsOfTasks : List TaskSpec → List Declaration
  | [] => []
  | t :: rest => t.declarations ++ declarationsOfTasks rest

def declarationsOfOptions : List (UInt32 × TaskSpec) → List Declaration
  | [] => []
  | (_, t) :: rest => t.declarations ++ declarationsOfOptions rest

def declarationsOfChoices : List (Float × TaskSpec) → List Declaration
  | [] => []
  | (_, t) :: rest => t.declarations ++ declarationsOfChoices rest

end

/-- Checks that bindings can be resolved against the variables. -/
def checkBindings (table : VariableTable) (place : Location) :
    List (String × Binding) → Except ContentError Unit
  | [] => .ok ()
  | (field, b) :: rest => do
    let _ ← b.simplify table (place.field field)
    checkBindings table place rest

mutual

/-- Checks that every binding of a task and of the tasks inside it can be resolved against the
variables. -/
def validate (table : VariableTable) (place : Location) : TaskSpec → Except ContentError Unit
  | leaf l => checkBindings table place l.bindings
  | allOf condition tasks => do
    checkBindings table place [("condition", condition)]
    validateTasks table place 0 tasks
  | oneOf condition options => do
    checkBindings table place [("condition", condition)]
    validateOptions table place 0 options
  | random condition choices => do
    checkBindings table place [("condition", condition)]
    validateChoices table place 0 choices

def validateTasks (table : VariableTable) (place : Location) :
    Nat → List TaskSpec → Except ContentError Unit
  | _, [] => .ok ()
  | i, t :: rest => do
    t.validate table ((place.field "tasks").index i)
    validateTasks table place (i + 1) rest

def validateOptions (table : VariableTable) (place : Location) :
    Nat → List (UInt32 × TaskSpec) → Except ContentError Unit
  | _, [] => .ok ()
  | i, (_, t) :: rest => do
    t.validate table (entryPlace place "options" i)
    validateOptions table place (i + 1) rest

def validateChoices (table : VariableTable) (place : Location) :
    Nat → List (Float × TaskSpec) → Except ContentError Unit
  | _, [] => .ok ()
  | i, (_, t) :: rest => do
    t.validate table (entryPlace place "choices" i)
    validateChoices table place (i + 1) rest

end

end TaskSpec

end Menagerie
