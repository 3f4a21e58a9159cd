import Menagerie.Task.Danger
import Menagerie.Task.Foraging
import Menagerie.Task.Herding
import Menagerie.Task.Rest

/-!
# Running tasks

A leaf runs where its requirements hold, and fails without doing anything where they do not. Trees
of leaves whose guards are parameters are the behaviors that agents are made of.
-/

namespace Menagerie

namespace Leaf

/-- What a leaf does once its requirements hold, for the leaves that keep no count of their own. -/
def act : Leaf → Act Bool
  | doNothing => return true
  | wander chance horizontal vertical speed cooldown =>
    Task.wander chance horizontal vertical speed cooldown
  | fleeAttacker speed desiredDistance => Task.fleeAttacker speed desiredDistance
  | switchToPanicWhenHurt => Task.switchToPanicWhenHurt
  | calmDown activity => Task.calmDown activity
  | retaliate => Task.retaliate
  | meleeAttack range cooldown chaseSpeed => Task.meleeAttack range cooldown chaseSpeed
  | findRestingPlace horizontal vertical speed cooldown =>
    Task.findRestingPlace horizontal vertical speed cooldown
  | goToSleep activity => Task.goToSleep activity
  | wakeUp activity => Task.wakeUp activity
  | moveIntoFluid fluid horizontal vertical speed cooldown =>
    Task.moveIntoFluid fluid horizontal vertical speed cooldown
  | moveToItem condition speed maxDistance maxAttempts disableTicks =>
    Task.moveToItem condition speed maxDistance maxAttempts disableTicks
  | pathToFlower speed => Task.pathToFlower speed
  | pollinateFlower .. => return false
  | findHerdLeader checkTicks => Task.findHerdLeader checkTicks
  | maintainHerdLeader checkTicks => Task.maintainHerdLeader checkTicks
  | countFollowers checkTicks => Task.countFollowers checkTicks
  | followHerdLeader tooFar closeEnough followChance speed =>
    Task.followHerdLeader tooFar closeEnough followChance speed
  | switchToHerd => Task.switchToHerd
  | switchFromHerd activity => Task.switchFromHerd activity

/-- A turn of a leaf, whatever its requirements. -/
def turn (l : Leaf) (env : ActEnv) (s : Stage) : Ticked TaskFault Leaf Stage :=
  match l with
  | pollinateFlower required cooldown stay =>
    let (outcome, stay, s) := Task.pollinateFlower required cooldown stay env s
    ⟨outcome.map Status.ofBool, pollinateFlower required cooldown stay, s⟩
  | l =>
    let (outcome, s) := l.act.runOn env s
    ⟨outcome.map Status.ofBool, l, s⟩

/-- A tick of a leaf. -/
def run (env : ActEnv) (l : Leaf) (s : Stage) : Ticked TaskFault Leaf Stage :=
  match (Act.satisfies l.needs.requirements).runOn env s with
  | (.ok true, _) => l.turn env s
  | _ => ⟨.ok .failure, l, s⟩

end Leaf

/-- A tree of leaves, gated by parameters. -/
abbrev Behavior := Tree Leaf Param

/-- How the leaves and guards of an agent act. -/
def ActEnv.actor (env : ActEnv) : Actor TaskFault Leaf Param Stage where
  run l s := l.run env s
  check guard s := (Act.bool guard).runOn env s
  draw s :=
    let (x, random) := s.random.unit
    (x, { s with random })

namespace Behavior

def tick (env : ActEnv) (b : Behavior) (s : Stage) : Ticked TaskFault Behavior Stage :=
  Tree.tick env.actor b s

def name (b : Behavior) : String := Tree.name Leaf.name b

end Behavior

end Menagerie
