import Menagerie.Sensor.Kind
import Menagerie.Task.Act

/-!
# Leaf tasks

A `Leaf` is a task with its parameters known, as far as they can be known when its agent is made.
Each leaf has a table of requirements on the agent's memory: a leaf whose requirements do not hold
fails without doing anything. The keys a leaf reads and writes, and the sensors it needs, are
registered on its agent.
-/

namespace Menagerie

/-- How long an agent has been at a flower, and which. -/
structure FlowerStay where
  elapsed : UInt64 := 0
  flower : Option Position := none
  deriving DecidableEq, Repr

/-- A task with its parameters. -/
inductive Leaf where
  /-- Takes its turn and does nothing. -/
  | doNothing
  /-- Now and then walks somewhere near. -/
  | wander (chance horizontal vertical speed : Param) (cooldown : UInt64)
  /-- Walks away from an attacker that is near. -/
  | fleeAttacker (speed desiredDistance : Float)
  /-- Panics when hurt. -/
  | switchToPanicWhenHurt
  /-- Ends panic and fighting once no longer hurt. -/
  | calmDown (activity : Activity)
  /-- Turns the last attacker into the target of attacks. -/
  | retaliate
  /-- Walks to the target of attacks and strikes at intervals. -/
  | meleeAttack (range : Float) (cooldown : UInt64) (chaseSpeed : Float)
  /-- Looks for a spot to rest and walks there. -/
  | findRestingPlace (horizontal vertical : Float) (speed : Param) (cooldown : UInt64)
  | goToSleep (activity : Activity)
  /-- Wakes when no longer drowsy, or at once when hurt. -/
  | wakeUp (activity : Activity)
  /-- Walks to a fluid when out of it. -/
  | moveIntoFluid (fluid : FeatureKind) (horizontal vertical : Float) (speed : Param)
      (cooldown : UInt64)
  /-- Walks to a wanted item, and gives up after a while. -/
  | moveToItem (condition : Param) (speed maxDistance : Float) (maxAttempts : UInt32)
      (disableTicks : UInt64)
  | pathToFlower (speed : Param)
  /-- Collects nectar by staying at one flower. -/
  | pollinateFlower (required cooldown : UInt64) (stay : FlowerStay)
  | findHerdLeader (checkTicks : UInt64)
  /-- Leaves a leader that is none any more, or goes over to one of a higher level. -/
  | maintainHerdLeader (checkTicks : UInt64)
  | countFollowers (checkTicks : UInt64)
  /-- Stays near the leader. -/
  | followHerdLeader (tooFar closeEnough followChance : Float) (speed : Param)
  | switchToHerd
  | switchFromHerd (activity : Activity)
  deriving DecidableEq, Repr

/-- What a leaf needs of its agent. -/
structure Needs where
  requirements : List Requirement := []
  /-- The keys it reads and writes, apart from those its sensors write. -/
  memories : List MemoryKey := []
  sensors : List SensorKind := []
  deriving DecidableEq, Repr

namespace Leaf

def name : Leaf → String
  | doNothing => "do_nothing"
  | wander .. => "wander"
  | fleeAttacker .. => "flee_attacker"
  | switchToPanicWhenHurt => "switch_to_panic_when_hurt"
  | calmDown _ => "calm_down"
  | retaliate => "retaliate"
  | meleeAttack .. => "melee_attack"
  | findRestingPlace .. => "find_resting_place"
  | goToSleep _ => "go_to_sleep"
  | wakeUp _ => "wake_up"
  | moveIntoFluid .. => "move_into_fluid"
  | moveToItem .. => "move_to_item"
  | pathToFlower _ => "path_to_flower"
  | pollinateFlower .. => "pollinate_flower"
  | findHerdLeader _ => "find_herd_leader"
  | maintainHerdLeader _ => "maintain_herd_leader"
  | countFollowers _ => "count_followers"
  | followHerdLeader .. => "follow_herd_leader"
  | switchToHerd => "switch_to_herd"
  | switchFromHerd _ => "switch_from_herd"

def needs : Leaf → Needs
  | doNothing => {}
  | wander .. => {
      requirements := [.empty .walkTarget, .registered .lookTarget, .empty .pathCooldown]
      memories := [.walkTarget, .lookTarget, .pathCooldown] }
  | fleeAttacker .. => {
      requirements := [.present .hurtByEntity, .registered .walkTarget]
      memories := [.walkTarget, .lookTarget]
      sensors := [.hurtBy] }
  | switchToPanicWhenHurt => {
      requirements := [.present .hurtBy]
      memories := [.walkTarget]
      sensors := [.hurtBy] }
  | calmDown _ => {
      requirements := [.empty .hurtBy]
      sensors := [.hurtBy] }
  | retaliate => {
      requirements := [.present .hurtByEntity, .empty .attackTarget]
      memories := [.attackTarget]
      sensors := [.hurtBy] }
  | meleeAttack .. => {
      requirements := [.present .attackTarget, .empty .attackCooling]
      memories := [.attackTarget, .attackCooling, .walkTarget, .lookTarget] }
  | findRestingPlace .. => {
      requirements := [.present .drowsy, .empty .sleeping, .empty .walkTarget, .empty .pathCooldown]
      memories := [.sleeping, .walkTarget, .lookTarget, .pathCooldown, .restPosition]
      sensors := [.drowsy] }
  | goToSleep _ => {
      requirements := [.present .drowsy, .empty .sleeping, .empty .walkTarget]
      memories := [.sleeping, .walkTarget, .restPosition]
      sensors := [.drowsy] }
  | wakeUp _ => {
      requirements := [.present .sleeping]
      memories := [.sleeping, .restPosition]
      sensors := [.drowsy] }
  | moveIntoFluid .. => {
      requirements := [.empty .walkTarget, .empty .pathCooldown]
      memories := [.walkTarget, .lookTarget, .pathCooldown] }
  | moveToItem .. => {
      requirements := [.present .wantedItem, .empty .disableWalkToItem, .registered .walkTarget,
        .registered .timeTryingToReachItem]
      memories := [.walkTarget, .lookTarget, .timeTryingToReachItem, .disableWalkToItem]
      sensors := [.wantedItem] }
  | pathToFlower _ => {
      requirements := [.present .nearbyFlower, .empty .hasNectar, .empty .pollinateCooldown,
        .empty .walkTarget]
      memories := [.hasNectar, .pollinateCooldown, .walkTarget, .lookTarget]
      sensors := [.nearbyFlower] }
  | pollinateFlower .. => {
      requirements := [.present .nearbyFlower, .empty .hasNectar, .empty .pollinateCooldown]
      memories := [.hasNectar, .pollinateCooldown]
      sensors := [.nearbyFlower] }
  | findHerdLeader _ => {
      requirements := [.present .nearestVisibleAgents, .empty .herdLeader]
      memories := [.herdLeader]
      sensors := [.nearestVisible] }
  | maintainHerdLeader _ => {
      requirements := [.present .herdLeader, .registered .nearestVisibleAgents]
      memories := [.herdLeader]
      sensors := [.nearestVisible] }
  | countFollowers _ => {
      requirements := [.present .nearestVisibleAgents, .registered .herdSize]
      memories := [.herdSize]
      sensors := [.nearestVisible] }
  | followHerdLeader .. => {
      requirements := [.present .herdLeader, .registered .walkTarget]
      memories := [.herdLeader, .walkTarget, .lookTarget] }
  | switchToHerd => {
      requirements := [.present .herdLeader]
      memories := [.herdLeader] }
  | switchFromHerd _ => {
      requirements := [.empty .herdLeader]
      memories := [.herdLeader] }

end Leaf

end Menagerie
