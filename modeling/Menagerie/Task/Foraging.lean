import Menagerie.Task.Walking

/-!
# Foraging tasks

Going after items, and visiting flowers. Nectar takes a stay of many ticks at one flower:
`FlowerStay.visit` counts them, and starts over when the agent moves away or goes to another flower.
-/

namespace Menagerie

namespace FlowerStay

/-- What a tick at a flower comes to. -/
inductive Visit where
  /-- The flower is out of range. -/
  | away
  /-- The stay goes on. -/
  | staying
  /-- The stay has been long enough. -/
  | finished
  deriving DecidableEq, Repr

/-- A tick of a stay: the stay after it, whether the flower is a new one, and what the tick comes
to. -/
def visit (stay : FlowerStay) (required : UInt64) (near : Bool) (flower : Position) :
    FlowerStay × Bool × Visit :=
  if !near then ({}, false, .away)
  else
    let arrived := !stay.flower.any fun known => known.same flower
    let elapsed := (if arrived then 0 else stay.elapsed) + 1
    if elapsed < required then (⟨elapsed, some flower⟩, arrived, .staying)
    else ({}, arrived, .finished)

end FlowerStay

namespace Task

/-- How close to an item it can be picked up. -/
def pickupRange : Float := 1.0

/-- How close to a flower it can be pollinated. -/
def pollinateRange : Float := 1.5

/-- The visible aspect of an agent that carries nectar. -/
def nectarAspect : String := "has_nectar"

/-- Ends the pursuit of an item. -/
def giveUp : Act Unit := do
  Act.forget .wantedItem
  Act.forget .walkTarget
  Act.forget .timeTryingToReachItem

def moveToItem (condition : Param) (speed maxDistance : Float) (maxAttempts : UInt32)
    (disableTicks : UInt64) : Act Bool := do
  if !(← Act.bool condition) then return false
  let item ← require "move_to_item" .wantedItem MemoryValue.item?
  match (← Act.world).itemPosition? item with
  | none =>
    giveUp
    return false
  | some position =>
    let me ← Act.me
    let distance := me.position.distance position
    if distance > maxDistance then return false
    if distance ≤ pickupRange then
      Act.issue (.pickUp item)
      giveUp
      return true
    let attempts := (((← Act.remembered .timeTryingToReachItem).bind MemoryValue.count?).getD 0) + 1
    if attempts > maxAttempts then
      giveUp
      Act.rememberFor .disableWalkToItem .flag disableTicks
      return true
    Act.remember .timeTryingToReachItem (.count attempts)
    walkTo position speed (pickupRange * 0.5)
    return true

def pathToFlower (speed : Param) : Act Bool := do
  let flower ← require "path_to_flower" .nearbyFlower MemoryValue.position?
  let me ← Act.me
  if me.position.distance flower ≤ pollinateRange then return false
  let s ← Act.number speed
  walkTo flower s (pollinateRange * 0.5)
  return true

/-- The remembered flower, and whether the agent is near it. -/
def lookAtFlower : Act (Position × Bool) := do
  let flower ← require "pollinate_flower" .nearbyFlower MemoryValue.position?
  let me ← Act.me
  return (flower, !(me.position.distance flower > pollinateRange))

/-- What an agent does at a flower, once it is known what the tick comes to. -/
def attendFlower (flower : Position) (arrived : Bool) (cooldown : UInt64) :
    FlowerStay.Visit → Act Bool
  | .away => return false
  | visit => do
    if arrived then Act.issue (.lookAt flower)
    if visit = .finished then
      Act.remember .hasNectar .flag
      Act.rememberFor .pollinateCooldown .flag cooldown
      Act.issue (.setAspect nectarAspect true)
    return true

/-- A tick of pollination together with the stay after it. The stay is kept as it is where the
flower cannot be looked at. -/
def pollinateFlower (required cooldown : UInt64) (stay : FlowerStay) (env : ActEnv) (s : Stage) :
    Except TaskFault Bool × FlowerStay × Stage :=
  match lookAtFlower.runOn env s with
  | (.error fault, s) => (.error fault, stay, s)
  | (.ok (flower, near), s) =>
    let (stay, arrived, visit) := stay.visit required near flower
    let (outcome, s) := (attendFlower flower arrived cooldown visit).runOn env s
    (outcome, stay, s)

end Task

end Menagerie
