import Menagerie.Task.Walking

/-!
# Tasks in danger

Fleeing, panicking, striking back and calming down.
-/

namespace Menagerie.Task

def fleeAttacker (speed desiredDistance : Float) : Act Bool := do
  let id ← require "flee_attacker" .hurtByEntity MemoryValue.agent?
  match (← Act.world).view? id with
  | none => return false
  | some attacker =>
    let me ← Act.me
    if me.distanceTo attacker ≥ desiredDistance then return false
    let away := me.position.awayFrom attacker.position desiredDistance
    match (← Act.world).walkable? away with
    | none => return false
    | some destination =>
      walkTo destination speed 0.0
      return true

def switchToPanicWhenHurt : Act Bool := do
  if ← Act.isActive .panic then return false
  if ← Act.activate .panic then
    Act.forget .walkTarget
    Act.issue .stopMoving
    return true
  else return false

def calmDown (activity : Activity) : Act Bool := do
  let panicking ← Act.isActive .panic
  let fighting ← Act.isActive .fight
  if !(panicking || fighting) then return false
  if ← Act.activate activity then
    Act.forget .attackTarget
    return true
  else return false

def retaliate : Act Bool := do
  let attacker ← require "retaliate" .hurtByEntity MemoryValue.agent?
  if !(← Act.world).isAlive attacker then return false
  Act.remember .attackTarget (.agent attacker)
  let _ ← Act.activate .fight
  return true

def meleeAttack (range : Float) (cooldown : UInt64) (chaseSpeed : Float) : Act Bool := do
  let target ← require "melee_attack" .attackTarget MemoryValue.agent?
  match ((← Act.world).view? target).filter AgentView.isAlive with
  | none =>
    Act.forget .attackTarget
    return false
  | some victim =>
    let me ← Act.me
    if me.distanceTo victim > range then
      walkTo victim.position chaseSpeed (range * 0.5)
      return true
    else
      Act.issue (.lookAt victim.position)
      Act.issue (.attack target)
      Act.rememberFor .attackCooling .flag cooldown
      return true

end Menagerie.Task
