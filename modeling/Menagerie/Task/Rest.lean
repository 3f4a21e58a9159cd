import Menagerie.Task.Walking

/-!
# Tasks of rest

Finding a spot to rest at night, falling asleep there, and waking up.
-/

namespace Menagerie.Task

/-- How close to its spot an agent rests. -/
def restRange : Float := 1.5

def findRestingPlace (horizontal vertical : Float) (speed : Param) (cooldown : UInt64) :
    Act Bool := do
  Act.rememberFor .pathCooldown .flag cooldown
  let me ← Act.me
  match (← Act.world).findFeature? me.position .restSpot horizontal vertical with
  | none => return false
  | some spot =>
    Act.remember .restPosition (.position spot)
    if me.position.distance spot ≤ restRange then return false
    let s ← Act.number speed
    walkTo spot s 1.0
    return true

def goToSleep (activity : Activity) : Act Bool := do
  let me ← Act.me
  let spot := (← Act.remembered .restPosition).bind MemoryValue.position?
  if spot.any fun spot => me.position.distance spot > restRange then return false
  Act.issue (.setPose .sleeping)
  Act.remember .sleeping .flag
  let _ ← Act.activate activity
  return true

def wakeUp (activity : Activity) : Act Bool := do
  let drowsy := (← Act.remembered .drowsy).isSome
  let hurt := (← Act.remembered .hurtBy).isSome
  if drowsy && !hurt then return false
  Act.issue (.setPose .standing)
  Act.forget .sleeping
  Act.forget .restPosition
  let _ ← Act.activate activity
  return true

end Menagerie.Task
