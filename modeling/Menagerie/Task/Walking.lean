import Menagerie.Task.Leaf

/-!
# Walking tasks

Wandering about and heading for a fluid. The steps that all walking tasks share are here too: taking
a walk target, and drawing a place to go to.
-/

namespace Menagerie.Task

/-- Remembers where to walk and look, and asks to walk there. -/
def walkTo (position : Position) (speed completionRange : Float) : Act Unit := do
  let target : WalkTarget := ⟨position, speed, completionRange⟩
  Act.remember .walkTarget (.walkTarget target)
  Act.remember .lookTarget (.position position)
  Act.issue (.walk target)

/-- Draws places around a point until one can be walked on, so many times at most. -/
def drawDestination (around : Position) (horizontal vertical : Float) : Nat → Act (Option Position)
  | 0 => return none
  | attempts + 1 => do
    let dx ← Act.spread horizontal
    let dy ← Act.spread vertical
    let dz ← Act.spread horizontal
    match (← Act.world).walkable? (around.offset dx dy dz) with
    | some p => return some p
    | none => drawDestination around horizontal vertical attempts

/-- How often a place is drawn in one tick. -/
def destinationAttempts : Nat := 10

/-- What the agent remembers under a key, in the shape the task needs. A value of another shape is a
fault of the task. -/
def require {α : Type} (task : String) (key : MemoryKey) (shape : MemoryValue → Option α) :
    Act α := do
  match (← Act.remembered key).bind shape with
  | some a => return a
  | none => throw ⟨task, .unexpectedValue key⟩

def wander (chance horizontal vertical speed : Param) (cooldown : UInt64) : Act Bool := do
  let p ← Act.number chance
  if ← Act.chance p then
    Act.rememberFor .pathCooldown .flag cooldown
    let me ← Act.me
    let h ← Act.number horizontal
    let v ← Act.number vertical
    match ← drawDestination me.position h v destinationAttempts with
    | none => return false
    | some destination =>
      let s ← Act.number speed
      walkTo destination s 0.0
      return true
  else return false

def moveIntoFluid (fluid : FeatureKind) (horizontal vertical : Float) (speed : Param)
    (cooldown : UInt64) : Act Bool := do
  let me ← Act.me
  let immersed := match fluid with
    | .lava => me.inLava
    | _ => me.inWater
  if immersed then return false
  Act.rememberFor .pathCooldown .flag cooldown
  match (← Act.world).findFeature? me.position fluid horizontal vertical with
  | none => return false
  | some target =>
    let s ← Act.number speed
    walkTo target s 0.0
    return true

end Menagerie.Task
