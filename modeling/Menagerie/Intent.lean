import Menagerie.Agent.Id
import Menagerie.Space

/-!
# Intents

Behaviours do not change bodies themselves. They issue intents, which the world carries out once
every agent has had its turn.
-/

namespace Menagerie

/-- How a body holds itself. -/
inductive Pose where
  | standing
  | sleeping
  deriving DecidableEq, Repr

instance : Named Pose where
  all := [.standing, .sleeping]
  name
    | .standing => "standing"
    | .sleeping => "sleeping"

/-- Something that the world is asked to do with the body of an agent. -/
inductive Intent where
  | walk (target : WalkTarget)
  | lookAt (p : Position)
  | stopMoving
  | attack (victim : AgentId)
  | pickUp (item : ItemId)
  | setPose (pose : Pose)
  /-- Turns a visible aspect of the body on or off. -/
  | setAspect (name : String) (enabled : Bool)
  | playSound (name : String)
  deriving DecidableEq, Repr

end Menagerie
