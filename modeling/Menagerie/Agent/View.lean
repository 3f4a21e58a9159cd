import Menagerie.Agent.Id
import Menagerie.Expr.Value
import Menagerie.Space

/-!
# Views of agents

An `AgentView` is what can be seen of an agent at one moment: who it is, how it fares and where it
stands. Expressions read the ticking agent through `AgentView.query`.
-/

namespace Menagerie

/-- What can be seen of an agent. -/
structure AgentView where
  id : AgentId
  /-- Compared letter by letter. -/
  species : String
  level : UInt32
  health : Float
  maxHealth : Float
  position : Position
  inWater : Bool
  inLava : Bool
  deriving DecidableEq, Repr

namespace AgentView

def isAlive (a : AgentView) : Bool := a.health > 0.0

/-- Health as a share of its maximum, between zero and one. -/
def healthRatio (a : AgentView) : Float :=
  if a.maxHealth ≤ 0.0 then 0.0 else Number.clamp 0.0 1.0 (a.health / a.maxHealth)

def distanceTo (a b : AgentView) : Float := a.position.distance b.position

/-- What expressions may read of an agent. -/
def query (a : AgentView) : String → Option Value
  | "id" => some (.number a.id.number.toFloat)
  | "species" => some (.text a.species)
  | "level" => some (.number a.level.toFloat)
  | "health" => some (.number a.health)
  | "max_health" => some (.number a.maxHealth)
  | "health_ratio" => some (.number a.healthRatio)
  | "is_alive" => some (.bool a.isAlive)
  | "is_in_water" => some (.bool a.inWater)
  | "is_in_lava" => some (.bool a.inLava)
  | "x" => some (.number a.position.x)
  | "y" => some (.number a.position.y)
  | "z" => some (.number a.position.z)
  | _ => none

end AgentView

end Menagerie
