import Menagerie.Herd.Profile
import Menagerie.Selection

/-!
# Choosing a leader

Among the agents that a follower sees, `bestLeader?` picks the one to follow: of those that qualify
the one of the highest level, then the nearest, then the one with the lowest number.
-/

namespace Menagerie

/-- What the choice of a leader needs to know of an agent. -/
structure LeaderCandidate where
  view : AgentView
  /-- Whether it follows another agent itself. -/
  following : Bool
  /-- The followers it last counted. -/
  herdSize : UInt32
  /-- The most followers it takes. -/
  maxSize : UInt32
  deriving DecidableEq, Repr

namespace LeaderCandidate

/-- Whether `follower` may join the candidate: another living agent that the profile tolerates, that
follows nobody, that has room, and whose level is above a given one. -/
def qualifies (follower : AgentView) (profile : HerdProfile) (aboveLevel : Option UInt32)
    (c : LeaderCandidate) : Bool :=
  c.view.id != follower.id && c.view.isAlive && (profile.matchLeader? follower c.view).isSome &&
  !c.following && c.herdSize < c.maxSize &&
  match aboveLevel with
  | none => true
  | some level => c.view.level > level

end LeaderCandidate

/-- The place of a distance in the order of all doubles. Where a coordinate of the difference is no
number because two infinite ones meet, the distance comes before all others; where a point has a
coordinate that is no number it comes after them. -/
def distanceKey (p q : Position) : Int :=
  let d := p.distance q
  if d.isNaN then
    let differences := [(p.x, q.x), (p.y, q.y), (p.z, q.z)]
    match differences.find? fun (a, b) => (b - a).isNaN with
    | some (a, b) => if a.isNaN ∨ b.isNaN then Number.orderKey Number.nan else Number.beforeAll
    | none => Number.orderKey Number.nan
  else Number.orderKey d

/-- Whether `a` is a better leader for `follower` than `b`. -/
def outranks (follower : AgentView) (a b : LeaderCandidate) : Bool :=
  let da := distanceKey follower.position a.view.position
  let db := distanceKey follower.position b.view.position
  if a.view.level ≠ b.view.level then a.view.level > b.view.level
  else if da ≠ db then da < db
  else a.view.id.number < b.view.id.number

/-- The leader that `follower` should join. Of candidates that rank alike the first is taken. -/
def bestLeader? (follower : AgentView) (profile : HerdProfile) (candidates : List LeaderCandidate)
    (aboveLevel : Option UInt32) : Option AgentId :=
  let qualified := candidates.filter (LeaderCandidate.qualifies follower profile aboveLevel)
  (firstLeast? (outranks follower) qualified).map fun c => c.view.id

end Menagerie
