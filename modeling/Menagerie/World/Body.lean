import Menagerie.Activity.Schedule
import Menagerie.Herd.Profile
import Menagerie.Intent
import Menagerie.Memory.Blackboard

/-!
# Bodies

A `Body` is all that the world keeps of an agent: how it can be seen, what it remembers, which
activities are active, and what was last done with it.
-/

namespace Menagerie

/-- The state of an agent in the world. -/
structure Body where
  view : AgentView
  /-- The name of the template it was made from. -/
  template : String
  herd : HerdProfile
  memory : Blackboard
  schedule : Schedule
  pose : Pose := .standing
  /-- The visible aspects that are turned on. -/
  aspects : SortedSet String := .empty
  lookAt : Option Position := none
  /-- Where it was last told to walk. -/
  heading : Option WalkTarget := none
  /-- Who hit it last, and when. -/
  lastHit : Option (AgentId × Tick) := none
  /-- The items it picked up, in order. -/
  inventory : List ItemId := []
  deriving DecidableEq

namespace Body

/-- Where the body is walking: to the remembered target where it remembers targets at all, and else
to where it was last told to walk. -/
def walkTarget? (b : Body) : Option WalkTarget :=
  if b.memory.isRegistered .walkTarget then (b.memory.get? .walkTarget).bind MemoryValue.walkTarget?
  else b.heading

/-- The body without anywhere to walk. -/
def halted (b : Body) : Body :=
  { b with heading := none, memory := b.memory.erase .walkTarget }

end Body

end Menagerie
