import Menagerie.Herd.Leader
import Menagerie.Task.Walking

/-!
# Herding tasks

Herds live in the memories of their members alone: a follower remembers its leader, and a leader
counts its followers among the agents it sees. An agent that takes a leader makes sure that this
leader follows nobody.
-/

namespace Menagerie

/-- What the choice of a leader needs to know of an agent of the world. -/
def LeaderCandidate.ofWorld? (w : World) (id : AgentId) : Option LeaderCandidate :=
  (w.body? id).map fun b => {
    view := b.view
    following := b.memory.hasValue .herdLeader
    herdSize := ((b.memory.get? .herdSize).bind MemoryValue.count?).getD 0
    maxSize := b.herd.maxSize }

namespace Task

/-- Takes a leader, which no longer follows anyone. -/
def claimLeader (leader : AgentId) : Act Unit := do
  Act.forgetOf leader .herdLeader
  Act.remember .herdLeader (.agent leader)

def findHerdLeader (checkTicks : UInt64) : Act Bool := do
  if !(← Act.now).isMultipleOf checkTicks then return false
  let me ← Act.me
  match (← Act.world).herd? me.id with
  | none => return false
  | some profile =>
    let nearby ← require "find_herd_leader" .nearestVisibleAgents MemoryValue.agents?
    let w ← Act.world
    match bestLeader? me profile (nearby.filterMap (LeaderCandidate.ofWorld? w)) none with
    | none => return false
    | some leader =>
      claimLeader leader
      return true

/-- Whether an agent may stay the leader of another. -/
def isFitLeader (w : World) (me : AgentView) (profile : HerdProfile) (leader : AgentView)
    (leaderId : AgentId) : Bool :=
  leader.id != me.id && leader.isAlive && profile.tolerates leader.species &&
  !(w.memory? leaderId).any fun memory => memory.hasValue .herdLeader

def maintainHerdLeader (checkTicks : UInt64) : Act Bool := do
  if !(← Act.now).isMultipleOf checkTicks then return false
  let me ← Act.me
  let leaderId ← require "maintain_herd_leader" .herdLeader MemoryValue.agent?
  let w ← Act.world
  let profile := (w.herd? me.id).getD {}
  match (w.view? leaderId).filter fun leader => isFitLeader w me profile leader leaderId with
  | none =>
    Act.forget .herdLeader
    return true
  | some leader =>
    let nearby := ((← Act.remembered .nearestVisibleAgents).bind MemoryValue.agents?).getD []
    let candidates := nearby.filterMap (LeaderCandidate.ofWorld? w)
    let others := candidates.filter fun c => c.view.id ≠ leaderId
    match bestLeader? me profile others (some leader.level) with
    | none => return true
    | some better =>
      claimLeader better
      return true

/-- How many of the given agents follow `leader`. -/
def followersAmong (w : World) (leader : AgentId) (ids : List AgentId) : Nat :=
  (ids.filter fun id =>
    (w.remembered? id .herdLeader).bind MemoryValue.agent? = some leader).length

def countFollowers (checkTicks : UInt64) : Act Bool := do
  if !(← Act.now).isMultipleOf checkTicks then return false
  let me := (← read).agent
  let nearby ← require "count_followers" .nearestVisibleAgents MemoryValue.agents?
  let followers := followersAmong (← Act.world) me nearby
  if followers = 0 then Act.forget .herdSize
  else Act.remember .herdSize (.count (UInt32.ofNat (min followers (UInt32.size - 1))))
  return true

/-- Where a follower walks to: a leader that is too far, unless it is on its way there already; or
now and then where a near leader is going. -/
def followTarget? (tooFar closeEnough followChance : Float) (leaderId : AgentId)
    (leader : AgentView) : Act (Option Position) := do
  let me ← Act.me
  let heading := (← Act.remembered .walkTarget).bind MemoryValue.walkTarget?
  if me.distanceTo leader > tooFar then
    let returning := heading.any fun t => t.position.distance leader.position ≤ closeEnough
    return if returning then none else some leader.position
  else
    match ((← Act.world).remembered? leaderId .walkTarget).bind MemoryValue.walkTarget? with
    | none => return none
    | some target =>
      if heading.isSome then return none
      if ← Act.chance followChance then return some target.position else return none

def followHerdLeader (tooFar closeEnough followChance : Float) (speed : Param) : Act Bool := do
  let leaderId ← require "follow_herd_leader" .herdLeader MemoryValue.agent?
  match ((← Act.world).view? leaderId).filter AgentView.isAlive with
  | none =>
    Act.forget .herdLeader
    return false
  | some leader =>
    match ← followTarget? tooFar closeEnough followChance leaderId leader with
    | none => return false
    | some anchor =>
      match ← drawDestination anchor closeEnough 1.0 destinationAttempts with
      | none => return false
      | some destination =>
        let s ← Act.number speed
        walkTo destination s 1.0
        return true

def switchToHerd : Act Bool := do
  if ← Act.isActive .herd then return false
  Act.activate .herd

def switchFromHerd (activity : Activity) : Act Bool := do
  if ← Act.isActive .herd then Act.activate activity else return false

end Task

end Menagerie
