import Menagerie.Agent.Id
import Menagerie.Space

/-!
# What agents remember

An agent remembers under a closed set of keys, and each key takes values of one kind. The order of
the keys is the one they are listed in.
-/

namespace Menagerie

open Std

/-- The shape of a remembered value. -/
inductive MemoryKind where
  | flag
  | count
  | number
  | agent
  | agents
  | position
  | walkTarget
  | item
  deriving DecidableEq, Repr

instance : Named MemoryKind where
  all := [.flag, .count, .number, .agent, .agents, .position, .walkTarget, .item]
  name
    | .flag => "flag"
    | .count => "count"
    | .number => "number"
    | .agent => "agent"
    | .agents => "agents"
    | .position => "position"
    | .walkTarget => "walk_target"
    | .item => "item"

/-- What a memory is about. -/
inductive MemoryKey where
  | walkTarget
  | lookTarget
  /-- A pause after a search for a way, so that it is not repeated each tick. -/
  | pathCooldown
  | nearestVisibleAgents
  | herdLeader
  | herdSize
  | hurtBy
  | hurtByEntity
  | drowsy
  | restPosition
  | sleeping
  | nearbyFlower
  | hasNectar
  | pollinateCooldown
  | attackTarget
  | attackCooling
  | wantedItem
  | timeTryingToReachItem
  | disableWalkToItem
  deriving DecidableEq, Repr

namespace MemoryKey

instance : Named MemoryKey where
  all := [.walkTarget, .lookTarget, .pathCooldown, .nearestVisibleAgents, .herdLeader, .herdSize,
    .hurtBy, .hurtByEntity, .drowsy, .restPosition, .sleeping, .nearbyFlower, .hasNectar,
    .pollinateCooldown, .attackTarget, .attackCooling, .wantedItem, .timeTryingToReachItem,
    .disableWalkToItem]
  name
    | .walkTarget => "walk_target"
    | .lookTarget => "look_target"
    | .pathCooldown => "path_cooldown"
    | .nearestVisibleAgents => "nearest_visible_agents"
    | .herdLeader => "herd_leader"
    | .herdSize => "herd_size"
    | .hurtBy => "hurt_by"
    | .hurtByEntity => "hurt_by_entity"
    | .drowsy => "drowsy"
    | .restPosition => "rest_position"
    | .sleeping => "sleeping"
    | .nearbyFlower => "nearby_flower"
    | .hasNectar => "has_nectar"
    | .pollinateCooldown => "pollinate_cooldown"
    | .attackTarget => "attack_target"
    | .attackCooling => "attack_cooling"
    | .wantedItem => "wanted_item"
    | .timeTryingToReachItem => "time_trying_to_reach_item"
    | .disableWalkToItem => "disable_walk_to_item"

instance : Ord MemoryKey := ⟨fun a b => compare a.ctorIdx b.ctorIdx⟩

instance : TransOrd MemoryKey := transOrd_of_rank MemoryKey.ctorIdx fun _ _ => rfl

instance : LawfulEqOrd MemoryKey :=
  lawfulEqOrd_of_rank MemoryKey.ctorIdx (fun _ _ => rfl) fun a b h => by
    rw [← MemoryKey.ofNat_ctorIdx a, h, MemoryKey.ofNat_ctorIdx]

/-- The kind of value that a key takes. -/
def kind : MemoryKey → MemoryKind
  | walkTarget => .walkTarget
  | lookTarget | restPosition | nearbyFlower => .position
  | nearestVisibleAgents => .agents
  | herdLeader | hurtByEntity | attackTarget => .agent
  | herdSize | timeTryingToReachItem => .count
  | hurtBy => .number
  | wantedItem => .item
  | pathCooldown | drowsy | sleeping | hasNectar | pollinateCooldown | attackCooling
  | disableWalkToItem => .flag

end MemoryKey

/-- A remembered value. -/
inductive MemoryValue where
  | flag
  | count (n : UInt32)
  | number (x : Float)
  | agent (id : AgentId)
  /-- Agents, the nearest first. -/
  | agents (ids : List AgentId)
  | position (p : Position)
  | walkTarget (t : WalkTarget)
  | item (id : ItemId)
  deriving DecidableEq, Repr

namespace MemoryValue

def kind : MemoryValue → MemoryKind
  | flag => .flag
  | count _ => .count
  | number _ => .number
  | agent _ => .agent
  | agents _ => .agents
  | position _ => .position
  | walkTarget _ => .walkTarget
  | item _ => .item

def count? : MemoryValue → Option UInt32
  | count n => some n
  | _ => none

def agent? : MemoryValue → Option AgentId
  | agent id => some id
  | _ => none

def agents? : MemoryValue → Option (List AgentId)
  | agents ids => some ids
  | _ => none

def position? : MemoryValue → Option Position
  | position p => some p
  | _ => none

def walkTarget? : MemoryValue → Option WalkTarget
  | walkTarget t => some t
  | _ => none

def item? : MemoryValue → Option ItemId
  | item id => some id
  | _ => none

end MemoryValue

end Menagerie
