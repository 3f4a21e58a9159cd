import Menagerie.Sensor.Kind
import Menagerie.Settings
import Menagerie.World.Basic

/-!
# Sensing

A sensor perceives what has changed for an agent, as updates to its memory: they are about no
memories but those of the sensor's kind. The updates are made one after the other up to the first
that fails. Nothing happens for an agent that is not there.
-/

namespace Menagerie

/-- A change to what is remembered under a key. -/
inductive MemoryUpdate where
  | store (key : MemoryKey) (value : MemoryValue)
  /-- Stores a value that runs out after so many ticks. -/
  | storeFor (key : MemoryKey) (value : MemoryValue) (ticks : UInt64)
  | clear (key : MemoryKey)

namespace MemoryUpdate

/-- The key that is changed. -/
def key : MemoryUpdate → MemoryKey
  | store key _ | storeFor key _ _ | clear key => key

/-- Keeps a memory up to date: the value there is now, or none. -/
def track (key : MemoryKey) : Option MemoryValue → MemoryUpdate
  | some value => store key value
  | none => clear key

end MemoryUpdate

/-- Makes an update. -/
def Blackboard.update (b : Blackboard) : MemoryUpdate → Except MemoryError Blackboard
  | .store key value => b.set key value
  | .storeFor key value ticks => b.setFor key value ticks
  | .clear key => .ok (b.erase key)

namespace World

/-- Updates the memory of an agent; nothing happens where there is none. -/
def updateMemory (w : World) (id : AgentId) (u : MemoryUpdate) : Except MemoryError World :=
  match w.memory? id with
  | none => .ok w
  | some memory => (memory.update u).map fun memory => w.updateBody id fun b => { b with memory }

/-- Makes updates up to the first that fails, and keeps those before it. -/
def updateMemories (w : World) (id : AgentId) :
    List MemoryUpdate → Except MemoryError Unit × World
  | [] => (.ok (), w)
  | u :: rest =>
    match w.updateMemory id u with
    | .ok w => w.updateMemories id rest
    | .error e => (.error e, w)

/-- The living agents within a range of one, the nearest first and those that are as near in the
order of their numbers. -/
def visibleFrom (w : World) (me : AgentView) (id : AgentId) (range : Float) : List AgentId :=
  let others := (w.living.filter fun other => other.id ≠ id).map fun other =>
    (me.distanceTo other, other.id)
  let near := others.filter fun other => other.1 ≤ range
  let before (a b : Float × AgentId) : Bool :=
    let da := Number.orderKey a.1
    let db := Number.orderKey b.1
    if da = db then a.2.number ≤ b.2.number else da < db
  (near.mergeSort before).map Prod.snd

end World

/-- A sensor. -/
structure Sensor where
  /-- It senses on the ticks that this divides. -/
  interval : UInt64
  perceive : AgentId → World → List MemoryUpdate

namespace Sensor

/-- How far up and down flowers are seen. -/
def flowerHeight : Float := 4.0

/-- Lists the agents in sight. The list is written also where it is empty. -/
def nearestVisible (range : Float) (id : AgentId) (w : World) : List MemoryUpdate :=
  match w.view? id with
  | none => []
  | some me => [.store .nearestVisibleAgents (.agents (w.visibleFrom me id range))]

/-- Remembers the last hit for so many ticks after it was dealt. -/
def hurtBy (memoryTicks : UInt64) (id : AgentId) (w : World) : List MemoryUpdate :=
  match (w.body? id).bind Body.lastHit with
  | none => []
  | some (attacker, hitAt) =>
    let remaining := (hitAt.after memoryTicks).since w.now
    if remaining = 0 then []
    else [.storeFor .hurtBy (.number hitAt.count.toFloat) remaining,
      .storeFor .hurtByEntity (.agent attacker) remaining]

/-- Is drowsy at night. -/
def drowsy (_ : AgentId) (w : World) : List MemoryUpdate :=
  [.track .drowsy (if w.clock.isNight then some .flag else none)]

/-- Keeps the nearest flower in mind. -/
def nearbyFlower (range : Float) (id : AgentId) (w : World) : List MemoryUpdate :=
  match w.view? id with
  | none => []
  | some me =>
    [.track .nearbyFlower
      ((w.findFeature? me.position .flower range flowerHeight).map .position)]

/-- Wants the nearest item, and goes on wanting it for as long as it lies about. -/
def wantedItem (range : Float) (id : AgentId) (w : World) : List MemoryUpdate :=
  match w.view? id with
  | none => []
  | some me =>
    let wanted := (w.remembered? id .wantedItem).bind MemoryValue.item?
    if wanted.any fun item => (w.itemPosition? item).isSome then []
    else [.track .wantedItem ((w.nearestItem? me.position range).map .item)]

/-- The sensor of each kind as the settings tune it. An interval is one tick at least. -/
def ofKind (s : SensorSettings) : SensorKind → Sensor
  | .nearestVisible => ⟨max s.visibleInterval 1, nearestVisible s.visibleRange⟩
  | .hurtBy => ⟨1, hurtBy s.hurtMemoryTicks⟩
  | .drowsy => ⟨max s.drowsyInterval 1, drowsy⟩
  | .nearbyFlower => ⟨max s.flowerInterval 1, nearbyFlower s.flowerRange⟩
  | .wantedItem => ⟨max s.itemInterval 1, wantedItem s.itemRange⟩

/-- Lets an agent sense. -/
def sense (s : Sensor) (id : AgentId) (w : World) : Except MemoryError Unit × World :=
  w.updateMemories id (s.perceive id w)

end Sensor

end Menagerie
