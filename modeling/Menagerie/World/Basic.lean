import Menagerie.Selection
import Menagerie.Terrain.Feature
import Menagerie.World.Body

/-!
# The world

A `World` holds the bodies of all agents, the features and the items, and the intents that wait to
be carried out. Bodies and items are kept in the order of their numbers, features in the order in
which they were added, intents in the order in which they were issued.

What can be asked of a world is here; what happens in it is in `Menagerie.World.Effects`.
-/

namespace Menagerie

/-- What has happened in a world so far. -/
structure Tally where
  attacks : Nat := 0
  pickups : Nat := 0
  deaths : Nat := 0
  expiredMemories : Nat := 0
  deriving DecidableEq, Repr

def Tally.toDocument (t : Tally) : Document :=
  .object [("attacks", .int t.attacks), ("pickups", .int t.pickups), ("deaths", .int t.deaths),
    ("expired_memories", .int t.expiredMemories)]

/-- The state of a world. -/
structure World where
  clock : Clock
  terrain : Terrain
  /-- How far an agent walks in a tick at a speed of one. -/
  movementSpeed : Float
  bodies : SortedMap AgentId Body := .empty
  features : List Feature := []
  items : SortedMap ItemId Position := .empty
  intents : List (AgentId × Intent) := []
  tally : Tally := {}
  deriving DecidableEq

namespace World

/-! ## Bodies -/

def now (w : World) : Tick := w.clock.now

def contains (w : World) (id : AgentId) : Bool := w.bodies.contains id

def body? (w : World) (id : AgentId) : Option Body := w.bodies.get? id

def view? (w : World) (id : AgentId) : Option AgentView := (w.body? id).map Body.view

def memory? (w : World) (id : AgentId) : Option Blackboard := (w.body? id).map Body.memory

def schedule? (w : World) (id : AgentId) : Option Schedule := (w.body? id).map Body.schedule

def herd? (w : World) (id : AgentId) : Option HerdProfile := (w.body? id).map Body.herd

def position? (w : World) (id : AgentId) : Option Position :=
  (w.view? id).map AgentView.position

/-- Whether there is an agent of that number that is alive. -/
def isAlive (w : World) (id : AgentId) : Bool := (w.view? id).any AgentView.isAlive

/-- What an agent remembers under a key. -/
def remembered? (w : World) (id : AgentId) (key : MemoryKey) : Option MemoryValue :=
  (w.memory? id).bind fun memory => memory.get? key

/-- The living agents, in the order of their numbers. -/
def living (w : World) : List AgentView :=
  (w.bodies.values.map Body.view).filter AgentView.isAlive

/-- The world with one body changed; nothing happens where there is none. -/
def updateBody (w : World) (id : AgentId) (f : Body → Body) : World :=
  { w with bodies := w.bodies.modify id f }

def insertBody (w : World) (b : Body) : World :=
  { w with bodies := w.bodies.insert b.view.id b }

/-- Takes a body out, together with the intents of its agent. -/
def removeBody (w : World) (id : AgentId) : World :=
  { w with
    bodies := w.bodies.erase id
    intents := w.intents.filter fun entry => entry.1 ≠ id }

/-! ## Features and items -/

def addFeature (w : World) (f : Feature) : World := { w with features := w.features ++ [f] }

def addItem (w : World) (id : ItemId) (p : Position) : World :=
  { w with items := w.items.insert id p }

/-- The nearest feature of a kind within a horizontal and a vertical range; the first of several
that are as near. -/
def findFeature? (w : World) (origin : Position) (kind : FeatureKind)
    (horizontal vertical : Float) : Option Position :=
  let reachable := w.features.filter fun f =>
    f.kind == kind && origin.horizontalDistance f.position ≤ horizontal &&
    (f.position.y - origin.y).abs ≤ vertical
  let key (f : Feature) := Number.orderKey (origin.horizontalDistance f.position)
  (firstLeast? (fun f g => key f < key g) reachable).map Feature.position

def itemPosition? (w : World) (id : ItemId) : Option Position := w.items.get? id

/-- The nearest item within a range; the one with the lowest number of several that are as near. -/
def nearestItem? (w : World) (origin : Position) (range : Float) : Option ItemId :=
  let reachable := w.items.toList.filter fun (_, p) => origin.distance p ≤ range
  let key (item : ItemId × Position) := Number.orderKey (origin.distance item.2)
  (firstLeast? (fun a b => key a < key b) reachable).map Prod.fst

def walkable? (w : World) (candidate : Position) : Option Position := w.terrain.walkable? candidate

/-! ## Intents -/

/-- Adds an intent behind those that wait. -/
def issue (w : World) (id : AgentId) (intent : Intent) : World :=
  { w with intents := w.intents ++ [(id, intent)] }

end World

end Menagerie
