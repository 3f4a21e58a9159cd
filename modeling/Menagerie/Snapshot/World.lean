import Menagerie.Herd.Leader
import Menagerie.Snapshot.Memory
import Menagerie.World.Basic

/-!
# Snapshots of worlds

Bodies and items are shown in the order of their numbers, and intents in the order in which they
were issued. Features are left out: they are what a scenario says they are.
-/

namespace Menagerie

/-- The fields that show an agent. -/
def AgentView.snapshotFields (a : AgentView) : List (String × Document) :=
  [("id", a.id.toDocument), ("species", .text a.species), ("level", Document.ofUInt32 a.level),
    ("health", .float a.health), ("max_health", .float a.maxHealth),
    ("position", a.position.snapshot), ("in_water", .bool a.inWater), ("in_lava", .bool a.inLava)]

def AgentView.snapshot (a : AgentView) : Document := .object a.snapshotFields

/-- Reads an agent. What is not said of it is as with `missing`, but for its health, which is the
most it can have. -/
def AgentView.ofSnapshot? (missing : AgentView) (d : Document) : Option AgentView := do
  let fields : Fields Document ← Shaped.entries? d
  let maxHealth ← fields.orElse "max_health" missing.maxHealth Document.numberInWords?
  return {
    id := ← fields.orElse "id" missing.id AgentId.read?
    species := ← fields.orElse "species" missing.species Shaped.text?
    level := ← fields.orElse "level" missing.level Shaped.uint32?
    health := ← fields.orElse "health" maxHealth Document.numberInWords?
    maxHealth
    position := ← fields.orElse "position" missing.position Position.ofSnapshot?
    inWater := ← fields.orElse "in_water" missing.inWater Shaped.bool?
    inLava := ← fields.orElse "in_lava" missing.inLava Shaped.bool? }

/-- Reads what the choice of a leader needs to know of an agent. -/
def LeaderCandidate.ofSnapshot? (missing : AgentView) (d : Document) : Option LeaderCandidate := do
  let fields : Fields Document ← Shaped.entries? d
  return {
    view := ← AgentView.ofSnapshot? missing d
    following := ← fields.orElse "following" false Shaped.bool?
    herdSize := ← fields.orElse "herd_size" 0 Shaped.uint32?
    maxSize := ← fields.orElse "max_size" 4 Shaped.uint32? }

/-- Who dealt a hit, and when. -/
def hitSnapshot (hit : AgentId × Tick) : Document := .list [hit.1.toDocument, hit.2.toDocument]

/-- The fields that show a body. -/
def Body.snapshotFields (b : Body) : List (String × Document) :=
  b.view.snapshotFields ++
  [("template", .text b.template), ("memory", b.memory.snapshot),
    ("active", Document.ofList Document.ofMember b.schedule.active),
    ("pose", Document.ofMember b.pose), ("aspects", Document.ofList .text b.aspects.keys),
    ("look_at", Document.ofOption Position.snapshot b.lookAt),
    ("heading", Document.ofOption WalkTarget.snapshot b.heading),
    ("last_hit", Document.ofOption hitSnapshot b.lastHit),
    ("inventory", Document.ofList ItemId.toDocument b.inventory)]

def Body.snapshot (b : Body) : Document := .object b.snapshotFields

/-- An activity by its name in any letter case. -/
def Activity.ofWord? (d : Document) : Option Activity := (Shaped.text? d).bind Named.ofAnyCase?

/-- A schedule from the numbers of groups with their activities, in the order in which these are
added, and the activities to make active. -/
def Schedule.ofSnapshot? (groups : Document) (active : List Activity) : Option Schedule := do
  let entries ← Shaped.list? groups
  let schedule ← entries.foldlM (fun schedule entry => do
    let [number, label] ← Shaped.list? entry | none
    return schedule.add (← Shaped.natural? number).toUInt8 (← Activity.ofWord? label))
    Schedule.empty
  return active.foldl Schedule.activate schedule

/-- A memory in which some keys are registered, and some have values that do not run out. -/
def Blackboard.ofSnapshot? (registered : List MemoryKey) (values : SortedMap String MemoryValue) :
    Option Blackboard :=
  values.toList.foldlM (fun memory (name, value) => do
    let key ← Named.ofName? name
    ((memory.register key).set key value).toOption) (Blackboard.empty.registerAll registered)

/-- Sets a body up. What is not said of its view is as with `missing`. -/
def Body.ofSnapshot? (missing : AgentView) (d : Document) : Option Body := do
  let fields : Fields Document ← Shaped.entries? d
  let registered ← fields.orElse "register" [] (Shaped.listOf? Shaped.member?)
  let values ← fields.orElse "memory" .empty (Shaped.mapOf? MemoryValue.ofSnapshot?)
  let active ← fields.orElse "active" [] (Shaped.listOf? Activity.ofWord?)
  return {
    view := ← AgentView.ofSnapshot? missing d
    template := ← fields.orElse "template" "t" Shaped.text?
    herd := ← fields.orElse "herd" {} HerdProfile.read?
    memory := ← Blackboard.ofSnapshot? registered values
    schedule := ← fields.orElse "activities" .empty fun d => Schedule.ofSnapshot? d active
    pose := ← fields.orElse "pose" .standing Shaped.member? }

namespace Intent

def snapshot : Intent → Document
  | walk t => .object [("walk", t.snapshot)]
  | lookAt p => .object [("look_at", p.snapshot)]
  | stopMoving => .object [("stop", .bool true)]
  | attack id => .object [("attack", id.toDocument)]
  | pickUp id => .object [("pick_up", id.toDocument)]
  | setPose p => .object [("pose", Document.ofMember p)]
  | setAspect name enabled =>
    .object [("aspect", .object [("name", .text name), ("enabled", .bool enabled)])]
  | playSound name => .object [("sound", .text name)]

def ofSnapshot? : Document → Option Intent
  | .object [("walk", d)] => (WalkTarget.ofSnapshot? d).map walk
  | .object [("look_at", d)] => (Position.ofSnapshot? d).map lookAt
  | .object [("stop", _)] => some stopMoving
  | .object [("attack", d)] => (AgentId.read? d).map attack
  | .object [("pick_up", d)] => (ItemId.read? d).map pickUp
  | .object [("pose", d)] => (Shaped.member? d).map setPose
  | .object [("aspect", d)] => do
    let fields : Fields Document ← Shaped.entries? d
    return setAspect (← fields.required "name" Shaped.text?)
      (← fields.required "enabled" Shaped.bool?)
  | .object [("sound", d)] => (Shaped.text? d).map playSound
  | _ => none

end Intent

namespace World

/-- The items that lie about. -/
def itemsSnapshot (w : World) : Document :=
  Document.ofList (fun (id, p) => .list [ItemId.toDocument id, Position.snapshot p]) w.items.toList

/-- The intents that wait. -/
def intentsSnapshot (w : World) : Document :=
  Document.ofList (fun (id, i) => .list [AgentId.toDocument id, Intent.snapshot i]) w.intents

def snapshot (w : World) : Document :=
  .object [("now", w.now.toDocument), ("bodies", Document.ofList Body.snapshot w.bodies.values),
    ("items", w.itemsSnapshot), ("pending", w.intentsSnapshot), ("stats", w.tally.toDocument)]

end World

end Menagerie
