import Menagerie.Agent.Id
import Menagerie.Clock
import Menagerie.Terrain.Feature
import Menagerie.Variable.Table

/-!
# Scenarios

A `Scenario` is what a world starts with: its terrain, who spawns where, what lies about, and which
hits are dealt when.
-/

namespace Menagerie

/-- An agent to spawn. -/
structure Spawn where
  /-- A number of its own; else the next free one. -/
  id : Option AgentId := none
  template : String
  level : UInt32 := 1
  position : Position
  /-- The health it starts with; else the most that its template allows. -/
  health : Option Float := none
  /-- Values for its variables, put in place after those of the template. -/
  overrides : SortedMap String VariableOverride := .empty
  deriving DecidableEq

/-- An item to put into the world. -/
structure ItemPlacement where
  id : ItemId
  position : Position
  deriving DecidableEq, Repr

/-- A hit to deal at the start of a tick. -/
structure ScriptedHit where
  tick : Tick
  attacker : AgentId
  victim : AgentId
  damage : Float
  deriving DecidableEq, Repr

/-- What a world starts with. -/
structure Scenario where
  terrain : Terrain := {}
  agents : List Spawn := []
  features : List Feature := []
  items : List ItemPlacement := []
  hits : List ScriptedHit := []
  deriving DecidableEq

section Reading

variable {δ : Type} [Shaped δ]

def Spawn.read? (d : δ) : Option Spawn := do
  let fields ← Shaped.record? "SpawnSpec"
    ["id", "template", "level", "position", "health", "overrides"] d
  return {
    id := ← fields.orElse "id" none (Shaped.optionOf? AgentId.read?)
    template := ← fields.required "template" Shaped.text?
    level := ← fields.orElse "level" 1 Shaped.uint32?
    position := ← fields.required "position" Position.read?
    health := ← fields.orElse "health" none (Shaped.optionOf? Shaped.number?)
    overrides := ← fields.orElse "overrides" .empty (Shaped.mapOf? VariableOverride.read?) }

def ItemPlacement.read? (d : δ) : Option ItemPlacement := do
  let fields ← Shaped.record? "ItemSpec" ["id", "position"] d
  return ⟨← fields.required "id" ItemId.read?, ← fields.required "position" Position.read?⟩

def ScriptedHit.read? (d : δ) : Option ScriptedHit := do
  let fields ← Shaped.record? "HitSpec" ["tick", "attacker", "victim", "damage"] d
  return {
    tick := ← fields.required "tick" Tick.read?
    attacker := ← fields.required "attacker" AgentId.read?
    victim := ← fields.required "victim" AgentId.read?
    damage := ← fields.required "damage" Shaped.number? }

def Scenario.read? (d : δ) : Option Scenario := do
  let fields ← Shaped.record? "Scenario" ["terrain", "agents", "features", "items", "hits"] d
  return {
    terrain := ← fields.orElse "terrain" {} Terrain.read?
    agents := ← fields.orElse "agents" [] (Shaped.listOf? Spawn.read?)
    features := ← fields.orElse "features" [] (Shaped.listOf? Feature.read?)
    items := ← fields.orElse "items" [] (Shaped.listOf? ItemPlacement.read?)
    hits := ← fields.orElse "hits" [] (Shaped.listOf? ScriptedHit.read?) }

end Reading

def Spawn.toDocument (s : Spawn) : Document :=
  .object [("id", Document.ofOption AgentId.toDocument s.id), ("template", .text s.template),
    ("level", Document.ofUInt32 s.level), ("position", s.position.toDocument),
    ("health", Document.ofOption Document.float s.health),
    ("overrides", Document.ofMap VariableOverride.toDocument s.overrides)]

def ItemPlacement.toDocument (i : ItemPlacement) : Document :=
  .object [("id", i.id.toDocument), ("position", i.position.toDocument)]

def ScriptedHit.toDocument (h : ScriptedHit) : Document :=
  .object [("tick", h.tick.toDocument), ("attacker", h.attacker.toDocument),
    ("victim", h.victim.toDocument), ("damage", .float h.damage)]

def Scenario.toDocument (s : Scenario) : Document :=
  .object [("terrain", s.terrain.toDocument),
    ("agents", Document.ofList Spawn.toDocument s.agents),
    ("features", Document.ofList Feature.toDocument s.features),
    ("items", Document.ofList ItemPlacement.toDocument s.items),
    ("hits", Document.ofList ScriptedHit.toDocument s.hits)]

namespace Scenario

/-- The first number of its own that an agent shares with an agent before it. -/
def repeatedId? (s : Scenario) : Option AgentId :=
  search [] (s.agents.filterMap Spawn.id)
where
  search (seen : List AgentId) : List AgentId → Option AgentId
    | [] => none
    | id :: rest => if seen.contains id then some id else search (id :: seen) rest

end Scenario

end Menagerie
