import Menagerie.Simulation.Engine
import Menagerie.World.Effects

/-!
# Simulations

A simulation takes the agents of a world through one tick after another. In each tick

1. the clock advances, and memories run out;
2. the scripted hits that are due are dealt;
3. the sensors sense whose interval divides the tick;
4. the brains of living agents tick, in the order of the agents' numbers;
5. the intents are carried out, and bodies move.

All chance comes from one generator, so that settings, templates and scenario determine a run. An
operation that is refused leaves the world and the brains as they are.
-/

namespace Menagerie

/-- A spawn of a scenario that was refused, and why. -/
structure FailedSpawn where
  template : String
  cause : SimulationError

/-- The state of a run. -/
structure Simulation where
  engine : Engine
  world : World
  brains : SortedMap AgentId Brain := .empty
  random : Random
  /-- The scripted hits that are still to come, the earliest first. -/
  hits : List ScriptedHit := []
  failedSpawns : List FailedSpawn := []

namespace Simulation

/-! ## Spawning -/

/-- The number after the highest in use. -/
def nextId (s : Simulation) : AgentId :=
  ⟨(s.world.bodies.values.map fun b => b.view.id.number).foldl max 0 + 1⟩

/-- The number for a spawn. -/
def idFor (s : Simulation) (spawn : Spawn) : Except SimulationError AgentId :=
  match spawn.id with
  | none => .ok s.nextId
  | some id => if s.world.contains id then .error (.duplicateAgent id) else .ok id

/-- The body of an agent that was just compiled. -/
def bodyOf (t : Template) (agent : AgentView) (brain : Brain) (now : Tick) : Body :=
  { view := agent
    template := t.name
    herd := t.herd
    memory := ((Blackboard.empty.registerAll brain.memories.keys).advance now).2
    schedule := Engine.schedule t }

/-- Spawns an agent. A spawn that is refused uses up the draws that were made, and nothing else. -/
def spawn (s : Simulation) (spawn : Spawn) : Except SimulationError AgentId × Simulation :=
  match s.idFor spawn with
  | .error cause => (.error cause, s)
  | .ok id =>
    match s.engine.template spawn.template with
    | .error cause => (.error cause, s)
    | .ok t =>
      let agent := Engine.newborn t spawn id
      match s.engine.instantiate t spawn agent s.world.clock s.random with
      | (.error cause, random) => (.error (.content cause), { s with random })
      | (.ok brain, random) =>
        let world := s.world.insertBody (bodyOf t agent brain s.world.now)
        (.ok id, { s with world, random, brains := s.brains.insert id brain })

/-- Spawns an agent of a scenario; a refusal is noted. -/
def spawnOrNote (s : Simulation) (spawn : Spawn) : Simulation :=
  match s.spawn spawn with
  | (.ok _, s) => s
  | (.error cause, s) => { s with failedSpawns := s.failedSpawns ++ [⟨spawn.template, cause⟩] }

/-- The world of a scenario before its agents spawn. -/
def emptyWorld (settings : Settings) (scenario : Scenario) : World :=
  { clock := ⟨.zero, settings.dayLength⟩
    terrain := scenario.terrain
    movementSpeed := settings.movementSpeed
    features := scenario.features
    items := SortedMap.ofList (scenario.items.map fun i => (i.id, i.position)) }

/-- The start of a scenario. Hits of one tick keep their order. -/
def ofScenario (engine : Engine) (scenario : Scenario) : Simulation :=
  let start : Simulation := {
    engine
    world := emptyWorld engine.settings scenario
    random := Random.ofSeed engine.settings.seed
    hits := scenario.hits.mergeSort fun a b => a.tick ≤ b.tick }
  scenario.agents.foldl spawnOrNote start

/-- Takes an agent out. -/
def despawn (s : Simulation) (id : AgentId) : Except SimulationError Simulation :=
  if s.brains.contains id then
    .ok { s with world := s.world.removeBody id, brains := s.brains.erase id }
  else .error (.unknownAgent id)

/-! ## Ticks -/

/-- Deals the scripted hits that are due. -/
def dealHits (s : Simulation) : Simulation :=
  let now := s.world.now
  let due := s.hits.takeWhile fun h => h.tick ≤ now
  { s with
    hits := s.hits.drop due.length
    world := due.foldl (fun w h => w.damage h.attacker h.victim h.damage) s.world }

/-- Lets an agent use the sensor of a kind, if there is one and it is its turn. That a sensor cannot
write its memories is no error. -/
def senseKind (e : Engine) (id : AgentId) (w : World) (kind : SensorKind) : World :=
  match e.sensors kind with
  | none => w
  | some sensor =>
    if w.now.isMultipleOf sensor.interval then (sensor.sense id w).2 else w

/-- Lets an agent use its sensors, if it is alive. -/
def senseFor (e : Engine) (w : World) (entry : AgentId × Brain) : World :=
  if w.isAlive entry.1 then entry.2.sensors.keys.foldl (senseKind e entry.1) w else w

/-- Lets all agents use their sensors. -/
def sense (s : Simulation) : Simulation :=
  { s with world := s.brains.toList.foldl (senseFor s.engine) s.world }

/-- Ticks the brain of an agent, if it is alive. -/
def thinkFor (limit : Nat) (id : AgentId) (brain : Brain) (s : Stage) : Brain × Stage :=
  if s.world.isAlive id then brain.tick limit s else (brain, s)

/-- Ticks all brains. -/
def think (s : Simulation) : Simulation :=
  let (brains, stage) :=
    s.brains.mapWithState (thinkFor s.engine.chainLimit) ⟨s.world, s.random⟩
  { s with brains, world := stage.world, random := stage.random }

/-- Runs one tick. -/
def step (s : Simulation) : Simulation :=
  let s := { s with world := s.world.advance }
  let s := s.dealHits.sense.think
  { s with world := s.world.settle.move }

/-- Runs so many ticks. -/
def run (s : Simulation) : Nat → Simulation
  | 0 => s
  | n + 1 => s.step.run n

/-- The states after each of so many ticks. -/
def trajectory (s : Simulation) : Nat → List Simulation
  | 0 => []
  | n + 1 =>
    let next := s.step
    next :: next.trajectory n

/-- Deals damage now. A victim that is dead is not an error. -/
def hit (s : Simulation) (attacker victim : AgentId) (damage : Float) :
    Except SimulationError Simulation :=
  if s.world.contains victim then
    .ok { s with world := s.world.damage attacker victim damage }
  else .error (.unknownAgent victim)

/-! ## Looking at a run -/

/-- The leader that an agent follows. -/
def leader? (s : Simulation) (id : AgentId) : Option AgentId :=
  (s.world.remembered? id .herdLeader).bind MemoryValue.agent?

/-- The followers that an agent last counted. -/
def herdSize? (s : Simulation) (id : AgentId) : Option UInt32 :=
  (s.world.remembered? id .herdSize).bind MemoryValue.count?

/-- How many faults an agent had, if it has a brain. -/
def faultsOf? (s : Simulation) (id : AgentId) : Option Nat := (s.brains.get? id).map Brain.faults

/-- How many faults all agents had. -/
def faults (s : Simulation) : Nat := s.brains.values.foldr (fun b n => b.faults + n) 0

end Simulation

end Menagerie
