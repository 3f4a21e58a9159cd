import Menagerie.Agent.Brain
import Menagerie.Scenario
import Menagerie.Sensor.Sense
import Menagerie.Template.Library

/-!
# Engines

An `Engine` holds what all agents of a run share: the templates, the sensors, and the settings. It
makes agents out of templates.
-/

namespace Menagerie

/-- Why an operation on a simulation was refused. -/
inductive SimulationError where
  | unknownTemplate (name : String)
  | disabledTemplate (name : String)
  | duplicateAgent (id : AgentId)
  | unknownAgent (id : AgentId)
  | content (e : ContentError)

def SimulationError.message : SimulationError → String
  | unknownTemplate name => s!"template `{name}` is not loaded"
  | disabledTemplate name => s!"template `{name}` was disabled at load time"
  | duplicateAgent id => s!"agent {id.describe} already exists"
  | unknownAgent id => s!"agent {id.describe} does not exist"
  | content e => e.message

/-- What all agents of a run share. -/
structure Engine where
  settings : Settings := {}
  templates : Library := {}
  /-- How long a chain of variables that are expressions may be. -/
  chainLimit : Nat := defaultChainLimit
  /-- The sensor of each kind, if there is one. -/
  sensors : SensorKind → Option Sensor := fun kind => some (Sensor.ofKind settings.sensors kind)

namespace Engine

/-- The group of the core activity, which comes first. -/
def coreGroup : UInt8 := 0

/-- The group of all other activities. -/
def behaviorGroup : UInt8 := 1

/-- A template by its name. -/
def template (e : Engine) (name : String) : Except SimulationError Template :=
  match e.templates.get? name with
  | some t => .ok t
  | none =>
    if e.templates.isDisabled name then .error (.disabledTemplate name)
    else .error (.unknownTemplate name)

/-- An agent as it spawns. -/
def newborn (t : Template) (spawn : Spawn) (id : AgentId) : AgentView :=
  { id
    species := t.species
    level := spawn.level
    health := Number.atMost t.maxHealth (spawn.health.getD t.maxHealth)
    maxHealth := t.maxHealth
    position := spawn.position
    inWater := false
    inLava := false }

/-- The schedule that an agent starts with. -/
def schedule (t : Template) : Schedule :=
  let core := Schedule.empty.add coreGroup .core
  let all := t.scheduled.foldl (fun s a => s.add behaviorGroup a) core
  all.activate t.defaultActivity

/-- Compiles tasks in order, each at its own place. -/
def compileTasks : List PlacedTask → Compile (List CompiledTask)
  | [] => return []
  | t :: rest => do
    let behaviors ← Compile.within t.place t.task.compile
    return ⟨t.activity, t.priority, behaviors⟩ :: (← compileTasks rest)

/-- The variables of an agent: those of its template, with the values that its spawn puts in
place. -/
def spawnVariables (t : Template) (spawn : Spawn) : Except ContentError VariableTable := do
  (← t.variableTable).applyOverrides spawn.overrides (t.place.field "overrides")

/-- Compiles the brain of an agent. Draws that were made are used up also where it fails. -/
def instantiate (e : Engine) (t : Template) (spawn : Spawn) (agent : AgentView) (clock : Clock)
    (random : Random) : Except ContentError Brain × Random :=
  match spawnVariables t spawn with
  | .error cause => (.error cause, random)
  | .ok table =>
    let env : CompileEnv := ⟨t.place, agent, table, e.chainLimit, clock⟩
    match (compileTasks t.tasks).runOn env { random } with
    | (.ok tasks, s) => (.ok (.ofTasks agent.id table tasks s.memories s.sensors), s.random)
    | (.error cause, s) => (.error cause, s.random)

end Engine

end Menagerie
