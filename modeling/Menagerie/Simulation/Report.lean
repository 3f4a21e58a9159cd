import Menagerie.Simulation.Basic

/-!
# Reports

A `Report` sums up the state of a run: a line for each agent, and what happened so far. It is
written as lines of text or as a document.
-/

namespace Menagerie

/-- What is reported of an agent. -/
structure AgentReport where
  id : AgentId
  template : String
  level : UInt32
  health : Float
  position : Position
  pose : Pose
  activities : List Activity
  leader : Option AgentId
  herdSize : Option UInt32
  /-- How many items it carries. -/
  inventory : Nat
  faults : Nat

/-- What is reported of a run. -/
structure Report where
  tick : Tick
  agents : List AgentReport
  tally : Tally
  faults : Nat
  failedSpawns : List FailedSpawn

def FailedSpawn.toDocument (f : FailedSpawn) : Document :=
  .object [("template", .text f.template), ("error", .text f.cause.message)]

namespace AgentReport

def ofBody (s : Simulation) (b : Body) : AgentReport :=
  let id := b.view.id
  { id
    template := b.template
    level := b.view.level
    health := b.view.health
    position := b.view.position
    pose := b.pose
    activities := b.schedule.active
    leader := s.leader? id
    herdSize := s.herdSize? id
    inventory := b.inventory.length
    faults := (s.faultsOf? id).getD 0 }

def toDocument (a : AgentReport) : Document :=
  .object [("id", a.id.toDocument), ("template", .text a.template),
    ("level", Document.ofUInt32 a.level), ("health", .float a.health),
    ("position", a.position.toDocument), ("pose", Document.ofMember a.pose),
    ("activities", Document.ofList Document.ofMember a.activities),
    ("leader", Document.ofOption AgentId.toDocument a.leader),
    ("herd_size", Document.ofOption Document.ofUInt32 a.herdSize),
    ("inventory", .int a.inventory), ("faults", .int a.faults)]

/-- An agent on one line. -/
def line (a : AgentReport) : String :=
  let activities := ",".intercalate (a.activities.map Named.name)
  let leader := (a.leader.map AgentId.describe).getD "-"
  let level := Text.padLeft 3 (toString a.level)
  let health := Text.padLeft 5 (Number.renderTenths a.health)
  s!"  {a.id.describe} {Text.padRight 10 a.template} lvl {level} hp {health} at " ++
    s!"{a.position.describe} {Named.name a.pose} [{activities}] leader {leader} " ++
    s!"herd {a.herdSize.getD 0}"

end AgentReport

namespace Report

def ofSimulation (s : Simulation) : Report :=
  { tick := s.world.now
    agents := s.world.bodies.values.map (AgentReport.ofBody s)
    tally := s.world.tally
    faults := s.faults
    failedSpawns := s.failedSpawns }

def toDocument (r : Report) : Document :=
  .object [("tick", r.tick.toDocument),
    ("agents", Document.ofList AgentReport.toDocument r.agents),
    ("stats", r.tally.toDocument), ("faults", .int r.faults),
    ("failed_spawns", Document.ofList FailedSpawn.toDocument r.failedSpawns)]

/-- The report as lines: the run, its agents, the spawns that failed, and what happened. -/
def lines (r : Report) : List String :=
  let head := s!"{r.tick.describe}: {r.agents.length} agents, {r.faults} faults, " ++
    s!"{r.failedSpawns.length} failed spawns"
  let failed := r.failedSpawns.map fun f => s!"  failed {f.template}: {f.cause.message}"
  let t := r.tally
  let tail := s!"  attacks {t.attacks} pickups {t.pickups} deaths {t.deaths} " ++
    s!"expired memories {t.expiredMemories}"
  head :: r.agents.map AgentReport.line ++ failed ++ [tail]

end Report

end Menagerie
