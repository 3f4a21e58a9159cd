import Menagerie.Simulation.Report
import Menagerie.Snapshot.Variable
import Menagerie.Snapshot.World

/-!
# Snapshots of simulations

Where a report sums a run up, a snapshot shows all that can be seen of each agent.
-/

namespace Menagerie

/-- A bucket in one row: its priority, its size, and whether it is empty. -/
def Bucket.snapshot (b : Bucket) : Document :=
  .list [Document.ofUInt32 b.priority, .int b.size, .bool b.behaviors.isEmpty]

/-- What an agent was compiled into. Activities without behaviors are left out. -/
def Brain.snapshot (b : Brain) : Document :=
  let activities := b.activities.toList.filter fun entry => !entry.2.isEmpty
  .object [("agent", b.agent.toDocument), ("units", .int b.size),
    ("buckets", .object (activities.map fun (activity, buckets) =>
      (Named.name activity, Document.ofList Bucket.snapshot buckets))),
    ("memories", Document.ofList Document.ofMember b.memories.keys),
    ("sensors", Document.ofList Document.ofMember b.sensors.keys),
    ("variables", b.table.snapshot), ("faults", .int b.faults)]

namespace Simulation

/-- The fields that show an agent of a run. -/
def agentFields (s : Simulation) (b : Body) : List (String × Document) :=
  let id := b.view.id
  b.snapshotFields ++
  [("faults", Document.ofOption (fun n : Nat => .int n) (s.faultsOf? id)),
    ("leader", Document.ofOption AgentId.toDocument (s.leader? id)),
    ("herd_size", Document.ofOption Document.ofUInt32 (s.herdSize? id))]

/-- The state of a run. Of the agents only the fields that `shown` names are shown. -/
def snapshot (shown : String → Bool) (s : Simulation) : Document :=
  let agent (b : Body) : Document := .object ((s.agentFields b).filter fun f => shown f.1)
  .object [("now", s.world.now.toDocument),
    ("agents", Document.ofList agent s.world.bodies.values), ("faults", .int s.faults),
    ("stats", s.world.tally.toDocument)]

end Simulation

end Menagerie
