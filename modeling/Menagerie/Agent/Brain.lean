import Menagerie.Task.Compile

/-!
# Brains

A `Brain` is all that an agent was compiled into: its behaviors in buckets, and what they need. The
buckets of an activity ascend in priority, and in each bucket at most one behavior has its way per
tick. A behavior that faults counts as one that failed, and the fault is counted; its neighbours
still get their turn.
-/

namespace Menagerie

open Std

/-- A behavior with the number of its faults. -/
structure CountedBehavior where
  behavior : Behavior
  faults : Nat := 0

/-- A tick of a behavior whose faults are counted instead of passed on. -/
def CountedBehavior.tick (env : ActEnv) (c : CountedBehavior) (s : Stage) :
    Ticked Empty CountedBehavior Stage :=
  let t := c.behavior.tick env s
  match t.outcome with
  | .ok status => ⟨.ok status, ⟨t.node, c.faults⟩, t.state⟩
  | .error _ => ⟨.ok .failure, ⟨t.node, c.faults + 1⟩, t.state⟩

/-- The behaviors of an activity that share a priority. -/
structure Bucket where
  priority : UInt32
  behaviors : List CountedBehavior

namespace Bucket

def size (b : Bucket) : Nat := b.behaviors.length

def faults (b : Bucket) : Nat := b.behaviors.foldr (fun u n => u.faults + n) 0

/-- Ticks the behaviors up to the first that does not fail. -/
def tick (env : ActEnv) (b : Bucket) (s : Stage) : Bucket × Stage :=
  let t := firstToApply (CountedBehavior.tick env) b.behaviors s
  ({ b with behaviors := t.node }, t.state)

/-- A tick of the bucket, with what it comes to. -/
def ticked (env : ActEnv) (b : Bucket) (s : Stage) : Ticked Empty Bucket Stage :=
  (firstToApply (CountedBehavior.tick env) b.behaviors s).inside fun behaviors => { b with behaviors }

/-- A bucket is left the same whether or not it is asked what its tick comes to. -/
theorem tick_eq (env : ActEnv) (b : Bucket) (s : Stage) :
    b.tick env s = ((b.ticked env s).node, (b.ticked env s).state) := rfl

end Bucket

/-- Behaviors compiled from one task, with the task's activity and priority. -/
structure CompiledTask where
  activity : Activity
  priority : UInt32
  behaviors : List Behavior

/-- What an agent was compiled into. -/
structure Brain where
  agent : AgentId
  table : VariableTable
  activities : SortedMap Activity (List Bucket)
  memories : SortedSet MemoryKey
  sensors : SortedSet SensorKind

namespace Brain

/-- The behaviors of an activity by priority. -/
abbrev Ranks := SortedMap UInt32 (List Behavior)

/-- Puts the behaviors of a task behind those of its activity that have the same priority. -/
def place (grouped : SortedMap Activity Ranks) (task : CompiledTask) : SortedMap Activity Ranks :=
  let ranks := (grouped.get? task.activity).getD .empty
  let before := (ranks.get? task.priority).getD []
  grouped.insert task.activity (ranks.insert task.priority (before ++ task.behaviors))

/-- The buckets of an activity, without empty ones. -/
def bucketsOf (ranks : Ranks) : List Bucket :=
  (ranks.toList.filter fun rank => !rank.2.isEmpty).map fun (priority, behaviors) =>
    ⟨priority, behaviors.map fun behavior => { behavior }⟩

/-- The brain made of compiled tasks. -/
def ofTasks (agent : AgentId) (table : VariableTable) (tasks : List CompiledTask)
    (memories : SortedSet MemoryKey) (sensors : SortedSet SensorKind) : Brain :=
  { agent, table, activities := (tasks.foldl place .empty).map bucketsOf, memories, sensors }

def buckets (b : Brain) (activity : Activity) : List Bucket :=
  (b.activities.get? activity).getD []

/-- How many behaviors there are. -/
def size (b : Brain) : Nat := b.activities.values.flatten.foldr (fun u n => u.size + n) 0

/-- How many faults there have been. -/
def faults (b : Brain) : Nat := b.activities.values.flatten.foldr (fun u n => u.faults + n) 0

/-- Ticks buckets in order. -/
def tickBuckets (env : ActEnv) : List Bucket → Stage → List Bucket × Stage
  | [], s => ([], s)
  | b :: rest, s =>
    let (b, s) := b.tick env s
    let (rest, s) := tickBuckets env rest s
    (b :: rest, s)

/-- Ticks the buckets of activities in order. -/
def tickActivities (env : ActEnv) :
    List Activity → SortedMap Activity (List Bucket) → Stage →
    SortedMap Activity (List Bucket) × Stage
  | [], activities, s => (activities, s)
  | label :: rest, activities, s =>
    match activities.get? label with
    | none => tickActivities env rest activities s
    | some buckets =>
      let (buckets, s) := tickBuckets env buckets s
      tickActivities env rest (activities.insert label buckets) s

/-- A tick of the agent's active activities, in group order. Which these are is read once: an
activity that is turned on by this tick has its turn on the next one. -/
def tick (limit : Nat) (b : Brain) (s : Stage) : Brain × Stage :=
  match s.world.schedule? b.agent with
  | none => (b, s)
  | some schedule =>
    let env : ActEnv := ⟨b.agent, limit, b.table⟩
    let (activities, s) := tickActivities env schedule.active b.activities s
    ({ b with activities }, s)

/-- In how many buckets a behavior succeeds where they are ticked in order. -/
def ranInBuckets (env : ActEnv) : List Bucket → Stage → Nat
  | [], _ => 0
  | b :: rest, s =>
    let t := b.ticked env s
    match t.outcome with
    | .ok .success => ranInBuckets env rest t.state + 1
    | .ok .failure => ranInBuckets env rest t.state

/-- In how many buckets a behavior succeeds where those of activities are ticked in order. -/
def ranInActivities (env : ActEnv) :
    List Activity → SortedMap Activity (List Bucket) → Stage → Nat
  | [], _, _ => 0
  | label :: rest, activities, s =>
    match activities.get? label with
    | none => ranInActivities env rest activities s
    | some buckets =>
      let (buckets', s') := tickBuckets env buckets s
      ranInBuckets env buckets s + ranInActivities env rest (activities.insert label buckets') s'

/-- In how many buckets a behavior succeeds in a tick. -/
def ran (limit : Nat) (b : Brain) (s : Stage) : Nat :=
  match s.world.schedule? b.agent with
  | none => 0
  | some schedule => ranInActivities ⟨b.agent, limit, b.table⟩ schedule.active b.activities s

end Brain

end Menagerie
