import Menagerie.Herd.Profile
import Menagerie.Task.Registry

/-!
# Templates

Agents of one kind are made from a `Template`: the tasks of its activities, the variables these
read, and what every such agent starts with. A template is valid if its variables can be set up and
every binding of its tasks can be resolved against them (`Template.validate`).
-/

namespace Menagerie

/-- A task and its priority within an activity; lower ones come first. -/
structure PrioritizedTask where
  priority : UInt32
  task : TaskSpec

/-- The tasks of an activity. -/
structure ActivityTasks where
  activity : Activity
  tasks : List PrioritizedTask

/-- What agents of one kind are made from. -/
structure Template where
  name : String
  species : String
  enabled : Bool
  maxHealth : Float
  /-- The activity that an agent starts with. -/
  defaultActivity : Activity
  /-- Values put in place of initial ones. -/
  overrides : SortedMap String VariableOverride
  /-- Variables declared apart from those that tasks declare. -/
  declarations : List Declaration
  herd : HerdProfile
  activities : List ActivityTasks

/-- A task of a template: where it is, its activity and its priority. -/
structure PlacedTask where
  place : Location
  activity : Activity
  priority : UInt32
  task : TaskSpec

namespace Template

def place (t : Template) : Location := .root t.name

/-- The place of a task, given the place of its activity. -/
def taskPlace (activity : Location) (i : Nat) : Location := TaskSpec.entryPlace activity "tasks" i

/-- All tasks, in the order in which they are listed. -/
def tasks (t : Template) : List PlacedTask :=
  (t.activities.mapIdx fun a entry =>
    entry.tasks.mapIdx fun i task =>
      ⟨taskPlace ((t.place.field "activities").index a) i, entry.activity, task.priority,
        task.task⟩).flatten

/-- The activities but for the core one, as they are listed. -/
def scheduled (t : Template) : List Activity :=
  (t.activities.map ActivityTasks.activity).filter (· ≠ .core)

/-- Declares variables one by one, each at its own place in the list at `place`. -/
def declareEach (place : Location) :
    Nat → List Declaration → VariableTable → Except ContentError VariableTable
  | _, [], table => .ok table
  | i, d :: rest, table => do declareEach place (i + 1) rest (← table.declare d (place.index i))

/-- The variables of the template: its own declarations, then those of its tasks, and at last the
values put in place of the initial ones. -/
def variableTable (t : Template) : Except ContentError VariableTable := do
  let own ← declareEach (t.place.field "declarations") 0 t.declarations .empty
  let declared ← t.tasks.foldlM (fun table task => table.declareAll task.task.declarations task.place) own
  declared.applyOverrides t.overrides (t.place.field "variables")

/-- Whether agents can start with the default activity; any will do where there is none to choose
from. -/
def hasDefaultActivity (t : Template) : Bool :=
  t.defaultActivity == .core || t.scheduled.isEmpty || t.scheduled.contains t.defaultActivity

/-- Checks all that can be checked without an agent, and yields the variables. -/
def validate (t : Template) : Except ContentError VariableTable := do
  let table ← t.variableTable
  t.tasks.forM fun task => task.task.validate table task.place
  if t.hasDefaultActivity then return table
  else throw (.invalidParameter t.place "default_activity" (.noActivity t.defaultActivity))

end Template

end Menagerie
