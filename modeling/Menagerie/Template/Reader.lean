import Menagerie.Template.Basic

/-!
# Reading templates

A template is read from a document in two steps. First the document is read as a record, whose tasks
are still documents; it is refused as a whole where that fails. Then the tasks are read one by one,
at their own places below the name of the template.
-/

namespace Menagerie.Template

/-- A task entry as it is written. -/
structure TaskEntry where
  priority : UInt32
  task : Document

/-- An activity entry as it is written. -/
structure ActivityEntry where
  activity : Activity
  tasks : List TaskEntry

/-- A template as it is written. -/
structure Written where
  name : String
  species : Option String
  enabled : Bool
  maxHealth : Option Float
  defaultActivity : Activity
  overrides : SortedMap String VariableOverride
  declarations : List Declaration
  herd : HerdProfile
  activities : List ActivityEntry

def TaskEntry.read? (d : Document) : Option TaskEntry := do
  let fields ← d.strictRecord? ["priority", "task"]
  return ⟨← fields.orElse "priority" 0 Shaped.uint32?, ← fields.required "task" some⟩

def ActivityEntry.read? (d : Document) : Option ActivityEntry := do
  let fields ← d.strictRecord? ["activity", "tasks"]
  return ⟨← fields.required "activity" Shaped.member?,
    ← fields.orElse "tasks" [] (Shaped.listOf? TaskEntry.read?)⟩

def Written.read? (d : Document) : Option Written := do
  let fields ← d.strictRecord? ["name", "species", "enabled", "max_health", "default_activity",
    "variables", "declarations", "herd", "activities"]
  return {
    name := ← fields.required "name" Shaped.text?
    species := ← fields.orElse "species" none (Shaped.optionOf? Shaped.text?)
    enabled := ← fields.orElse "enabled" true Shaped.bool?
    maxHealth := ← fields.orElse "max_health" none (Shaped.optionOf? Shaped.number?)
    defaultActivity := ← fields.orElse "default_activity" .idle Shaped.member?
    overrides := ← fields.orElse "variables" .empty (Shaped.mapOf? VariableOverride.read?)
    declarations := ← fields.orElse "declarations" [] (Shaped.listOf? Declaration.read?)
    herd := ← fields.orElse "herd" {} HerdProfile.read?
    activities := ← fields.orElse "activities" [] (Shaped.listOf? ActivityEntry.read?) }

/-- Reads the tasks of an activity, the first of which is at position `i`. -/
def readTasks (r : Registry) (activity : Location) :
    Nat → List TaskEntry → Except ContentError (List PrioritizedTask)
  | _, [] => .ok []
  | i, entry :: rest => do
    let task ← TaskSpec.parse r (taskPlace activity i) entry.task
    return ⟨entry.priority, task⟩ :: (← readTasks r activity (i + 1) rest)

/-- Reads activities, the first of which is at position `i` and comes after those in `seen`. No
activity may be listed twice. -/
def readActivities (r : Registry) (place : Location) :
    Nat → List Activity → List ActivityEntry → Except ContentError (List ActivityTasks)
  | _, _, [] => .ok []
  | i, seen, entry :: rest => do
    let here := place.index i
    if seen.contains entry.activity then throw (.malformed here (.repeatedActivity entry.activity))
    let tasks ← readTasks r here 0 entry.tasks
    return ⟨entry.activity, tasks⟩ ::
      (← readActivities r place (i + 1) (entry.activity :: seen) rest)

/-- The health of agents unless it is said otherwise. -/
def defaultMaxHealth : Float := 20.0

/-- Reads a template. `origin` names the document for complaints that come before its own name is
known. -/
def ofDocument (r : Registry) (origin : String) (d : Document) : Except ContentError Template :=
  match Written.read? d with
  | none => .error (.malformed (.root origin) .unreadable)
  | some raw => do
    let root := Location.root raw.name
    let activities ← readActivities r (root.field "activities") 0 [] raw.activities
    let maxHealth := raw.maxHealth.getD defaultMaxHealth
    if maxHealth.isFinite && maxHealth > 0.0 then
      return {
        name := raw.name
        species := raw.species.getD raw.name
        enabled := raw.enabled
        maxHealth
        defaultActivity := raw.defaultActivity
        overrides := raw.overrides
        declarations := raw.declarations
        herd := raw.herd
        activities }
    else throw (.invalidParameter root "max_health" (.notPositive maxHealth))

end Menagerie.Template
