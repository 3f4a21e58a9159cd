import Menagerie.Task.Spec
import Menagerie.Template.Basic

/-!
# Snapshots of task specifications

A task is shown with its tag, its bindings, and the tasks inside it with their places. What else it
holds stands in fields of their own: the weights of a group, the activity it switches to, the fluid
it heads for.
-/

namespace Menagerie

/-- The fields that show what a task holds besides its bindings. -/
def LeafSpec.extraFields (l : LeafSpec) : List (String × Document) :=
  (l.activity?.map fun a => ("activity", Document.ofMember a)).toList ++
  (l.fluid?.map fun f => ("fluid", Document.ofMember f)).toList

namespace TaskSpec

def bindingsSnapshot (bindings : List (String × Binding)) : Document :=
  Document.ofList (fun (name, b) => .list [.text name, Binding.toDocument b]) bindings

/-- The field that shows the tasks inside a task, left out where there are none. -/
def childrenField : List Document → List (String × Document)
  | [] => []
  | children => [("children", .list children)]

def weightsField {α : Type} (write : α → Document) (options : List (α × TaskSpec)) :
    String × Document :=
  ("weights", Document.ofList (fun o => write o.1) options)

mutual

/-- The fields that show a task at a place. -/
def snapshotFields (place : Location) : TaskSpec → List (String × Document)
  | leaf l => [("tag", Document.ofMember l.kind), ("bindings", bindingsSnapshot l.bindings)] ++
      l.extraFields
  | allOf condition tasks =>
    [("tag", Document.ofMember TaskKind.allOf),
      ("bindings", bindingsSnapshot [("condition", condition)])] ++
    childrenField (tasksSnapshots place 0 tasks)
  | oneOf condition options =>
    [("tag", Document.ofMember TaskKind.oneOf),
      ("bindings", bindingsSnapshot [("condition", condition)]),
      weightsField Document.ofUInt32 options] ++
    childrenField (optionsSnapshots place 0 options)
  | random condition choices =>
    [("tag", Document.ofMember TaskKind.random),
      ("bindings", bindingsSnapshot [("condition", condition)]),
      weightsField Document.float choices] ++
    childrenField (choicesSnapshots place 0 choices)

def tasksSnapshots (place : Location) : Nat → List TaskSpec → List Document
  | _, [] => []
  | i, t :: rest =>
    let here := (place.field "tasks").index i
    .list [.text here.text, .object (snapshotFields here t)] :: tasksSnapshots place (i + 1) rest

def optionsSnapshots (place : Location) : Nat → List (UInt32 × TaskSpec) → List Document
  | _, [] => []
  | i, (_, t) :: rest =>
    let here := entryPlace place "options" i
    .list [.text here.text, .object (snapshotFields here t)] ::
      optionsSnapshots place (i + 1) rest

def choicesSnapshots (place : Location) : Nat → List (Float × TaskSpec) → List Document
  | _, [] => []
  | i, (_, t) :: rest =>
    let here := entryPlace place "choices" i
    .list [.text here.text, .object (snapshotFields here t)] ::
      choicesSnapshots place (i + 1) rest

end

def snapshot (place : Location) (t : TaskSpec) : Document := .object (t.snapshotFields place)

end TaskSpec

/-- A task of a template in one row; in full, or by its tag only. -/
def PlacedTask.snapshot (full : Bool) (t : PlacedTask) : Document :=
  .list [.text t.place.text, Document.ofMember t.activity, Document.ofUInt32 t.priority,
    if full then t.task.snapshot t.place else Document.ofMember t.task.kind]

/-- The fields that show a template, its tasks in full or by their tags only. -/
def Template.snapshotFields (full : Bool) (t : Template) : List (String × Document) :=
  [("name", .text t.name), ("species", .text t.species), ("enabled", .bool t.enabled),
    ("max_health", .float t.maxHealth), ("default_activity", Document.ofMember t.defaultActivity),
    ("variables", Document.ofMap VariableOverride.toDocument t.overrides),
    ("declarations", Document.ofList Declaration.toDocument t.declarations),
    ("herd", t.herd.toDocument), ("scheduled", Document.ofList Document.ofMember t.scheduled),
    ("tasks", Document.ofList (PlacedTask.snapshot full) t.tasks)]

end Menagerie
