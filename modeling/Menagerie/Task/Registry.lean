import Menagerie.Content.Error
import Menagerie.Task.Spec

/-!
# Reading task specifications

A `Registry` maps tags to kinds of tasks. A task is an object whose field `type` is its tag; the tag
may carry the namespace `brain:`, which is taken off once. What the other fields have to be depends
on the kind: a task without tasks inside it is read as a record in which every field may be missing,
and a group is read field by field, each with complaints of its own.
-/

namespace Menagerie

/-- The kind of task that each tag stands for. -/
structure Registry where
  kinds : SortedMap String TaskKind

namespace Registry

def empty : Registry := ⟨.empty⟩

/-- Every kind under its own name. -/
def builtin : Registry :=
  ⟨SortedMap.ofList ((Named.all (α := TaskKind)).map fun k => (Named.name k, k))⟩

instance : Inhabited Registry := ⟨builtin⟩

/-- The namespace that may stand before a tag. -/
def nameSpace : String := "brain"

/-- A tag without the namespace. -/
def normalize (tag : String) : String :=
  let written := (nameSpace ++ ":").toList
  if tag.toList.take written.length = written then String.ofList (tag.toList.drop written.length)
  else tag

def resolve? (r : Registry) (tag : String) : Option TaskKind := r.kinds.get? (normalize tag)

/-- Adds a tag; one that is taken is never replaced. -/
def register (r : Registry) (tag : String) (kind : TaskKind) : Except ContentError Registry :=
  let tag := normalize tag
  if r.kinds.contains tag then .error (.duplicateTag tag) else .ok ⟨r.kinds.insert tag kind⟩

/-- The tags, in order. -/
def tags (r : Registry) : List String := r.kinds.keys

end Registry

/-! ## Tasks without tasks inside -/

namespace LeafSpec

/-- The usual binding of walking speeds. -/
def walkSpeed : Binding := .declaring (.number "movement" "walk_speed" 0.35)

/-- A field that holds a binding. -/
def bindingField (fields : Fields Document) (name : String) (missing : Binding) : Option Binding :=
  fields.orElse name missing Binding.ofDocument?

/-- A field that holds a number, unless it is bound otherwise. -/
def numberField (fields : Fields Document) (name : String) (missing : Float) : Option Binding :=
  bindingField fields name (.number missing)

/-- The field `condition`, which reads a switch unless it is bound otherwise. -/
def switchField (fields : Fields Document) (category switch : String) : Option Binding :=
  bindingField fields "condition" (.declaring (.boolean category switch true))

/-- The field `activity`. -/
def activityField (fields : Fields Document) (missing : Activity) : Option Activity :=
  fields.orElse "activity" missing Shaped.member?

/-- The names of the fields that a kind of task has. -/
def fieldNames : TaskKind → List String
  | .allOf | .oneOf | .random | .doNothing | .switchToHerd => []
  | .wander => ["condition", "wander_chance", "horizontal_range", "vertical_range", "speed",
      "path_cooldown_ticks"]
  | .fleeAttacker => ["condition", "speed", "desired_distance"]
  | .switchToPanicWhenHurt | .retaliate => ["condition"]
  | .calmDown | .goToSleep | .wakeUp | .switchFromHerd => ["activity"]
  | .meleeAttack => ["range", "cooldown_ticks", "chase_speed"]
  | .findRestingPlace => ["horizontal_range", "vertical_range", "speed", "cooldown_ticks"]
  | .moveIntoFluid => ["condition", "fluid", "horizontal_range", "vertical_range", "speed",
      "cooldown_ticks"]
  | .moveToItem => ["condition", "speed", "max_distance", "max_attempts", "disable_ticks"]
  | .pathToFlower => ["speed"]
  | .pollinateFlower => ["required_ticks", "cooldown_ticks"]
  | .findHerdLeader | .maintainHerdLeader | .countFollowers => ["check_ticks"]
  | .followHerdLeader => ["too_far", "close_enough", "follow_chance", "speed"]

/-- The task of a kind with the given fields, all of which may be missing. -/
def ofFields? (kind : TaskKind) (fields : Fields Document) : Option LeafSpec :=
  match kind with
  | .allOf | .oneOf | .random => none
  | .doNothing => some doNothing
  | .wander => wander
      <$> switchField fields "wander" "wanders"
      <*> bindingField fields "wander_chance"
        (.declaring (.number "wander" "wander_chance" (1.0 / 120.0)))
      <*> bindingField fields "horizontal_range"
        (.declaring (.number "wander" "horizontal_wander_range" 10.0))
      <*> bindingField fields "vertical_range"
        (.declaring (.number "wander" "vertical_wander_range" 5.0))
      <*> bindingField fields "speed" walkSpeed
      <*> numberField fields "path_cooldown_ticks" 40.0
  | .fleeAttacker => fleeAttacker
      <$> switchField fields "fear" "flee_attacker"
      <*> bindingField fields "speed" (.declaring (.number "fear" "flee_speed" 0.5))
      <*> numberField fields "desired_distance" 9.0
  | .switchToPanicWhenHurt => switchToPanicWhenHurt
      <$> switchField fields "fear" "panic_when_hurt"
  | .calmDown => calmDown <$> activityField fields .idle
  | .retaliate => retaliate <$> switchField fields "combat" "retaliates"
  | .meleeAttack => meleeAttack
      <$> numberField fields "range" 2.0
      <*> bindingField fields "cooldown_ticks"
        (.declaring (.number "combat" "attack_cooldown" 20.0))
      <*> numberField fields "chase_speed" 0.5
  | .findRestingPlace => findRestingPlace
      <$> numberField fields "horizontal_range" 16.0
      <*> numberField fields "vertical_range" 4.0
      <*> bindingField fields "speed" walkSpeed
      <*> numberField fields "cooldown_ticks" 80.0
  | .goToSleep => goToSleep <$> activityField fields .rest
  | .wakeUp => wakeUp <$> activityField fields .idle
  | .moveIntoFluid => moveIntoFluid
      <$> fields.orElse "fluid" .water Shaped.member?
      <*> bindingField fields "condition" (.bool true)
      <*> numberField fields "horizontal_range" 16.0
      <*> numberField fields "vertical_range" 6.0
      <*> bindingField fields "speed" walkSpeed
      <*> numberField fields "cooldown_ticks" 100.0
  | .moveToItem => moveToItem
      <$> bindingField fields "condition" (.bool true)
      <*> numberField fields "speed" 0.6
      <*> numberField fields "max_distance" 7.0
      <*> numberField fields "max_attempts" 60.0
      <*> numberField fields "disable_ticks" 100.0
  | .pathToFlower => pathToFlower <$> bindingField fields "speed" walkSpeed
  | .pollinateFlower => pollinateFlower
      <$> numberField fields "required_ticks" 400.0
      <*> numberField fields "cooldown_ticks" 200.0
  | .findHerdLeader => findHerdLeader <$> numberField fields "check_ticks" 60.0
  | .maintainHerdLeader => maintainHerdLeader <$> numberField fields "check_ticks" 20.0
  | .countFollowers => countFollowers <$> numberField fields "check_ticks" 10.0
  | .followHerdLeader => followHerdLeader
      <$> numberField fields "too_far" 8.0
      <*> numberField fields "close_enough" 4.0
      <*> numberField fields "follow_chance" (1.0 / 60.0)
      <*> bindingField fields "speed" walkSpeed
  | .switchToHerd => some switchToHerd
  | .switchFromHerd => switchFromHerd <$> activityField fields .idle

end LeafSpec

/-! ## Groups -/

namespace TaskSpec

/-- The field `condition` of a group; a group without one always applies. -/
def conditionOf (fields : Fields Document) (place : Location) : Except ContentError Binding :=
  match fields.lookup "condition" with
  | none => .ok (.bool true)
  | some d =>
    match Binding.ofDocument? d with
    | some b => .ok b
    | none => .error (.malformed (place.field "condition") .unreadable)

/-- Complains about the first field that is not among the known ones. -/
def rejectUnknown (known : List String) (fields : Fields Document) (place : Location) :
    Except ContentError Unit :=
  match fields.find? fun f => !known.contains f.1 with
  | some (name, _) => .error (.malformed place (.unknownField name))
  | none => .ok ()

/-- When one of several tasks is drawn. -/
inductive DrawTime where
  | eachTick
  | onSpawn

/-- The weights of a draw: whole numbers on each tick, fractions for a draw on spawning. -/
abbrev DrawTime.Weight : DrawTime → Type
  | .eachTick => UInt32
  | .onSpawn => Float

/-- Reads a weight, which is one if there is none. A fraction has to be finite and not negative. -/
def DrawTime.weightOf (place : Location) :
    (time : DrawTime) → Option Document → Except ContentError time.Weight
  | .eachTick, none => .ok 1
  | .eachTick, some d =>
    match Shaped.uint32? d with
    | some w => .ok w
    | none => .error (.invalidParameter place "weight" (.notANatural d))
  | .onSpawn, none => .ok 1.0
  | .onSpawn, some d =>
    match d.number?.filter fun w => w.isFinite && w ≥ 0.0 with
    | some w => .ok w
    | none => .error (.invalidParameter place "weight" (.notAWeight d))

/-- The kind of task that the tag of an object stands for. -/
def kindOf (r : Registry) (fields : Fields Document) (place : Location) :
    Except ContentError TaskKind :=
  match fields.lookup "type" with
  | none => .error (.missingField place "type")
  | some (.text tag) =>
    match r.resolve? tag with
    | some kind => .ok kind
    | none => .error (.unknownTag place tag)
  | some other => .error (.malformed (place.field "type") (.notAText other))

mutual

/-- The task that a document describes. -/
def parse (r : Registry) (place : Location) : Document → Except ContentError TaskSpec
  | .object fields => do
    match ← kindOf r fields place with
    | .allOf => do
      let condition ← conditionOf fields place
      let tasks ← parseTasks r place "tasks" fields
      rejectUnknown ["type", "condition", "tasks"] fields place
      return allOf condition tasks
    | .oneOf => do
      let condition ← conditionOf fields place
      let options ← parseEntries r place .eachTick "options" fields
      rejectUnknown ["type", "condition", "options"] fields place
      return oneOf condition options
    | .random => do
      let condition ← conditionOf fields place
      let choices ← parseEntries r place .onSpawn "choices" fields
      rejectUnknown ["type", "condition", "choices"] fields place
      if (choices.map Prod.fst).foldl (· + ·) 0.0 ≤ 0.0 then
        .error (.emptyChoice (place.field "choices"))
      else return random condition choices
    | kind =>
      let rest := fields.filter fun f => f.1 ≠ "type"
      match Document.strictRecord? (LeafSpec.fieldNames kind) (.object rest) with
      | none => .error (.malformed place .unreadable)
      | some rest =>
        match LeafSpec.ofFields? kind rest with
        | some l => .ok (leaf l)
        | none => .error (.malformed place .unreadable)
  | _ => .error (.malformed place .notAnObject)

/-- The tasks listed in the field `name`, which is searched among the given fields. -/
def parseTasks (r : Registry) (place : Location) (name : String) :
    List (String × Document) → Except ContentError (List TaskSpec)
  | [] => .error (.missingField place name)
  | (found, d) :: rest =>
    if found = name then parseTaskList r (place.field name) d else parseTasks r place name rest

/-- The tasks that a document lists. -/
def parseTaskList (r : Registry) (place : Location) :
    Document → Except ContentError (List TaskSpec)
  | .list items => parseEach r place 0 items
  | _ => .error (.malformed place .notAList)

def parseEach (r : Registry) (place : Location) :
    Nat → List Document → Except ContentError (List TaskSpec)
  | _, [] => .ok []
  | i, d :: rest => do
    let t ← parse r (place.index i) d
    return t :: (← parseEach r place (i + 1) rest)

/-- The weighted tasks listed in the field `name`, which is searched among the given fields. -/
def parseEntries (r : Registry) (place : Location) (time : DrawTime) (name : String) :
    List (String × Document) → Except ContentError (List (time.Weight × TaskSpec))
  | [] => .error (.missingField place name)
  | (found, d) :: rest =>
    if found = name then parseEntryList r (place.field name) time d
    else parseEntries r place time name rest

/-- The weighted tasks that a document lists. -/
def parseEntryList (r : Registry) (place : Location) (time : DrawTime) :
    Document → Except ContentError (List (time.Weight × TaskSpec))
  | .list items => parseEachEntry r place time 0 items
  | _ => .error (.malformed place .notAList)

def parseEachEntry (r : Registry) (place : Location) (time : DrawTime) :
    Nat → List Document → Except ContentError (List (time.Weight × TaskSpec))
  | _, [] => .ok []
  | i, d :: rest => do
    let entry ← parseEntry r (place.index i) time d
    return entry :: (← parseEachEntry r place time (i + 1) rest)

/-- A weighted task. Its task is read before its weight. -/
def parseEntry (r : Registry) (place : Location) (time : DrawTime) :
    Document → Except ContentError (time.Weight × TaskSpec)
  | .object fields => do
    let task ← parseEntryTask r place fields fields
    let w ← time.weightOf place (fields.lookup "weight")
    return (w, task)
  | _ => .error (.malformed place .notAnEntry)

/-- The task of an entry, which is searched among the given fields; `all` are the entry's fields. -/
def parseEntryTask (r : Registry) (place : Location) (all : Fields Document) :
    List (String × Document) → Except ContentError TaskSpec
  | [] => .error (.missingField place "task")
  | (found, d) :: rest =>
    if found = "task" then do
      rejectUnknown ["weight", "task"] all place
      parse r (place.field "task") d
    else parseEntryTask r place all rest

end

end TaskSpec

end Menagerie
