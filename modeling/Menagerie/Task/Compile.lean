import Menagerie.Task.Registry
import Menagerie.Task.Run

/-!
# Compiling tasks

Compiling turns a task specification into behaviors for one agent. Conditions and parameters are
looked at with the agent as it is then; `random` groups are settled by a draw. On the way the
memories and sensors are collected that the behaviors need, and those collected stay collected where
compiling fails.

The place of the node at hand is read, not changed, so that every node is compiled at its own place.
-/

namespace Menagerie

/-- What compiling reads. -/
structure CompileEnv where
  place : Location
  /-- The agent that behaviors are compiled for. -/
  agent : AgentView
  table : VariableTable
  chainLimit : Nat
  clock : Clock

/-- What compiling collects and uses up. -/
structure CompileState where
  random : Random
  memories : SortedSet MemoryKey := .empty
  sensors : SortedSet SensorKind := .empty

/-- A step of compiling. -/
abbrev Compile := ReaderT CompileEnv (ExceptT ContentError (StateM CompileState))

namespace Compile

variable {α : Type}

/-- Runs a step; what it collected is there also where it fails. -/
def runOn (step : Compile α) (env : CompileEnv) (s : CompileState) :
    Except ContentError α × CompileState :=
  (step.run env).run.run s

def place : Compile Location := return (← read).place

/-- Runs a step at another place. -/
def within (place : Location) (step : Compile α) : Compile α :=
  withReader (fun env => { env with place }) step

/-- Refuses a parameter of the node at hand. -/
def refuse (field : String) (why : Objection) : Compile α := do
  throw (.invalidParameter (← place) field why)

/-! ## Parameters -/

/-- A number, which has to be finite. -/
def finite (field : String) (x : Float) : Compile Float :=
  if x.isFinite then return x else refuse field (.notFinite x)

/-- The parameter that a binding is. A constant number has to be finite. -/
def simplify (b : Binding) (field : String) : Compile Param := do
  let env ← read
  match b.simplify env.table (env.place.field field) with
  | .error e => throw e
  | .ok p =>
    match p with
    | .constant (.number x) => do
      let _ ← finite field x
      return p
    | _ => return p

/-- Looks at a parameter in the scope of the agent as it is now. -/
def evaluate (look : Nat → Scope → Param → Except EvalError α) (b : Binding) (field : String) :
    Compile α := do
  let p ← simplify b field
  let env ← read
  match look env.chainLimit (.ofAgent env.agent.query env.clock env.table) p with
  | .ok a => return a
  | .error e => throw (.expression (env.place.field field) e)

def bool (b : Binding) (field : String) : Compile Bool := evaluate Param.bool b field

/-- A number, which has to be finite. -/
def number (b : Binding) (field : String) : Compile Float := do
  finite field (← evaluate Param.number b field)

def whole (b : Binding) (field : String) : Compile Int := evaluate Param.whole b field

/-- A number of ticks, which may not be negative. -/
def ticks (b : Binding) (field : String) : Compile UInt64 := do
  let n ← whole b field
  if n < 0 then refuse field (.negative n) else return UInt64.ofNat n.toNat

/-- A number of ticks, which has to be one at least. -/
def interval (b : Binding) (field : String) : Compile UInt64 := do
  let n ← whole b field
  if n < 1 then refuse field (.belowOne n) else return UInt64.ofNat n.toNat

/-! ## Draws and needs -/

/-- A number in `[0, 1)`. -/
def draw : Compile Float := do
  let s ← get
  let (x, random) := s.random.unit
  set { s with random }
  return x

def addMemories (keys : List MemoryKey) : Compile Unit :=
  modify fun s => { s with memories := s.memories.addAll keys }

/-- Collects sensors together with the memories that they write. -/
def addSensors (kinds : List SensorKind) : Compile Unit :=
  modify fun s => {
    s with
    sensors := s.sensors.addAll kinds
    memories := s.memories.addAll (kinds.flatMap SensorKind.memories) }

/-- Collects what a leaf needs. Each key that it has requirements on has to be collected by then, by
this leaf or an earlier one. -/
def provide (needs : Needs) : Compile Unit := do
  addMemories needs.memories
  addSensors needs.sensors
  let s ← get
  match needs.requirements.find? fun r => !s.memories.contains r.key with
  | some r => throw (.unregisteredMemory (← place) r.key)
  | none => return ()

/-- The behavior of a single leaf. -/
def single (l : Leaf) : Compile (List Behavior) := do
  provide l.needs
  return [.leaf l]

/-- Compiles only where a condition holds; nothing comes of it where it does not. -/
def given (condition : Binding) (step : Compile (List Behavior)) : Compile (List Behavior) := do
  if ← bool condition "condition" then step else return []

end Compile

open Compile in
/-- Compiles a task without tasks inside it. Its parameters are looked at in order, before it is
seen what it needs. -/
def LeafSpec.compile : LeafSpec → Compile (List Behavior)
  | doNothing => single .doNothing
  | wander condition chance horizontalRange verticalRange speed cooldownTicks =>
    given condition do
      let chance ← simplify chance "wander_chance"
      let horizontal ← simplify horizontalRange "horizontal_range"
      let vertical ← simplify verticalRange "vertical_range"
      let speed ← simplify speed "speed"
      let cooldown ← ticks cooldownTicks "path_cooldown_ticks"
      single (.wander chance horizontal vertical speed cooldown)
  | fleeAttacker condition speed desiredDistance =>
    given condition do
      let speed ← number speed "speed"
      let desiredDistance ← number desiredDistance "desired_distance"
      single (.fleeAttacker speed desiredDistance)
  | switchToPanicWhenHurt condition => given condition (single .switchToPanicWhenHurt)
  | calmDown activity => single (.calmDown activity)
  | retaliate condition => given condition (single .retaliate)
  | meleeAttack range cooldownTicks chaseSpeed => do
    let range ← number range "range"
    let cooldown ← ticks cooldownTicks "cooldown_ticks"
    let chaseSpeed ← number chaseSpeed "chase_speed"
    single (.meleeAttack range cooldown chaseSpeed)
  | findRestingPlace horizontalRange verticalRange speed cooldownTicks => do
    let horizontal ← number horizontalRange "horizontal_range"
    let vertical ← number verticalRange "vertical_range"
    let speed ← simplify speed "speed"
    let cooldown ← ticks cooldownTicks "cooldown_ticks"
    single (.findRestingPlace horizontal vertical speed cooldown)
  | goToSleep activity => single (.goToSleep activity)
  | wakeUp activity => single (.wakeUp activity)
  | moveIntoFluid fluid condition horizontalRange verticalRange speed cooldownTicks =>
    if fluid.isFluid then
      given condition do
        let horizontal ← number horizontalRange "horizontal_range"
        let vertical ← number verticalRange "vertical_range"
        let speed ← simplify speed "speed"
        let cooldown ← ticks cooldownTicks "cooldown_ticks"
        single (.moveIntoFluid fluid horizontal vertical speed cooldown)
    else refuse "fluid" (.notAFluid fluid)
  | moveToItem condition speed maxDistance maxAttempts disableTicks => do
    let maxAttempts ← ticks maxAttempts "max_attempts"
    let condition ← simplify condition "condition"
    let speed ← number speed "speed"
    let maxDistance ← number maxDistance "max_distance"
    let disableTicks ← ticks disableTicks "disable_ticks"
    let maxAttempts := UInt32.ofNat (min maxAttempts.toNat (UInt32.size - 1))
    single (.moveToItem condition speed maxDistance maxAttempts disableTicks)
  | pathToFlower speed => do
    let speed ← simplify speed "speed"
    single (.pathToFlower speed)
  | pollinateFlower requiredTicks cooldownTicks => do
    let required ← interval requiredTicks "required_ticks"
    let cooldown ← ticks cooldownTicks "cooldown_ticks"
    single (.pollinateFlower required cooldown {})
  | findHerdLeader checkTicks => do
    let checkTicks ← interval checkTicks "check_ticks"
    single (.findHerdLeader checkTicks)
  | maintainHerdLeader checkTicks => do
    let checkTicks ← interval checkTicks "check_ticks"
    single (.maintainHerdLeader checkTicks)
  | countFollowers checkTicks => do
    let checkTicks ← interval checkTicks "check_ticks"
    single (.countFollowers checkTicks)
  | followHerdLeader tooFar closeEnough followChance speed => do
    let tooFar ← number tooFar "too_far"
    let closeEnough ← number closeEnough "close_enough"
    let followChance ← number followChance "follow_chance"
    let speed ← simplify speed "speed"
    single (.followHerdLeader tooFar closeEnough followChance speed)
  | switchToHerd => single .switchToHerd
  | switchFromHerd activity => single (.switchFromHerd activity)

namespace TaskSpec

/-- The behavior that stands for what an option was compiled to: the first one, or one that always
fails. -/
def optionBehavior (compiled : List Behavior) : Behavior := compiled.headD (.selector [])

mutual

/-- The behaviors that a task comes to for one agent. -/
def compile : TaskSpec → Compile (List Behavior)
  | leaf l => l.compile
  | allOf condition tasks => Compile.given condition (compileTasks 0 tasks)
  | oneOf condition options => Compile.given condition do
      let guard ← Compile.simplify condition "condition"
      let compiled ← compileOptions 0 options
      return [.gate guard (.choice compiled)]
  | random condition choices => Compile.given condition do
      let x ← Compile.draw
      match pickWeighted (choices.map Prod.fst) x with
      | some i => compileChoice i i choices
      | none => throw (.emptyChoice ((← Compile.place).field "choices"))

/-- Compiles tasks in order, the first of which is at position `i` of its group. -/
def compileTasks (i : Nat) : List TaskSpec → Compile (List Behavior)
  | [] => return []
  | t :: rest => do
    let here ← Compile.within (((← Compile.place).field "tasks").index i) t.compile
    return here ++ (← compileTasks (i + 1) rest)

/-- Compiles options in order, the first of which is at position `i` of its group. -/
def compileOptions (i : Nat) :
    List (UInt32 × TaskSpec) → Compile (List (UInt32 × Behavior))
  | [] => return []
  | (weight, t) :: rest => do
    let compiled ← Compile.within (entryPlace (← Compile.place) "options" i) t.compile
    return (weight, optionBehavior compiled) :: (← compileOptions (i + 1) rest)

/-- Compiles the choice that is `ahead` entries further, and is at position `i` of its group. -/
def compileChoice (i : Nat) : Nat → List (Float × TaskSpec) → Compile (List Behavior)
  | _, [] => do throw (.emptyChoice ((← Compile.place).field "choices"))
  | 0, (_, t) :: _ => do
    Compile.within (entryPlace (← Compile.place) "choices" i) t.compile
  | ahead + 1, _ :: rest => compileChoice i ahead rest

end

end TaskSpec

end Menagerie
