import Menagerie.Behavior.Tree
import Menagerie.Random
import Menagerie.Variable.Binding
import Menagerie.World.Basic

/-!
# Acting in the world

A task acts for one agent. It reads who that agent is and which variables its template has
(`ActEnv`), and it changes the world and the generator (`Stage`). A fault leaves what was changed
before it as it is.
-/

namespace Menagerie

/-- Why a task faulted. -/
inductive FaultCause where
  | agentGone (id : AgentId)
  | noBlackboard (id : AgentId)
  | memory (e : MemoryError)
  | evaluation (e : EvalError)
  /-- A range to draw from that is not finite. -/
  | endlessRange (x : Float)
  /-- A memory holds a value that the task has no use for. -/
  | unexpectedValue (key : MemoryKey)

def FaultCause.message : FaultCause → String
  | agentGone id => s!"agent {id.describe} is gone"
  | noBlackboard id => s!"agent {id.describe} has no blackboard"
  | memory e => e.message
  | evaluation e => e.message
  | endlessRange x => s!"sample range must be finite, got {Number.Notation.plain.render x}"
  | unexpectedValue key => s!"memory `{Named.name key}` holds an unexpected value"

abbrev TaskFault := Fault FaultCause

/-- What a task reads of itself. -/
structure ActEnv where
  agent : AgentId
  /-- How long a chain of variables that are expressions may be. -/
  chainLimit : Nat
  table : VariableTable

/-- What tasks change. -/
structure Stage where
  world : World
  random : Random

/-- An action of a task. -/
abbrev Act := ReaderT ActEnv (ExceptT TaskFault (StateM Stage))

namespace Act

/-- Runs an action; what it changed is there also where it faults. -/
def runOn {α : Type} (act : Act α) (env : ActEnv) (s : Stage) : Except TaskFault α × Stage :=
  (act.run env).run.run s

/-- Faults in the name of the agent's surroundings. -/
def fault {α : Type} (cause : FaultCause) : Act α := throw ⟨"task_context", cause⟩

def world : Act World := return (← get).world

def now : Act Tick := return (← world).now

/-- Changes the world. -/
def modifyWorld (f : World → World) : Act Unit := modify fun s => { s with world := f s.world }

/-- The agent itself. -/
def me : Act AgentView := do
  let id := (← read).agent
  match (← world).view? id with
  | some view => return view
  | none => fault (.agentGone id)

/-! ## Memory -/

/-- What the agent remembers under a key. -/
def remembered (key : MemoryKey) : Act (Option MemoryValue) :=
  return (← world).remembered? (← read).agent key

/-- Whether all requirements hold; none does for an agent that is gone. -/
def satisfies (requirements : List Requirement) : Act Bool :=
  return ((← world).memory? (← read).agent).any fun memory => memory.satisfiesAll requirements

/-- Changes the agent's memory by an operation that may fail. -/
def updateMemory (f : Blackboard → Except MemoryError Blackboard) : Act Unit := do
  let id := (← read).agent
  match (← world).memory? id with
  | none => fault (.noBlackboard id)
  | some memory =>
    match f memory with
    | .ok memory => modifyWorld fun w => w.updateBody id fun b => { b with memory }
    | .error e => fault (.memory e)

def remember (key : MemoryKey) (value : MemoryValue) : Act Unit :=
  updateMemory fun memory => memory.set key value

/-- Remembers a value for so many ticks. -/
def rememberFor (key : MemoryKey) (value : MemoryValue) (ticks : UInt64) : Act Unit :=
  updateMemory fun memory => memory.setFor key value ticks

/-- Clears a key in the memory of an agent, which need not be there. -/
def forgetOf (id : AgentId) (key : MemoryKey) : Act Unit :=
  modifyWorld fun w => w.updateBody id fun b => { b with memory := b.memory.erase key }

def forget (key : MemoryKey) : Act Unit := do forgetOf (← read).agent key

/-! ## Activities and intents -/

/-- The agent's schedule, if it is still there. -/
def schedule : Act (Option Schedule) := return (← world).schedule? (← read).agent

/-- Makes an activity active, and says whether the agent has it. -/
def activate (activity : Activity) : Act Bool := do
  match (← schedule).bind fun s => s.activate? activity with
  | none => return false
  | some schedule =>
    let id := (← read).agent
    modifyWorld fun w => w.updateBody id fun b => { b with schedule }
    return true

/-- Whether an activity is active. -/
def isActive (activity : Activity) : Act Bool := return (← schedule).any fun s => s.isActive activity

def issue (intent : Intent) : Act Unit := do
  let id := (← read).agent
  modifyWorld fun w => w.issue id intent

/-! ## Chance -/

/-- A number in `[0, 1)`. -/
def draw : Act Float := do
  let s ← get
  let (x, random) := s.random.unit
  set { s with random }
  return x

/-- True with a probability; one that is not positive takes no draw. -/
def chance (p : Float) : Act Bool := do
  if p > 0.0 then
    let x ← draw
    return x < p
  else return false

/-- A number within a range of zero; a range that is not positive takes no draw. -/
def spread (range : Float) : Act Float := do
  if !range.isFinite then fault (.endlessRange range)
  else if range ≤ 0.0 then return 0.0
  else
    let s ← get
    let (x, random) := s.random.symmetric range
    set { s with random }
    return x

/-! ## Parameters -/

/-- Looks at a parameter in the agent's scope. The agent has to be there, also for a constant. -/
def evaluate {α : Type} (look : Nat → Scope → Param → Except EvalError α) (p : Param) : Act α := do
  let view ← me
  let w ← world
  let env ← read
  match look env.chainLimit (.ofAgent view.query w.clock env.table) p with
  | .ok a => return a
  | .error e => fault (.evaluation e)

def bool (p : Param) : Act Bool := evaluate Param.bool p

def number (p : Param) : Act Float := evaluate Param.number p

def whole (p : Param) : Act Int := evaluate Param.whole p

end Act

end Menagerie
