import Menagerie.Document.Exact
import Menagerie.Memory.Blackboard

/-!
# Snapshots of memories

A snapshot is a document that shows a state in full. It is meant for looking at runs, for comparing
them, and for setting up states by hand: what is shown of a value reads back as that value. Points
are lists of their coordinates, and a remembered value is an object with one field, which is named
for the kind of the value.
-/

namespace Menagerie

namespace Position

def snapshot (p : Position) : Document := .list [.float p.x, .float p.y, .float p.z]

def ofSnapshot? : Document → Option Position
  | .list [x, y, z] => return ⟨← x.numberInWords?, ← y.numberInWords?, ← z.numberInWords?⟩
  | _ => none

end Position

namespace WalkTarget

def snapshot (t : WalkTarget) : Document :=
  .object [("position", t.position.snapshot), ("speed", .float t.speed),
    ("completion_range", .float t.completionRange)]

/-- Reads a target, which is at the origin and reached by a walk unless it is said otherwise. -/
def ofSnapshot? (d : Document) : Option WalkTarget := do
  let fields : Fields Document ← Shaped.entries? d
  return ⟨← fields.orElse "position" .origin Position.ofSnapshot?,
    ← fields.orElse "speed" 1.0 Document.numberInWords?,
    ← fields.orElse "completion_range" 0.0 Document.numberInWords?⟩

end WalkTarget

namespace MemoryValue

/-- A remembered value without its kind. -/
def content : MemoryValue → Document
  | flag => .bool true
  | count n => Document.ofUInt32 n
  | number x => .float x
  | agent id => id.toDocument
  | agents ids => Document.ofList AgentId.toDocument ids
  | position p => p.snapshot
  | walkTarget t => t.snapshot
  | item id => id.toDocument

def snapshot (v : MemoryValue) : Document := .object [(Named.name v.kind, v.content)]

/-- Reads a remembered value of a kind. -/
def ofContent? (d : Document) : MemoryKind → Option MemoryValue
  | .flag => some flag
  | .count => (Shaped.uint32? d).map count
  | .number => d.numberInWords?.map number
  | .agent => (AgentId.read? d).map agent
  | .agents => (Shaped.listOf? AgentId.read? d).map agents
  | .position => (Position.ofSnapshot? d).map position
  | .walkTarget => (WalkTarget.ofSnapshot? d).map walkTarget
  | .item => (ItemId.read? d).map item

def ofSnapshot? : Document → Option MemoryValue
  | .object [(kind, d)] => (Named.ofName? kind).bind (ofContent? d)
  | _ => none

end MemoryValue

/-- What is kept for a key: a value and when it runs out, or a word where there is none. -/
def MemoryState.snapshot : MemoryState → Document
  | present v expiresAt =>
    .object [("value", v.snapshot), ("expires_at", Document.ofOption Tick.toDocument expiresAt)]
  | registered => .text "registered"
  | absent => .text "absent"

/-- A condition in one word. -/
def MemoryCondition.ofWord? : String → Option MemoryCondition
  | "present" => some present
  | "absent" => some empty
  | "registered" => some registered
  | _ => none

def Requirement.ofSnapshot? (d : Document) : Option Requirement := do
  let fields : Fields Document ← Shaped.entries? d
  return ⟨← fields.required "key" Shaped.member?,
    ← (← fields.required "is" Shaped.text?) |> MemoryCondition.ofWord?⟩

/-- The registered keys, each with what is kept for it. -/
def Blackboard.snapshot (b : Blackboard) : Document :=
  .object (b.registered.map fun key => (Named.name key, (b.state key).snapshot))

end Menagerie
