import Menagerie.Clock
import Menagerie.Memory.Key

/-!
# Blackboards

A `Blackboard` is the memory of one agent. Each key is in one of three states (`MemoryState`): it is
absent, or registered and empty, or present with a value, possibly until a tick at which the value
runs out. A value with `n` ticks to live that is stored at tick `t` is present on the ticks from `t`
up to `t + n`, the last one excluded.

A value that has run out reads as empty at once (`state`); `advance` drops it.
-/

namespace Menagerie

/-- Why a value could not be stored. -/
inductive MemoryError where
  | unregistered (key : MemoryKey)
  | kindMismatch (key : MemoryKey) (expected found : MemoryKind)
  deriving DecidableEq, Repr

def MemoryError.message : MemoryError → String
  | unregistered key => s!"memory `{Named.name key}` is not registered for this agent"
  | kindMismatch key expected found =>
    s!"memory `{Named.name key}` holds {Named.name expected} values, got {Named.name found}"

/-- What can be observed of a key. -/
inductive MemoryState where
  | absent
  | registered
  | present (value : MemoryValue) (expiresAt : Option Tick)
  deriving DecidableEq, Repr

namespace MemoryState

def isAbsent : MemoryState → Bool
  | absent => true
  | _ => false

/-- Registered, and without a value. -/
def isEmpty : MemoryState → Bool
  | registered => true
  | _ => false

def isPresent : MemoryState → Bool
  | present .. => true
  | _ => false

end MemoryState

/-- What is kept for a registered key: nothing, or a value and when it runs out. -/
abbrev MemorySlot := Option (MemoryValue × Option Tick)

/-- Whether what is kept has run out by the tick `now`. -/
def MemorySlot.isExpired (now : Tick) : MemorySlot → Bool
  | some (_, some runsOut) => runsOut ≤ now
  | _ => false

/-- The memory of one agent. -/
structure Blackboard where
  now : Tick
  slots : SortedMap MemoryKey MemorySlot
  deriving DecidableEq

namespace Blackboard

def empty : Blackboard := ⟨.zero, .empty⟩

instance : Inhabited Blackboard := ⟨empty⟩

def isRegistered (b : Blackboard) (key : MemoryKey) : Bool := b.slots.contains key

/-- Makes room for a key; what is kept for it stays. -/
def register (b : Blackboard) (key : MemoryKey) : Blackboard :=
  if b.isRegistered key then b else { b with slots := b.slots.insert key none }

def registerAll (b : Blackboard) (keys : List MemoryKey) : Blackboard := keys.foldl register b

/-- The registered keys, in key order. -/
def registered (b : Blackboard) : List MemoryKey := b.slots.keys

/-- Moves to another tick and drops what has run out by then; says how many values were dropped. -/
def advance (b : Blackboard) (now : Tick) : Nat × Blackboard :=
  let dropped := (b.slots.values.filter (MemorySlot.isExpired now)).length
  (dropped, ⟨now, b.slots.map fun slot => if slot.isExpired now then none else slot⟩)

def state (b : Blackboard) (key : MemoryKey) : MemoryState :=
  match b.slots.get? key with
  | none => .absent
  | some none => .registered
  | some (some (value, expiresAt)) =>
    if MemorySlot.isExpired b.now (some (value, expiresAt)) then .registered
    else .present value expiresAt

def get? (b : Blackboard) (key : MemoryKey) : Option MemoryValue :=
  match b.state key with
  | .present value _ => some value
  | _ => none

def hasValue (b : Blackboard) (key : MemoryKey) : Bool := (b.state key).isPresent

/-- When the value of a key runs out, if it has one that does. -/
def expiresAt (b : Blackboard) (key : MemoryKey) : Option Tick :=
  match b.state key with
  | .present _ expiresAt => expiresAt
  | _ => none

/-- Stores a value. Its kind is looked at before the key. -/
def store (b : Blackboard) (key : MemoryKey) (value : MemoryValue) (expiresAt : Option Tick) :
    Except MemoryError Blackboard :=
  if value.kind ≠ key.kind then .error (.kindMismatch key key.kind value.kind)
  else if b.isRegistered key then
    .ok { b with slots := b.slots.modify key fun _ => some (value, expiresAt) }
  else .error (.unregistered key)

/-- Stores a value that does not run out. -/
def set (b : Blackboard) (key : MemoryKey) (value : MemoryValue) : Except MemoryError Blackboard :=
  b.store key value none

/-- Stores a value that runs out after so many ticks. -/
def setFor (b : Blackboard) (key : MemoryKey) (value : MemoryValue) (ticks : UInt64) :
    Except MemoryError Blackboard :=
  b.store key value (some (b.now.after ticks))

/-- Clears a key, which may be one that is not registered. -/
def erase (b : Blackboard) (key : MemoryKey) : Blackboard :=
  { b with slots := b.slots.modify key fun _ => none }

/-- Clears a key, and says whether it had a value. -/
def clear (b : Blackboard) (key : MemoryKey) : Bool × Blackboard := (b.hasValue key, b.erase key)

end Blackboard

/-- What is asked of a key. -/
inductive MemoryCondition where
  /-- It has a value. -/
  | present
  /-- It is registered and has no value. -/
  | empty
  /-- It is registered. -/
  | registered
  deriving DecidableEq, Repr

/-- A condition on one key. -/
structure Requirement where
  key : MemoryKey
  condition : MemoryCondition
  deriving DecidableEq, Repr

namespace Requirement

def present (key : MemoryKey) : Requirement := ⟨key, .present⟩

def empty (key : MemoryKey) : Requirement := ⟨key, .empty⟩

def registered (key : MemoryKey) : Requirement := ⟨key, .registered⟩

end Requirement

namespace Blackboard

def satisfies (b : Blackboard) (r : Requirement) : Bool :=
  match r.condition with
  | .present => (b.state r.key).isPresent
  | .empty => (b.state r.key).isEmpty
  | .registered => !(b.state r.key).isAbsent

def satisfiesAll (b : Blackboard) (rs : List Requirement) : Bool := rs.all b.satisfies

/-! ## States through each operation -/

theorem isRegistered_iff (b : Blackboard) (key : MemoryKey) :
    b.isRegistered key = true ↔ b.state key ≠ .absent := by
  unfold isRegistered SortedMap.contains state
  cases h : b.slots.get? key with
  | none => simp
  | some slot =>
    match slot with
    | none => simp
    | some (value, expiresAt) =>
      simp only [Option.isSome_some, ne_eq, true_iff]
      split <;> simp

theorem state_erase (b : Blackboard) (key other : MemoryKey) :
    (b.erase key).state other =
      if other = key then (if b.isRegistered key then .registered else .absent)
      else b.state other := by
  unfold erase state isRegistered SortedMap.contains
  rw [SortedMap.get?_modify]
  by_cases h : other = key
  · subst h
    cases b.slots.get? other <;> simp
  · simp [h]

end Blackboard

end Menagerie
