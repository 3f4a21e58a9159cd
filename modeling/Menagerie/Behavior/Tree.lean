import Menagerie.Behavior.Weighted

/-!
# Behavior trees

A behavior tree is ticked against a state and succeeds, fails or faults. Leaves do the work:

- a *selector* ticks its children in order up to the first that does not fail;
- a *choice* draws anew each tick and ticks the one child that the draw picks;
- a *gate* ticks its child only while its guard holds.

What leaves and guards do to the state is given by an `Actor`. A tick yields the tree anew, since
leaves may keep counts of their own, and it yields tree and state also where it faults.
-/

namespace Menagerie

/-- What a tick that did not fault comes to. -/
inductive Status where
  /-- The node used the turn. -/
  | success
  /-- Nothing applied, and others may try. -/
  | failure
  deriving DecidableEq, Repr

def Status.ofBool (ran : Bool) : Status := if ran then success else failure

/-- A failure inside a node, with the node's name. -/
structure Fault (Cause : Type) where
  node : String
  cause : Cause

/-- How a fault is shown, given the text of its cause. -/
def Fault.message {Cause : Type} (text : Cause → String) (f : Fault Cause) : String :=
  s!"{f.node} faulted: {text f.cause}"

/-- What a tick leaves behind. -/
structure Ticked (ε ν σ : Type) where
  outcome : Except ε Status
  /-- The node as it is after the tick. -/
  node : ν
  state : σ

/-- The same tick of a node that contains the ticked one. -/
def Ticked.inside {ε ν μ σ : Type} (t : Ticked ε ν σ) (wrap : ν → μ) : Ticked ε μ σ :=
  ⟨t.outcome, wrap t.node, t.state⟩

/-- Ticks nodes in order up to the first that does not fail. -/
def firstToApply {ε ν σ : Type} (tick : ν → σ → Ticked ε ν σ) :
    List ν → σ → Ticked ε (List ν) σ
  | [], s => ⟨.ok .failure, [], s⟩
  | n :: rest, s =>
    let t := tick n s
    match t.outcome with
    | .ok .failure => (firstToApply tick rest t.state).inside (t.node :: ·)
    | _ => t.inside (· :: rest)

/-- A behavior tree over leaves and guards. -/
inductive Tree (Leaf Guard : Type) where
  | leaf (l : Leaf)
  | selector (children : List (Tree Leaf Guard))
  /-- Children with their weights. -/
  | choice (options : List (UInt32 × Tree Leaf Guard))
  | gate (guard : Guard) (child : Tree Leaf Guard)

/-- What leaves and guards do to a state, and where draws come from. -/
structure Actor (ε Leaf Guard σ : Type) where
  run : Leaf → σ → Ticked ε Leaf σ
  check : Guard → σ → Except ε Bool × σ
  draw : σ → Float × σ

namespace Tree

variable {ε Leaf Guard σ : Type}

/-- The weights of options, as a draw takes them. -/
def weights (options : List (UInt32 × Tree Leaf Guard)) : List Float :=
  options.map fun option => option.1.toFloat

mutual

def tick (actor : Actor ε Leaf Guard σ) : Tree Leaf Guard → σ → Ticked ε (Tree Leaf Guard) σ
  | .leaf l, s => (actor.run l s).inside .leaf
  | .selector children, s => (tickFirst actor children s).inside .selector
  | .choice options, s =>
    let (draw, s) := actor.draw s
    match pickWeighted (weights options) draw with
    | some i => (tickAt actor i options s).inside .choice
    | none => ⟨.ok .failure, .choice options, s⟩
  | .gate guard child, s =>
    match actor.check guard s with
    | (.ok true, s) => (tick actor child s).inside (.gate guard)
    | (.ok false, s) => ⟨.ok .failure, .gate guard child, s⟩
    | (.error fault, s) => ⟨.error fault, .gate guard child, s⟩

/-- Ticks children in order up to the first that does not fail. -/
def tickFirst (actor : Actor ε Leaf Guard σ) :
    List (Tree Leaf Guard) → σ → Ticked ε (List (Tree Leaf Guard)) σ
  | [], s => ⟨.ok .failure, [], s⟩
  | child :: rest, s =>
    let t := tick actor child s
    match t.outcome with
    | .ok .failure => (tickFirst actor rest t.state).inside (t.node :: ·)
    | _ => t.inside (· :: rest)

/-- Ticks the option at a position, and no other. -/
def tickAt (actor : Actor ε Leaf Guard σ) :
    Nat → List (UInt32 × Tree Leaf Guard) → σ → Ticked ε (List (UInt32 × Tree Leaf Guard)) σ
  | _, [], s => ⟨.ok .failure, [], s⟩
  | 0, (weight, child) :: rest, s => (tick actor child s).inside fun child => (weight, child) :: rest
  | i + 1, option :: rest, s => (tickAt actor i rest s).inside (option :: ·)

end

/-- The name of a node in reports. A gate goes by the name of its child. -/
def name (leafName : Leaf → String) : Tree Leaf Guard → String
  | .leaf l => leafName l
  | .selector _ => "selector"
  | .choice _ => "weighted_choice"
  | .gate _ child => child.name leafName

/-- A selector ticks its children as any list of nodes is ticked. -/
theorem tickFirst_eq_firstToApply (actor : Actor ε Leaf Guard σ) (children : List (Tree Leaf Guard))
    (s : σ) : tickFirst actor children s = firstToApply (tick actor) children s := by
  induction children generalizing s with
  | nil => rw [tickFirst, firstToApply]
  | cons child rest ih =>
    rw [tickFirst, firstToApply]
    split
    · rw [ih]
    · rfl

end Tree

end Menagerie
