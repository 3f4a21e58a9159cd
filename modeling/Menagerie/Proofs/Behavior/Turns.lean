import Menagerie.Proofs.Behavior.Trace

/-!
# Which leaves have a turn

A tree keeps its shape when it is ticked, so that each of its leaves can be told by where it stands among the
others (`Tree.leaves`). `Tree.turns` says of every leaf, in this order, whether a tick gives it a turn, and from
which state. All else can be read off the turns: which leaves are run, and what becomes of each of them
(`Tree.tells_turns`). A leaf that has no turn stays as it is.
-/

namespace Menagerie

variable {ε σ ρ ρ' Leaf Guard : Type}

/-- A leaf, and the state that it is run from where it has a turn. -/
structure Turn (Leaf σ : Type) where
  leaf : Leaf
  start? : Option σ

namespace Turn

/-- A leaf that has no turn. -/
def idle (l : Leaf) : Turn Leaf σ := ⟨l, none⟩

variable (mk : Leaf → σ → ρ) (left : ρ → Leaf)

/-- The run that a turn is, if it is one. -/
def run? (t : Turn Leaf σ) : Option ρ := t.start?.map (mk t.leaf)

/-- What becomes of a leaf. -/
def outcome (t : Turn Leaf σ) : Leaf := ((t.run? mk).map left).getD t.leaf

/-- Whether turns tell what happens to leaves: what they are before, which of them are run, and what they are
after. -/
structure Tells (turns : List (Turn Leaf σ)) (before : List Leaf) (runs : List ρ) (after : List Leaf) :
    Prop where
  before : turns.map leaf = before
  runs : turns.filterMap (run? mk) = runs
  after : turns.map (outcome mk left) = after

namespace Tells

variable {mk left} {turns turns' : List (Turn Leaf σ)} {leaves leaves' after after' : List Leaf}
  {runs runs' : List ρ}

theorem append (h : Tells mk left turns leaves runs after)
    (h' : Tells mk left turns' leaves' runs' after') :
    Tells mk left (turns ++ turns') (leaves ++ leaves') (runs ++ runs') (after ++ after') where
  before := by rw [List.map_append, h.before, h'.before]
  runs := by rw [List.filterMap_append, h.runs, h'.runs]
  after := by rw [List.map_append, h.after, h'.after]

theorem idle (mk : Leaf → σ → ρ) (left : ρ → Leaf) (leaves : List Leaf) :
    Tells mk left (leaves.map .idle) leaves [] leaves := by
  refine ⟨?_, ?_, ?_⟩
  · rw [List.map_map]
    exact List.map_id leaves
  · rw [List.filterMap_map, List.filterMap_eq_nil_iff]
    exact fun _ _ => rfl
  · rw [List.map_map]
    exact List.map_id leaves

theorem append_idle (h : Tells mk left turns leaves runs after) (others : List Leaf) :
    Tells mk left (turns ++ others.map .idle) (leaves ++ others) runs (after ++ others) := by
  have hall := h.append (.idle mk left others)
  rw [List.append_nil] at hall
  exact hall

/-- The same told of runs that hold more. -/
theorem map {left' : ρ' → Leaf} {f : ρ → ρ'} (hleft : ∀ run, left' (f run) = left run)
    (h : Tells mk left turns leaves runs after) :
    Tells (fun l s => f (mk l s)) left' turns leaves (runs.map f) after := by
  have hrun : run? (fun l s => f (mk l s)) = fun t => (t.run? mk).map f := by
    funext t
    unfold run?
    rw [Option.map_map]
    rfl
  refine ⟨h.before, ?_, ?_⟩
  · rw [← h.runs, List.map_filterMap, hrun]
  · rw [← h.after]
    refine List.map_congr_left fun t _ => ?_
    unfold outcome
    rw [hrun, Option.map_map]
    exact congrArg (fun leaf? : Option Leaf => leaf?.getD t.leaf) (Option.map_congr fun run _ => hleft run)

theorem getElem?_before (h : Tells mk left turns leaves runs after) {i : Nat} {t : Turn Leaf σ}
    (ht : turns[i]? = some t) : leaves[i]? = some t.leaf := by
  rw [← h.before, List.getElem?_map, ht, Option.map_some]

theorem mem_runs_iff (h : Tells mk left turns leaves runs after) {run : ρ} :
    run ∈ runs ↔ ∃ i : Nat, turns[i]?.bind (run? mk) = some run := by
  rw [← h.runs, List.mem_filterMap]
  constructor
  · rintro ⟨t, ht, hrun⟩
    obtain ⟨i, hi⟩ := List.mem_iff_getElem?.mp ht
    exact ⟨i, by rw [hi]; exact hrun⟩
  · rintro ⟨i, hrun⟩
    obtain ⟨t, hi, hrun⟩ := Option.bind_eq_some_iff.mp hrun
    exact ⟨t, List.mem_of_getElem? hi, hrun⟩

/-- The leaf at a place is what becomes of it in its turn, and the same where it has none. -/
theorem getElem?_after (h : Tells mk left turns leaves runs after) (i : Nat) :
    after[i]? = ((turns[i]?.bind (run? mk)).map left).or leaves[i]? := by
  rw [← h.before, ← h.after, List.getElem?_map, List.getElem?_map]
  cases turns[i]? with
  | none => rfl
  | some t =>
    show some (t.outcome mk left) = ((t.run? mk).map left).or (some t.leaf)
    unfold outcome
    cases t.run? mk with
    | none => rfl
    | some run => rfl

end Tells

end Turn

namespace Tree

/-! ## The leaves of a tree -/

mutual

/-- The leaves of a tree, in the order in which they stand in it. -/
def leaves : Tree Leaf Guard → List Leaf
  | .leaf l => [l]
  | .selector children => leavesOf children
  | .choice options => leavesOfOptions options
  | .gate _ child => leaves child

/-- The leaves of children, one child after the other. -/
def leavesOf : List (Tree Leaf Guard) → List Leaf
  | [] => []
  | child :: rest => leaves child ++ leavesOf rest

/-- The leaves of options, one option after the other. -/
def leavesOfOptions : List (UInt32 × Tree Leaf Guard) → List Leaf
  | [] => []
  | (_, child) :: rest => leaves child ++ leavesOfOptions rest

end

mutual

/-- The leaves of a tree can be reached in it. -/
theorem has_of_mem_leaves {l : Leaf} : ∀ (t : Tree Leaf Guard), l ∈ leaves t → t.Has l
  | .leaf l', h => by
    rw [leaves, List.mem_singleton] at h
    exact h ▸ .leaf
  | .selector children, h => by
    rw [leaves] at h
    obtain ⟨t, ht, hl⟩ := exists_of_mem_leavesOf children h
    exact .selector ht hl
  | .choice options, h => by
    rw [leaves] at h
    obtain ⟨o, ho, hl⟩ := exists_of_mem_leavesOfOptions options h
    exact .choice ho hl
  | .gate guard child, h => by
    rw [leaves] at h
    exact .gate (has_of_mem_leaves child h)

theorem exists_of_mem_leavesOf {l : Leaf} : ∀ (children : List (Tree Leaf Guard)),
    l ∈ leavesOf children → ∃ t ∈ children, t.Has l
  | [], h => by
    rw [leavesOf] at h
    cases h
  | child :: rest, h => by
    rw [leavesOf] at h
    rcases List.mem_append.mp h with hhere | hlater
    · exact ⟨child, List.mem_cons_self, has_of_mem_leaves child hhere⟩
    · obtain ⟨t, ht, hl⟩ := exists_of_mem_leavesOf rest hlater
      exact ⟨t, List.mem_cons_of_mem _ ht, hl⟩

theorem exists_of_mem_leavesOfOptions {l : Leaf} : ∀ (options : List (UInt32 × Tree Leaf Guard)),
    l ∈ leavesOfOptions options → ∃ o ∈ options, o.2.Has l
  | [], h => by
    rw [leavesOfOptions] at h
    cases h
  | (weight, child) :: rest, h => by
    rw [leavesOfOptions] at h
    rcases List.mem_append.mp h with hhere | hlater
    · exact ⟨(weight, child), List.mem_cons_self, has_of_mem_leaves child hhere⟩
    · obtain ⟨o, ho, hl⟩ := exists_of_mem_leavesOfOptions rest hlater
      exact ⟨o, List.mem_cons_of_mem _ ho, hl⟩

end

/-! ## The turns of a tick -/

mutual

/-- Whether a tick gives each leaf a turn, and from which state. -/
def turns (actor : Actor ε Leaf Guard σ) : Tree Leaf Guard → σ → List (Turn Leaf σ)
  | .leaf l, s => [⟨l, some s⟩]
  | .selector children, s => turnsFirst actor children s
  | .choice options, s =>
    let (draw, s) := actor.draw s
    match pickWeighted (weights options) draw with
    | some i => turnsAt actor i options s
    | none => (leavesOfOptions options).map .idle
  | .gate guard child, s =>
    match actor.check guard s with
    | (.ok true, s) => turns actor child s
    | _ => (leaves child).map .idle

/-- The turns where children are ticked up to the first that does not fail. -/
def turnsFirst (actor : Actor ε Leaf Guard σ) : List (Tree Leaf Guard) → σ → List (Turn Leaf σ)
  | [], _ => []
  | child :: rest, s =>
    let t := tick actor child s
    match t.outcome with
    | .ok .failure => turns actor child s ++ turnsFirst actor rest t.state
    | _ => turns actor child s ++ (leavesOf rest).map .idle

/-- The turns where the option at a position is ticked. -/
def turnsAt (actor : Actor ε Leaf Guard σ) :
    Nat → List (UInt32 × Tree Leaf Guard) → σ → List (Turn Leaf σ)
  | _, [], _ => []
  | 0, (_, child) :: rest, s => turns actor child s ++ (leavesOfOptions rest).map .idle
  | i + 1, (_, child) :: rest, s => (leaves child).map .idle ++ turnsAt actor i rest s

end

/-- What an actor makes of a leaf that it runs. -/
abbrev left (actor : Actor ε Leaf Guard σ) (run : Leaf × σ) : Leaf := (actor.run run.1 run.2).node

mutual

/-- Turns tell what becomes of the leaves of a tree that is ticked. -/
theorem tells_turns (actor : Actor ε Leaf Guard σ) : ∀ (t : Tree Leaf Guard) (s : σ),
    Turn.Tells Prod.mk (left actor) (turns actor t s) (leaves t) (runs actor t s) (leaves (tick actor t s).node)
  | .leaf l, s => by
    rw [turns, leaves, runs, tick]
    exact ⟨rfl, rfl, by rw [Ticked.inside, leaves]; rfl⟩
  | .selector children, s => by
    rw [turns, leaves, runs, tick, Ticked.inside, leaves]
    exact tells_turnsFirst actor children s
  | .choice options, s => by
    rw [turns, leaves, runs, tick]
    dsimp only
    cases pickWeighted (weights options) (actor.draw s).1 with
    | some i =>
      dsimp only [Ticked.inside]
      rw [leaves]
      exact tells_turnsAt actor i options (actor.draw s).2
    | none =>
      dsimp only
      rw [leaves]
      exact .idle ..
  | .gate guard child, s => by
    rw [turns, leaves, runs, tick]
    rcases actor.check guard s with ⟨fault | holds, s'⟩
    · dsimp only
      rw [leaves]
      exact .idle ..
    · cases holds with
      | true =>
        dsimp only [Ticked.inside]
        rw [leaves]
        exact tells_turns actor child s'
      | false =>
        dsimp only
        rw [leaves]
        exact .idle ..

theorem tells_turnsFirst (actor : Actor ε Leaf Guard σ) : ∀ (children : List (Tree Leaf Guard)) (s : σ),
    Turn.Tells Prod.mk (left actor) (turnsFirst actor children s) (leavesOf children)
      (runsFirst actor children s) (leavesOf (tickFirst actor children s).node)
  | [], s => by
    rw [turnsFirst, leavesOf, runsFirst, tickFirst, leavesOf]
    exact ⟨rfl, rfl, rfl⟩
  | child :: rest, s => by
    have here := tells_turns actor child s
    rw [turnsFirst, leavesOf, runsFirst, tickFirst]
    rcases (tick actor child s).outcome with fault | status
    · dsimp only [Ticked.inside]
      rw [leavesOf]
      exact here.append_idle _
    · cases status with
      | success =>
        dsimp only [Ticked.inside]
        rw [leavesOf]
        exact here.append_idle _
      | failure =>
        dsimp only [Ticked.inside]
        rw [leavesOf]
        exact here.append (tells_turnsFirst actor rest _)

theorem tells_turnsAt (actor : Actor ε Leaf Guard σ) :
    ∀ (i : Nat) (options : List (UInt32 × Tree Leaf Guard)) (s : σ),
    Turn.Tells Prod.mk (left actor) (turnsAt actor i options s) (leavesOfOptions options)
      (runsAt actor i options s) (leavesOfOptions (tickAt actor i options s).node)
  | _, [], s => by
    rw [turnsAt, leavesOfOptions, runsAt, tickAt, leavesOfOptions]
    exact ⟨rfl, rfl, rfl⟩
  | 0, (_, child) :: rest, s => by
    rw [turnsAt, leavesOfOptions, runsAt, tickAt, Ticked.inside, leavesOfOptions]
    exact (tells_turns actor child s).append_idle _
  | i + 1, (_, child) :: rest, s => by
    rw [turnsAt, leavesOfOptions, runsAt, tickAt, Ticked.inside, leavesOfOptions]
    exact Turn.Tells.append (.idle ..) (tells_turnsAt actor i rest s)

end

end Tree

end Menagerie
