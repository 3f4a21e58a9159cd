import Menagerie.Proofs.Behavior.Events
import Menagerie.Proofs.Task.Act
import Menagerie.Proofs.Task.Discipline

/-!
# One option a tick

A group of options is compiled to one behavior: options with their weights, behind a guard (`Behavior.oneOf`). In a
tick it looks at the guard. If that does not hold, or faults, this is all that happens. If it holds, one number is
drawn, and the one option that it picks is ticked from there; the others are left as they are, and nothing is ticked
if no option has a weight (`Behavior.ticksOne`). Guard and weights are left as they are, so that each tick is of this
kind whatever was ticked before (`TaskSpec.oneAtATime_of_compile_oneOf`).
-/

namespace Menagerie

/-- What a guard comes to. -/
abbrev Param.live (guard : Param) (env : ActEnv) (s : Stage) : Except TaskFault Bool :=
  ((Act.bool guard).runOn env s).1

/-- The stage after a draw. -/
def Stage.drawn (s : Stage) : Stage := { s with random := s.random.unit.2 }

namespace Behavior

variable {env : ActEnv} {guard : Param} {options : List (UInt32 × Behavior)} {s : Stage}

/-- Options with their weights, behind a guard. -/
abbrev oneOf (guard : Param) (options : List (UInt32 × Behavior)) : Behavior := .gate guard (.choice options)

/-- What is done in a tick of a behavior. -/
abbrev events (env : ActEnv) (b : Behavior) (s : Stage) : List (Event Leaf Param) := Tree.events env.actor b s

/-- A behavior after ticks, each in its own surroundings. -/
def after (b : Behavior) (ticks : List (ActEnv × Stage)) : Behavior :=
  ticks.foldl (fun b t => (b.tick t.1 t.2).node) b

/-- What is said of a tick of options behind a guard. -/
structure TicksOne (env : ActEnv) (guard : Param) (options : List (UInt32 × Behavior)) (s : Stage) : Prop where
  /-- A guard that does not hold, or faults, is all that is looked at, and nothing changes. -/
  barred : guard.live env s ≠ .ok true →
    (oneOf guard options).tick env s = ⟨(guard.live env s).map fun _ => .failure, oneOf guard options, s⟩ ∧
      (oneOf guard options).events env s = [.checked guard]
  /-- Without weights there is a draw and nothing else. -/
  idle : guard.live env s = .ok true → (∀ o ∈ options, o.1 = 0) →
    (oneOf guard options).tick env s = ⟨.ok .failure, oneOf guard options, s.drawn⟩ ∧
      (oneOf guard options).events env s = [.checked guard, .drew s.random.unit.1]
  /-- Otherwise there is a draw, and then one option is ticked that has a weight. -/
  one : guard.live env s = .ok true → (∃ o ∈ options, o.1 ≠ 0) →
    ∃ (i : Nat) (weight : UInt32) (child : Behavior), options[i]? = some (weight, child) ∧ weight ≠ 0 ∧
      pickWeighted (Tree.weights options) s.random.unit.1 = some i ∧
      (oneOf guard options).tick env s =
        (child.tick env s.drawn).inside (fun child => oneOf guard (options.set i (weight, child))) ∧
      (oneOf guard options).events env s =
        .checked guard :: .drew s.random.unit.1 :: child.events env s.drawn

/-- Whether a behavior ticks at most one of its options each time that it is ticked, whatever was ticked before. -/
def OneAtATime (guard : Param) (weights : List UInt32) (b : Behavior) : Prop :=
  ∀ ticks, ∃ options, b.after ticks = oneOf guard options ∧ options.map Prod.fst = weights ∧
    ∀ env s, TicksOne env guard options s

/-- Looking at a guard changes nothing and draws nothing. -/
theorem check_actor (env : ActEnv) (guard : Param) (s : Stage) :
    env.actor.check guard s = (guard.live env s, s) := by
  have hsame : Meets (Act.bool guard) env s (fun _ s' => s' = s) fun _ s' => s' = s := by
    simp only [Act.bool, Act.evaluate, Act.me, Act.world, Act.fault, meets_bind, meets_read, meets_get, meets_pure]
    split
    · simp only [meets_pure]
      split
      · rfl
      · rfl
    · rfl
  have hstage : ((Act.bool guard).runOn env s).2 = s := Act.of_meets hsame
  exact Prod.ext rfl hstage

theorem draw_actor (env : ActEnv) (s : Stage) : env.actor.draw s = (s.random.unit.1, s.drawn) := rfl

/-- Options behind a guard tick at most one of them. -/
theorem ticksOne (env : ActEnv) (guard : Param) (options : List (UInt32 × Behavior)) (s : Stage) :
    TicksOne env guard options s where
  barred hbarred := by
    have hcheck := check_actor env guard s
    have hnot : (env.actor.check guard s).1 ≠ .ok true := by rwa [hcheck]
    have htick := Tree.tick_gate_of_barred (.choice options) hnot
    rw [hcheck] at htick
    exact ⟨htick, Tree.events_gate_of_barred hnot⟩
  idle hopen hnone := by
    have hcheck := check_actor env guard s
    rw [hopen] at hcheck
    have hdraw := draw_actor env s
    have hpick : pickWeighted (Tree.weights options) s.random.unit.1 = none :=
      Tree.pickWeighted_weights_eq_none_iff.mpr hnone
    refine ⟨?_, ?_⟩
    · rw [tick, Tree.tick_gate_of_open hcheck, Tree.tick_choice_of_none hdraw hpick]
      rfl
    · rw [events, Tree.events_gate_of_open hcheck, Tree.events_choice_of_none hdraw hpick]
  one hopen hsome := by
    have hcheck := check_actor env guard s
    rw [hopen] at hcheck
    have hdraw := draw_actor env s
    have hpicks : pickWeighted (Tree.weights options) s.random.unit.1 ≠ none := by
      rw [Ne, Tree.pickWeighted_weights_eq_none_iff]
      simpa using hsome
    obtain ⟨i, hpick⟩ := Option.ne_none_iff_exists'.mp hpicks
    obtain ⟨weight, child, hchild, hweight⟩ := Tree.exists_of_pickWeighted_weights hpick
    refine ⟨i, weight, child, hchild, hweight, hpick, ?_, ?_⟩
    · rw [tick, Tree.tick_gate_of_open hcheck, Tree.tick_choice_of_pick hdraw hpick hchild]
      rfl
    · rw [events, Tree.events_gate_of_open hcheck, Tree.events_choice_of_pick hdraw hpick hchild]

/-! ## Ticks in sequence -/

/-- A tick leaves the guard and the weights. -/
theorem exists_node_tick_oneOf (env : ActEnv) (guard : Param) (options : List (UInt32 × Behavior)) (s : Stage) :
    ∃ options', ((oneOf guard options).tick env s).node = oneOf guard options' ∧
      options'.map Prod.fst = options.map Prod.fst := by
  have h := ticksOne env guard options s
  by_cases hopen : guard.live env s = .ok true
  · by_cases hnone : ∀ o ∈ options, o.1 = 0
    · rw [(h.idle hopen hnone).1]
      exact ⟨options, rfl, rfl⟩
    · obtain ⟨i, weight, child, hchild, -, -, htick, -⟩ := h.one hopen (by simpa using hnone)
      rw [htick]
      exact ⟨_, rfl, Tree.map_fst_set hchild _⟩
  · rw [(h.barred hopen).1]
    exact ⟨options, rfl, rfl⟩

theorem oneAtATime_oneOf (guard : Param) (options : List (UInt32 × Behavior)) :
    (oneOf guard options).OneAtATime guard (options.map Prod.fst) := by
  intro ticks
  induction ticks generalizing options with
  | nil => exact ⟨options, rfl, rfl, fun env s => ticksOne env guard options s⟩
  | cons t rest ih =>
    obtain ⟨options', hnode, hweights⟩ := exists_node_tick_oneOf t.1 guard options t.2
    obtain ⟨options'', hafter, hweights', hticks⟩ := ih options'
    refine ⟨options'', ?_, hweights'.trans hweights, hticks⟩
    rw [← hafter, ← hnode]
    rfl

end Behavior

/-! ## Compiled options -/

theorem Compile.length_of_each {env : CompileEnv} {tasks : List (Location × TaskSpec)} {s s' : CompileState}
    {compiled : List (List Behavior)} (h : (each tasks).runOn env s = (.ok compiled, s')) :
    compiled.length = tasks.length := by
  induction tasks generalizing s compiled with
  | nil =>
    cases h
    rfl
  | cons entry rest ih =>
    obtain ⟨place, t⟩ := entry
    rw [runOn_each_cons] at h
    split at h
    · next here s₁ hhere =>
      rcases hrest : (each rest).runOn env s₁ with ⟨_ | others, s₂⟩
      · rw [hrest] at h
        cases h
      · rw [hrest] at h
        cases h
        rw [List.length_cons, List.length_cons, ih hrest]
    · cases h

namespace TaskSpec

open Compile

/-- A group of options comes to nothing, or to one behavior that holds what each option came to and ticks at most one
of them at a time. -/
theorem oneAtATime_of_compile_oneOf {condition : Binding} {options : List (UInt32 × TaskSpec)} {env : CompileEnv}
    {s s' : CompileState} {units : List Behavior}
    (h : (oneOf condition options).compile.runOn env s = (.ok units, s')) :
    Guards env condition (.ok false) ∧ units = [] ∨
      ∃ guard compiled, Guards env condition (.ok true) ∧ Gives env (simplify condition "condition") (.ok guard) ∧
        (each ((oneOf condition options).children env.place)).runOn env s = (.ok compiled, s') ∧
        units = [.oneOf guard ((options.map Prod.fst).zip (compiled.map optionBehavior))] ∧
        (Behavior.oneOf guard ((options.map Prod.fst).zip (compiled.map optionBehavior))).OneAtATime guard
          (options.map Prod.fst) := by
  obtain ⟨outcome, hguard⟩ := exists_guards env condition
  cases outcome with
  | error why =>
    rw [gives_compile_of_error rfl hguard s] at h
    cases h
  | ok holds =>
    cases holds with
    | false =>
      rw [gives_compile_of_closed rfl hguard s] at h
      cases h
      exact .inl ⟨hguard, rfl⟩
    | true =>
      obtain ⟨guard, hsimplify⟩ := exists_gives_simplify hguard
      rw [runOn_oneOf hguard hsimplify, runOn_map] at h
      rcases heach : (each ((oneOf condition options).children env.place)).runOn env s with ⟨_ | compiled, s₁⟩
      · rw [heach] at h
        cases h
      · rw [heach] at h
        cases h
        have hlength : compiled.length = options.length := by
          rw [length_of_each heach, children, List.length_mapIdx]
        have hweights : ((options.map Prod.fst).zip (compiled.map optionBehavior)).map Prod.fst =
            options.map Prod.fst := by
          refine List.map_fst_zip ?_
          rw [List.length_map, List.length_map, hlength]
        have hone := Behavior.oneAtATime_oneOf guard ((options.map Prod.fst).zip (compiled.map optionBehavior))
        rw [hweights] at hone
        exact .inr ⟨guard, compiled, hguard, hsimplify, rfl, rfl, hone⟩

/-- Of three options one has no weight, one is a group itself, and one comes to nothing. -/
theorem oneAtATime_pastime :
    let wolf : AgentView := ⟨⟨1⟩, "wolf", 1, 20.0, 20.0, ⟨0.0, 64.0, 0.0⟩, false, false⟩
    let env : CompileEnv := ⟨.root "wolf", wolf, .empty, 16, ⟨⟨0⟩, 24000⟩⟩
    let s : CompileState := ⟨.ofSeed 7, .empty, .empty⟩
    let idle : TaskSpec := .leaf .doNothing
    let options : List (UInt32 × TaskSpec) :=
      [(0, idle), (3, oneOf (.bool true) [(1, idle)]), (1, allOf (.bool false) [idle])]
    let always : Param := .constant (.bool true)
    let pastime : Behavior :=
      .oneOf always [(0, .leaf .doNothing), (3, .oneOf always [(1, .leaf .doNothing)]), (1, .selector [])]
    (oneOf (.bool true) options).compile.runOn env s = (.ok [pastime], s) ∧
      pastime.OneAtATime always [0, 3, 1] := by
  intro wolf env s idle options always pastime
  have hcompile : (oneOf (.bool true) options).compile.runOn env s = (.ok [pastime], s) := rfl
  obtain ⟨-, hnothing⟩ | ⟨guard, compiled, -, -, -, hunits, hone⟩ := oneAtATime_of_compile_oneOf hcompile
  · cases hnothing
  · injection hunits with hunit
    rw [← hunit] at hone
    injection hunit with hguard
    rw [← hguard] at hone
    exact ⟨hcompile, hone⟩

end TaskSpec

end Menagerie
