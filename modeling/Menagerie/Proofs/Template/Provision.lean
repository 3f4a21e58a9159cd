import Menagerie.Proofs.Agent.Brain
import Menagerie.Proofs.Template.Spawning

/-!
# What brains are provided with

A brain has exactly the memories and sensors that leaves declared while it was compiled
(`Engine.provided_of_instantiate`). Not all of these leaves are in it: of what an option comes to, a `oneOf`
group keeps the first behavior and drops the others, and what the dropped ones declared stays. To tell
which these are, tasks are compiled in a way that notes what is dropped (`TaskSpec.compileNoting`); apart
from the notes nothing is different (`TaskSpec.kept_compileNoting`).
-/

namespace Menagerie

/-! ## Noting what is dropped -/

/-- The behaviors that a task comes to, and those that were compiled on the way and dropped. -/
structure Noted where
  kept : List Behavior
  dropped : List Behavior

namespace Noted

/-- A leaf that was compiled, be it kept or dropped. -/
def Has (n : Noted) (l : Leaf) : Prop := (∃ b ∈ n.kept, b.Has l) ∨ ∃ b ∈ n.dropped, b.Has l

/-- Compiles only where a condition holds. -/
def given (condition : Binding) (step : Compile Noted) : Compile Noted := do
  if ← Compile.bool condition "condition" then step else return ⟨[], []⟩

end Noted

namespace TaskSpec

mutual

/-- Compiles a task as `compile` does, and notes what is dropped. -/
def compileNoting : TaskSpec → Compile Noted
  | leaf l => return ⟨← l.compile, []⟩
  | allOf condition tasks => Noted.given condition (compileTasksNoting 0 tasks)
  | oneOf condition options => Noted.given condition do
      let guard ← Compile.simplify condition "condition"
      let (compiled, dropped) ← compileOptionsNoting 0 options
      return ⟨[.gate guard (.choice compiled)], dropped⟩
  | random condition choices => Noted.given condition do
      let x ← Compile.draw
      match pickWeighted (choices.map Prod.fst) x with
      | some i => compileChoiceNoting i i choices
      | none => throw (.emptyChoice ((← Compile.place).field "choices"))

def compileTasksNoting (i : Nat) : List TaskSpec → Compile Noted
  | [] => return ⟨[], []⟩
  | t :: rest => do
    let here ← Compile.within (((← Compile.place).field "tasks").index i) t.compileNoting
    let others ← compileTasksNoting (i + 1) rest
    return ⟨here.kept ++ others.kept, here.dropped ++ others.dropped⟩

/-- Of each option all behaviors but the first are dropped. -/
def compileOptionsNoting (i : Nat) :
    List (UInt32 × TaskSpec) → Compile (List (UInt32 × Behavior) × List Behavior)
  | [] => return ([], [])
  | (weight, t) :: rest => do
    let here ← Compile.within (entryPlace (← Compile.place) "options" i) t.compileNoting
    let (others, dropped) ← compileOptionsNoting (i + 1) rest
    return ((weight, optionBehavior here.kept) :: others, here.kept.tail ++ here.dropped ++ dropped)

def compileChoiceNoting (i : Nat) : Nat → List (Float × TaskSpec) → Compile Noted
  | _, [] => do throw (.emptyChoice ((← Compile.place).field "choices"))
  | 0, (_, t) :: _ => do
    Compile.within (entryPlace (← Compile.place) "choices" i) t.compileNoting
  | ahead + 1, _ :: rest => compileChoiceNoting i ahead rest

end

/-! ### Notes apart, nothing is different -/

theorem kept_within (place : Location) (step : Compile Noted) :
    Compile.within place (Noted.kept <$> step) = Noted.kept <$> Compile.within place step := rfl

theorem kept_given (condition : Binding) (step : Compile Noted) :
    Noted.kept <$> Noted.given condition step = Compile.given condition (Noted.kept <$> step) := by
  unfold Noted.given Compile.given
  rw [map_bind]
  congr 1
  funext holds
  split
  · rfl
  · rfl

theorem kept_compileTasksNoting {tasks : List TaskSpec} {i : Nat}
    (each : ∀ t ∈ tasks, Noted.kept <$> t.compileNoting = t.compile) :
    Noted.kept <$> compileTasksNoting i tasks = compileTasks i tasks := by
  induction tasks generalizing i with
  | nil => rfl
  | cons t rest ih =>
    rw [List.forall_mem_cons] at each
    simp only [compileTasksNoting, compileTasks, ← each.1, ← ih each.2, kept_within, map_bind,
      bind_map_left, map_pure]

theorem fst_compileOptionsNoting {options : List (UInt32 × TaskSpec)} {i : Nat}
    (each : ∀ o ∈ options, Noted.kept <$> o.2.compileNoting = o.2.compile) :
    Prod.fst <$> compileOptionsNoting i options = compileOptions i options := by
  induction options generalizing i with
  | nil => rfl
  | cons o rest ih =>
    rw [List.forall_mem_cons] at each
    simp only [compileOptionsNoting, compileOptions, ← each.1, ← ih each.2, kept_within, map_bind,
      bind_map_left, map_pure]

theorem kept_compileChoiceNoting {choices : List (Float × TaskSpec)} {i ahead : Nat}
    (each : ∀ c ∈ choices, Noted.kept <$> c.2.compileNoting = c.2.compile) :
    Noted.kept <$> compileChoiceNoting i ahead choices = compileChoice i ahead choices := by
  induction choices generalizing ahead with
  | nil => rfl
  | cons c rest ih =>
    rw [List.forall_mem_cons] at each
    cases ahead with
    | zero => simp only [compileChoiceNoting, compileChoice, ← each.1, kept_within, map_bind]
    | succ ahead => exact ih each.2

/-- What is kept is what the task compiles to. -/
theorem kept_compileNoting (t : TaskSpec) : Noted.kept <$> t.compileNoting = t.compile := by
  induction t using byGroups with
  | leaf l => simp only [compileNoting, compile, map_bind, map_pure, bind_pure]
  | allOf condition tasks ih =>
    rw [compileNoting, compile, kept_given, kept_compileTasksNoting ih]
  | oneOf condition options ih =>
    rw [compileNoting, compile, kept_given, ← fst_compileOptionsNoting ih]
    simp only [map_bind, bind_map_left, map_pure]
  | random condition choices ih =>
    rw [compileNoting, compile, kept_given, map_bind]
    congr 2
    funext x
    cases pickWeighted (choices.map Prod.fst) x with
    | some i => exact kept_compileChoiceNoting ih
    | none => rfl

end TaskSpec

/-! ## What is collected -/

/-- What a leaf declares that it remembers, itself or by way of its sensors. -/
def Leaf.Declares (l : Leaf) (key : MemoryKey) : Prop :=
  key ∈ l.needs.memories ∨ ∃ kind ∈ l.needs.sensors, key ∈ kind.memories

namespace CompileState

variable {s s' s'' : CompileState} {compiled compiled' : Leaf → Prop}

/-- From one state to another exactly that was collected which some leaves declare, all of them fresh. -/
structure Gathered (s s' : CompileState) (compiled : Leaf → Prop) : Prop where
  memories : ∀ key, s'.memories.contains key ↔
    s.memories.contains key ∨ ∃ l, compiled l ∧ l.Declares key
  sensors : ∀ kind, s'.sensors.contains kind ↔
    s.sensors.contains kind ∨ ∃ l, compiled l ∧ kind ∈ l.needs.sensors
  fresh : ∀ l, compiled l → l.Fresh

namespace Gathered

theorem none (s : CompileState) (h : ∀ l, ¬ compiled l) : Gathered s s compiled :=
  ⟨fun _ => ⟨.inl, fun hkey => hkey.elim id fun ⟨l, hl, _⟩ => absurd hl (h l)⟩,
    fun _ => ⟨.inl, fun hkind => hkind.elim id fun ⟨l, hl, _⟩ => absurd hl (h l)⟩,
    fun l hl => absurd hl (h l)⟩

theorem congr (h : Gathered s s' compiled) (hsame : ∀ l, compiled l ↔ compiled' l) :
    Gathered s s' compiled' := by
  obtain rfl : compiled = compiled' := funext fun l => propext (hsame l)
  exact h

theorem trans (h : Gathered s s' compiled) (h' : Gathered s' s'' compiled') :
    Gathered s s'' fun l => compiled l ∨ compiled' l := by
  refine ⟨fun key => ?_, fun kind => ?_, fun l hl => hl.elim (h.fresh l) (h'.fresh l)⟩
  · rw [h'.memories, h.memories, or_assoc, ← exists_or]
    simp only [or_and_right]
  · rw [h'.sensors, h.sensors, or_assoc, ← exists_or]
    simp only [or_and_right]

theorem collect (s : CompileState) {l : Leaf} (hl : l.Fresh) :
    Gathered s (s.collect l.needs) (· = l) := by
  refine ⟨fun key => ?_, fun kind => ?_, fun _ heq => heq ▸ hl⟩
  · rw [contains_memories_collect, exists_eq_left, List.mem_flatMap]
    unfold Leaf.Declares
    rw [← or_assoc, or_comm, or_comm (a := key ∈ l.needs.memories)]
  · rw [contains_sensors_collect, exists_eq_left, or_comm]

end Gathered

end CompileState

namespace Compile

open CompileState

/-- Whether a step collects exactly what the leaves declare that it compiles. -/
def Gathers (step : Compile Noted) : Prop :=
  ∀ env s, Meets step env s (fun n s' => Gathered s s' n.Has) fun _ _ => True

theorem Gathers.given {step : Compile Noted} (h : Gathers step) (condition : Binding) :
    Gathers (Noted.given condition step) := by
  intro env s
  unfold Noted.given
  rw [meets_bind]
  refine ((judges_bool condition "condition").meets env s).imp ?_ fun _ _ _ => trivial
  rintro holds s' rfl
  cases holds with
  | true => exact h env s'
  | false => exact .none s' (by simp [Noted.Has])

/-- A step that serves one leaf or none drops nothing. -/
theorem Serves.gathers {bindings : List (String × Binding)} {step : Compile (List Behavior)}
    (h : Serves bindings step) : Gathers (step >>= fun behaviors => return ⟨behaviors, []⟩) := by
  induction h with
  | single l hl =>
    intro env s
    rw [meets_bind, meets_single, meets_pure]
    refine (Gathered.collect s hl).congr fun l' => ?_
    simp [Noted.Has, Tree.has_leaf]
  | none => exact fun _ s => .none s (by simp [Noted.Has])
  | refuse field why => exact fun _ _ => trivial
  | look hstep _ _ ih =>
    intro env s
    rw [bind_assoc, meets_bind]
    refine (hstep.meets env s).imp ?_ fun _ _ _ => trivial
    rintro a s' rfl
    exact ih a env s'

end Compile

namespace TaskSpec

open Compile CompileState

theorem gathers_compileTasksNoting {tasks : List TaskSpec} {i : Nat}
    (each : ∀ t ∈ tasks, Gathers t.compileNoting) : Gathers (compileTasksNoting i tasks) := by
  induction tasks generalizing i with
  | nil => exact fun _ s => .none s (by simp [Noted.Has])
  | cons t rest ih =>
    rw [List.forall_mem_cons] at each
    intro env s
    simp only [compileTasksNoting, place, within, meets_bind, meets_read, meets_pure, meets_withReader]
    refine (each.1 _ s).imp ?_ fun _ _ _ => trivial
    intro here s' hhere
    refine (ih each.2 env s').imp ?_ fun _ _ _ => trivial
    intro others s'' hothers
    refine (hhere.trans hothers).congr fun l => ?_
    simp only [Noted.Has, List.mem_append, or_and_right, exists_or]
    exact or_or_or_comm

/-- The behavior that stands for an option and those that are dropped are all that it came to. -/
theorem exists_mem_optionBehavior {compiled : List Behavior} {l : Leaf} :
    (∃ b ∈ compiled, b.Has l) ↔ (optionBehavior compiled).Has l ∨ ∃ b ∈ compiled.tail, b.Has l := by
  cases compiled with
  | nil =>
    refine iff_of_false (by simp) ?_
    rintro (⟨_ | ⟨ht, _⟩⟩ | ⟨b, hb, _⟩)
    · cases ht
    · cases hb
  | cons b rest =>
    simp only [List.mem_cons, exists_eq_or_imp]
    rfl

theorem meets_compileOptionsNoting {options : List (UInt32 × TaskSpec)} {i : Nat}
    (each : ∀ o ∈ options, Gathers o.2.compileNoting) (env : CompileEnv) (s : CompileState) :
    Meets (compileOptionsNoting i options) env s
      (fun os s' => Gathered s s' fun l => (∃ o ∈ os.1, o.2.Has l) ∨ ∃ b ∈ os.2, b.Has l)
      fun _ _ => True := by
  induction options generalizing i s with
  | nil => exact .none s (by simp)
  | cons o rest ih =>
    rw [List.forall_mem_cons] at each
    simp only [compileOptionsNoting, place, within, meets_bind, meets_read, meets_pure,
      meets_withReader]
    refine (each.1 _ s).imp ?_ fun _ _ _ => trivial
    intro here s' hhere
    refine (ih each.2 s').imp ?_ fun _ _ _ => trivial
    intro others s'' hothers
    refine (hhere.trans hothers).congr fun l => ?_
    have hsplit : here.Has l ↔
        (optionBehavior here.kept).Has l ∨ ∃ b ∈ here.kept.tail ++ here.dropped, b.Has l := by
      unfold Noted.Has
      rw [exists_mem_optionBehavior]
      simp only [List.mem_append, or_and_right, exists_or, or_assoc]
    rw [hsplit, or_or_or_comm]
    simp only [List.mem_cons, List.mem_append, or_and_right, exists_or, exists_eq_left]

theorem gathers_compileChoiceNoting {choices : List (Float × TaskSpec)} {i ahead : Nat}
    (each : ∀ c ∈ choices, Gathers c.2.compileNoting) :
    Gathers (compileChoiceNoting i ahead choices) := by
  induction choices generalizing ahead with
  | nil => exact fun _ _ => trivial
  | cons c rest ih =>
    rw [List.forall_mem_cons] at each
    cases ahead with
    | zero =>
      intro env s
      simp only [compileChoiceNoting, place, within, meets_bind, meets_read, meets_pure,
        meets_withReader]
      exact each.1 _ s
    | succ ahead => exact ih each.2

/-- Compiling a task collects what the leaves of it declare, those that are kept and those that are dropped,
and nothing else. -/
theorem gathers_compileNoting (t : TaskSpec) : Gathers t.compileNoting := by
  induction t using byGroups with
  | leaf l =>
    rw [compileNoting]
    exact l.serves_compile.gathers
  | allOf condition tasks ih =>
    rw [compileNoting]
    exact (gathers_compileTasksNoting ih).given condition
  | oneOf condition options ih =>
    rw [compileNoting]
    refine Gathers.given (fun env s => ?_) condition
    rw [meets_bind]
    refine ((judges_simplify condition _).meets env s).imp ?_ fun _ _ _ => trivial
    rintro guard s' rfl
    rw [meets_bind]
    refine (meets_compileOptionsNoting ih env s').imp ?_ fun _ _ _ => trivial
    intro compiled s'' h
    refine h.congr fun l => ?_
    simp only [Noted.Has, List.mem_singleton, exists_eq_left, Tree.has_gate_choice]
  | random condition choices ih =>
    rw [compileNoting]
    refine Gathers.given (fun env s => ?_) condition
    simp only [draw, meets_bind, meets_get, meets_set, meets_pure]
    cases pickWeighted (choices.map Prod.fst) s.random.unit.1 with
    | some i =>
      refine (gathers_compileChoiceNoting ih env _).imp ?_ fun _ _ _ => trivial
      exact fun n s' h => ⟨h.memories, h.sensors, h.fresh⟩
    | none => exact trivial

end TaskSpec

/-! ## Brains -/

namespace Engine

open Compile CompileState

/-- Compiles tasks as `compileTasks` does, and notes what is dropped. -/
def compileTasksNoting : List PlacedTask → Compile (List CompiledTask × List Behavior)
  | [] => return ([], [])
  | t :: rest => do
    let here ← Compile.within t.place t.task.compileNoting
    let (others, dropped) ← compileTasksNoting rest
    return (⟨t.activity, t.priority, here.kept⟩ :: others, here.dropped ++ dropped)

theorem fst_compileTasksNoting (tasks : List PlacedTask) :
    Prod.fst <$> compileTasksNoting tasks = compileTasks tasks := by
  induction tasks with
  | nil => rfl
  | cons t rest ih =>
    simp only [compileTasksNoting, compileTasks, ← t.task.kept_compileNoting, ← ih,
      TaskSpec.kept_within, map_bind, bind_map_left, map_pure]

theorem meets_compileTasksNoting (tasks : List PlacedTask) (env : CompileEnv) (s : CompileState) :
    Meets (compileTasksNoting tasks) env s
      (fun compiled s' => Gathered s s' fun l =>
        (∃ t ∈ compiled.1, ∃ b ∈ t.behaviors, b.Has l) ∨ ∃ b ∈ compiled.2, b.Has l)
      fun _ _ => True := by
  induction tasks generalizing s with
  | nil => exact .none s (by simp)
  | cons t rest ih =>
    simp only [compileTasksNoting, within, meets_bind, meets_pure, meets_withReader]
    refine (t.task.gathers_compileNoting _ s).imp ?_ fun _ _ _ => trivial
    intro here s' hhere
    refine (ih s').imp ?_ fun _ _ _ => trivial
    intro others s'' hothers
    refine (hhere.trans hothers).congr fun l => ?_
    unfold Noted.Has
    rw [or_or_or_comm]
    simp only [List.mem_cons, List.mem_append, or_and_right, exists_or, exists_eq_left]

/-- The behaviors that are compiled and dropped when a brain is made. -/
def dropped (e : Engine) (t : Template) (spawn : Spawn) (agent : AgentView) (clock : Clock)
    (random : Random) : List Behavior :=
  match spawnVariables t spawn with
  | .error _ => []
  | .ok table =>
    match (compileTasksNoting t.tasks).runOn ⟨t.place, agent, table, e.chainLimit, clock⟩ { random } with
    | (.ok (_, dropped), _) => dropped
    | (.error _, _) => []

variable {e : Engine} {t : Template} {spawn : Spawn} {agent : AgentView} {clock : Clock}
  {random random' : Random} {brain : Brain}

/-- What a brain has is what was gathered for it from nothing. -/
theorem gathered_of_instantiate
    (h : e.instantiate t spawn agent clock random = (.ok brain, random')) :
    Gathered { random } ⟨random', brain.memories, brain.sensors⟩ fun l =>
      brain.Has l ∨ ∃ b ∈ e.dropped t spawn agent clock random, b.Has l := by
  unfold instantiate at h
  unfold dropped
  cases htable : spawnVariables t spawn with
  | error cause =>
    rw [htable] at h
    cases h
  | ok table =>
    rw [htable] at h
    dsimp only at h ⊢
    have hmeets :=
      meets_compileTasksNoting t.tasks ⟨t.place, agent, table, e.chainLimit, clock⟩ { random }
    rw [← fst_compileTasksNoting, runOn_map] at h
    unfold Meets at hmeets
    unfold runOn at h ⊢
    split at hmeets
    · next compiled s hrun =>
      rw [hrun] at h ⊢
      cases h
      exact hmeets.congr fun l => or_congr_left Brain.has_ofTasks.symm
    · next hrun =>
      rw [hrun] at h
      cases h

/-- What a brain is provided with. Each leaf in it finds what it asks about, what it remembers and senses
and what its sensors write; and there is nothing else, but what was declared by leaves that were dropped. -/
theorem provided_of_instantiate
    (h : e.instantiate t spawn agent clock random = (.ok brain, random')) :
    (∀ l, brain.Has l →
      (∀ r ∈ l.needs.requirements, brain.memories.contains r.key) ∧
      (∀ key ∈ l.needs.memories, brain.memories.contains key) ∧
      ∀ kind ∈ l.needs.sensors, brain.sensors.contains kind ∧
        ∀ key ∈ kind.memories, brain.memories.contains key) ∧
    (∀ key, brain.memories.contains key ↔
      ∃ l, (brain.Has l ∨ ∃ b ∈ e.dropped t spawn agent clock random, b.Has l) ∧ l.Declares key) ∧
    ∀ kind, brain.sensors.contains kind ↔
      ∃ l, (brain.Has l ∨ ∃ b ∈ e.dropped t spawn agent clock random, b.Has l) ∧
        kind ∈ l.needs.sensors := by
  have hgathered := gathered_of_instantiate h
  have hmemories (key : MemoryKey) : brain.memories.contains key ↔
      ∃ l, (brain.Has l ∨ ∃ b ∈ e.dropped t spawn agent clock random, b.Has l) ∧ l.Declares key :=
    (hgathered.memories key).trans (or_iff_right Bool.false_ne_true)
  have hsensors (kind : SensorKind) : brain.sensors.contains kind ↔
      ∃ l, (brain.Has l ∨ ∃ b ∈ e.dropped t spawn agent clock random, b.Has l) ∧
        kind ∈ l.needs.sensors :=
    (hgathered.sensors kind).trans (or_iff_right Bool.false_ne_true)
  refine ⟨fun l hl => ?_, hmemories, hsensors⟩
  have hdeclared {key : MemoryKey} (hkey : l.Declares key) : brain.memories.contains key :=
    (hmemories key).mpr ⟨l, .inl hl, hkey⟩
  refine ⟨fun r hr => hdeclared ?_, fun key hkey => hdeclared (.inl hkey), fun kind hkind => ?_⟩
  · exact (l.requires_needed r hr).imp id List.mem_flatMap.mp
  · exact ⟨(hsensors kind).mpr ⟨l, .inl hl, hkind⟩, fun key hkey => hdeclared (.inr ⟨kind, hkind, hkey⟩)⟩

/-- A bee that calms down, and would go to sleep if its option were not to keep one behavior only: what
going to sleep declared is there, and so is what calming down asks about. -/
theorem provided_of_instantiate_bee :
    let option : TaskSpec := .allOf (.bool true) [.leaf (.calmDown .idle), .leaf (.goToSleep .rest)]
    let t : Template :=
      { name := "bee", species := "bee", enabled := true, maxHealth := 20.0, defaultActivity := .idle
        overrides := .empty, declarations := [], herd := {}
        activities := [⟨.idle, [⟨0, .oneOf (.bool true) [(1, option)]⟩]⟩] }
    let spawn : Spawn := { template := "bee", position := ⟨0, 0, 0⟩, overrides := .empty }
    let agent := newborn t spawn ⟨0⟩
    ∃ brain random',
      ({} : Engine).instantiate t spawn agent ⟨.zero, 24000⟩ (.ofSeed 0) = (.ok brain, random') ∧
      ({} : Engine).dropped t spawn agent ⟨.zero, 24000⟩ (.ofSeed 0) = [.leaf (.goToSleep .rest)] ∧
      brain.Has (.calmDown .idle) ∧ brain.memories.contains .hurtBy ∧
      brain.memories.contains .sleeping := by
  intro option t spawn agent
  have hdropped : ({} : Engine).dropped t spawn agent ⟨.zero, 24000⟩ (.ofSeed 0) =
      [.leaf (.goToSleep .rest)] := rfl
  obtain ⟨memories, sensors, random', hrun⟩ : ∃ memories sensors random',
      ({} : Engine).instantiate t spawn agent ⟨.zero, 24000⟩ (.ofSeed 0) =
        (.ok (.ofTasks ⟨0⟩ ⟨.empty⟩ [⟨.idle, 0, [.gate (.constant (.bool true))
          (.choice [(1, .leaf (.calmDown .idle))])]⟩] memories sensors), random') := ⟨_, _, _, rfl⟩
  have hcalms : (Brain.ofTasks ⟨0⟩ ⟨.empty⟩ [⟨.idle, 0, [.gate (.constant (.bool true))
      (.choice [(1, .leaf (.calmDown .idle))])]⟩] memories sensors).Has (.calmDown .idle) :=
    Brain.has_ofTasks.mpr ⟨_, List.mem_singleton_self _, _, List.mem_singleton_self _,
      .gate (.choice (List.mem_singleton_self _) .leaf)⟩
  obtain ⟨hneeds, hmemories, _⟩ := provided_of_instantiate hrun
  refine ⟨_, random', hrun, hdropped, hcalms, ?_, ?_⟩
  · exact (hneeds _ hcalms).1 (.empty .hurtBy) (by decide)
  · refine (hmemories .sleeping).mpr ⟨.goToSleep .rest, .inr ?_, .inl (by decide)⟩
    rw [hdropped]
    exact ⟨_, List.mem_singleton_self _, .leaf⟩

end Engine

end Menagerie
