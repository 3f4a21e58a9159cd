import Menagerie.Proofs.Effect
import Menagerie.Proofs.Task.Registry
import Menagerie.Simulation.Engine

/-!
# How tasks are compiled

Compiling a task puts steps together. Most of them only judge a binding (`Compile.Judges`): they change
nothing, and complain of nothing but the value of a parameter (`ContentError.OfValue`) where the binding
resolves. A task without tasks inside it judges bindings and then serves one leaf or none, whatever its
parameters are (`LeafSpec.serves_compile`); what a leaf needs is collected as it is served.

What is kept as steps are put together (`Compile.Composes`) is so of all compiling, if it is so of drawing.
In particular there is no complaint but of values, if the bindings of a task resolve and its random groups
draw (`TaskSpec.blamesValues_compile`).
-/

namespace Menagerie

/-- Complaints that depend on what values parameters have for an agent. -/
inductive ContentError.OfValue : ContentError → Prop
  | invalidParameter {place field why} : OfValue (.invalidParameter place field why)
  | expression {place cause} : OfValue (.expression place cause)

/-- Whether a leaf has nothing counted yet. -/
def Leaf.Fresh : Leaf → Prop
  | .pollinateFlower _ _ stay => stay = {}
  | _ => True

namespace Compile

variable {α : Type}

theorem runOn_bind {β : Type} (step : Compile α) (f : α → Compile β) (env : CompileEnv)
    (s : CompileState) :
    (step >>= f).runOn env s =
      match step.runOn env s with
      | (.ok a, s') => (f a).runOn env s'
      | (.error e, s') => (.error e, s') := by
  unfold runOn
  rw [ReaderT.run_bind, ExceptT.run_bind, StateT.run_bind]
  obtain ⟨outcome, s', hrun⟩ : ∃ outcome s', (step.run env).run.run s = (outcome, s') := ⟨_, _, rfl⟩
  rw [hrun]
  cases outcome with
  | ok a => rfl
  | error e => rfl

theorem runOn_map {β : Type} (f : α → β) (step : Compile α) (env : CompileEnv) (s : CompileState) :
    (f <$> step).runOn env s = ((step.runOn env s).1.map f, (step.runOn env s).2) := by
  rw [map_eq_pure_bind, runOn_bind]
  obtain ⟨outcome, s', hrun⟩ : ∃ outcome s', step.runOn env s = (outcome, s') := ⟨_, _, rfl⟩
  rw [hrun]
  cases outcome with
  | ok a => rfl
  | error e => rfl

/-- Whether a step only judges in given surroundings: it changes nothing and goes by nothing else, and it
complains of nothing but values where what was checked of the variables holds. -/
def JudgesIn (env : CompileEnv) (checked : VariableTable → Prop) (step : Compile α) : Prop :=
  ∃ outcome : Except ContentError α, (∀ s, step.runOn env s = (outcome, s)) ∧
    ∀ e, outcome = .error e → checked env.table → e.OfValue

/-- Whether a step only judges, wherever it is. -/
def Judges (checked : VariableTable → Prop) (step : Compile α) : Prop :=
  ∀ env, JudgesIn env checked step

section Judges

variable {β : Type} {checked : VariableTable → Prop}

theorem Judges.bind {step : Compile α} {f : α → Compile β} (h : Judges checked step)
    (hf : ∀ a, Judges checked (f a)) : Judges checked (step >>= f) := by
  intro env
  obtain ⟨outcome, hrun, hvalue⟩ := h env
  cases outcome with
  | ok a =>
    obtain ⟨outcome', hrun', hvalue'⟩ := hf a env
    refine ⟨outcome', fun s => ?_, hvalue'⟩
    rw [runOn_bind, hrun]
    exact hrun' s
  | error e =>
    refine ⟨.error e, fun s => by rw [runOn_bind, hrun], ?_⟩
    rintro _ ⟨⟩
    exact hvalue e rfl

/-- What comes after the surroundings were read is judged in these surroundings. -/
theorem judges_read_bind {f : CompileEnv → Compile α} (h : ∀ env, JudgesIn env checked (f env)) :
    Judges checked (read >>= f) := h

theorem judges_pure (a : α) : Judges checked (pure a) :=
  fun _ => ⟨.ok a, fun _ => rfl, fun _ he => nomatch he⟩

theorem judgesIn_throw {env : CompileEnv} {e : ContentError} (he : checked env.table → e.OfValue) :
    JudgesIn env checked (throw e : Compile α) := by
  refine ⟨.error e, fun _ => rfl, ?_⟩
  rintro _ ⟨⟩
  exact he

theorem judges_refuse (field : String) (why : Objection) :
    Judges checked (refuse (α := α) field why) :=
  fun _ => judgesIn_throw fun _ => .invalidParameter

theorem judges_finite (field : String) (x : Float) : Judges checked (finite field x) := by
  unfold finite
  split
  · exact judges_pure x
  · exact judges_refuse field _

/-- A binding that resolves is complained of for its value only. -/
theorem judges_simplify (b : Binding) (field : String) : Judges b.Resolves (simplify b field) := by
  refine judges_read_bind fun env => ?_
  cases hp : b.simplify env.table (env.place.field field) with
  | error e =>
    refine judgesIn_throw fun hresolves => ?_
    obtain ⟨p, hp'⟩ := Binding.exists_simplify_iff.mpr hresolves
    rw [hp] at hp'
    cases hp'
  | ok p =>
    dsimp only
    split
    · exact (judges_finite field _).bind (fun _ => judges_pure _) env
    · exact judges_pure _ env

theorem judges_evaluate (look : Nat → Scope → Param → Except EvalError α) (b : Binding)
    (field : String) : Judges b.Resolves (evaluate look b field) := by
  refine (judges_simplify b field).bind fun p => judges_read_bind fun env => ?_
  cases look env.chainLimit (.ofAgent env.agent.query env.clock env.table) p with
  | ok a => exact judges_pure a env
  | error e => exact judgesIn_throw fun _ => .expression

theorem judges_bool (b : Binding) (field : String) : Judges b.Resolves (bool b field) :=
  judges_evaluate _ b field

theorem judges_number (b : Binding) (field : String) : Judges b.Resolves (number b field) :=
  (judges_evaluate _ b field).bind (judges_finite field)

theorem judges_ticks (b : Binding) (field : String) : Judges b.Resolves (ticks b field) := by
  refine (judges_evaluate _ b field).bind ?_
  intro n
  split
  · exact judges_refuse field _
  · exact judges_pure _

theorem judges_interval (b : Binding) (field : String) : Judges b.Resolves (interval b field) := by
  refine (judges_evaluate _ b field).bind ?_
  intro n
  split
  · exact judges_refuse field _
  · exact judges_pure _

theorem Judges.meets {step : Compile α} (h : Judges checked step) (env : CompileEnv)
    (s : CompileState) :
    Meets step env s (fun _ s' => s' = s) (fun e s' => s' = s ∧ (checked env.table → e.OfValue)) := by
  obtain ⟨outcome, hrun, hvalue⟩ := h env
  have hrun' : (step.run env).run.run s = (outcome, s) := hrun s
  unfold Meets
  rw [hrun']
  cases outcome with
  | ok a => rfl
  | error e => exact ⟨rfl, hvalue e rfl⟩

end Judges

/-- Whether a step serves one fresh leaf or none, once it has judged some of the given bindings. -/
inductive Serves (bindings : List (String × Binding)) : Compile (List Behavior) → Prop
  | single (l : Leaf) (hl : l.Fresh := by first | exact trivial | exact rfl) : Serves bindings (single l)
  | none : Serves bindings (return [])
  | refuse (field : String) (why : Objection) : Serves bindings (refuse field why)
  | look {α : Type} {b : Binding} {step : Compile α} {f : α → Compile (List Behavior)}
      (hstep : Judges b.Resolves step) (hf : ∀ a, Serves bindings (f a))
      (hb : b ∈ bindings.map Prod.snd := by simp [LeafSpec.bindings]) : Serves bindings (step >>= f)

theorem Serves.given {bindings : List (String × Binding)} {condition : Binding}
    {step : Compile (List Behavior)} (h : Serves bindings step)
    (hcondition : condition ∈ bindings.map Prod.snd := by simp [LeafSpec.bindings]) :
    Serves bindings (given condition step) := by
  refine .look (judges_bool condition "condition") (fun holds => ?_) hcondition
  split
  · exact h
  · exact .none

end Compile

/-! ## Leaves -/

/-- A leaf asks only about keys that it needs, itself or by way of its sensors. -/
theorem Leaf.requires_needed (l : Leaf) : ∀ r ∈ l.needs.requirements,
    r.key ∈ l.needs.memories ∨ r.key ∈ l.needs.sensors.flatMap SensorKind.memories := by
  cases l <;> simp [needs, Requirement.present, Requirement.empty, Requirement.registered,
    SensorKind.memories]

namespace CompileState

/-- What is collected once a leaf was provided for. -/
def collect (s : CompileState) (needs : Needs) : CompileState :=
  { s with
    memories := (s.memories.addAll needs.memories).addAll
      (needs.sensors.flatMap SensorKind.memories)
    sensors := s.sensors.addAll needs.sensors }

theorem contains_memories_collect {s : CompileState} {needs : Needs} {key : MemoryKey} :
    (s.collect needs).memories.contains key ↔
      key ∈ needs.sensors.flatMap SensorKind.memories ∨ key ∈ needs.memories ∨
        s.memories.contains key := by
  unfold collect
  rw [SortedSet.contains_addAll, SortedSet.contains_addAll]

theorem contains_sensors_collect {s : CompileState} {needs : Needs} {kind : SensorKind} :
    (s.collect needs).sensors.contains kind ↔ kind ∈ needs.sensors ∨ s.sensors.contains kind :=
  SortedSet.contains_addAll _ _ _

/-- No requirement of a leaf is missing once the leaf was provided for. -/
theorem find?_collect (s : CompileState) (l : Leaf) :
    (l.needs.requirements.find? fun r => !(s.collect l.needs).memories.contains r.key) = none := by
  rw [List.find?_eq_none]
  intro r hr
  have hcontains : (s.collect l.needs).memories.contains r.key := by
    rw [contains_memories_collect]
    obtain h | h := l.requires_needed r hr
    · exact .inr (.inl h)
    · exact .inl h
  simp [hcontains]

end CompileState

namespace Compile

open CompileState

/-- A leaf is always served, and what it needs is collected. -/
theorem meets_single {l : Leaf} {env : CompileEnv} {s : CompileState}
    {good : List Behavior → CompileState → Prop} {bad : ContentError → CompileState → Prop} :
    Meets (single l) env s good bad ↔ good [.leaf l] (s.collect l.needs) := by
  simp only [single, provide, addMemories, addSensors, meets_bind, meets_modify, meets_get]
  have hfind := find?_collect s l
  unfold collect at hfind
  rw [hfind]
  rfl

theorem runOn_single (l : Leaf) (env : CompileEnv) (s : CompileState) :
    (single l).runOn env s = (.ok [.leaf l], s.collect l.needs) := by
  have h : Meets (single l) env s (fun bs s' => bs = [.leaf l] ∧ s' = s.collect l.needs)
      fun _ _ => False := meets_single.mpr ⟨rfl, rfl⟩
  unfold Meets at h
  split at h
  · next hrun =>
    obtain ⟨rfl, rfl⟩ := h
    exact hrun
  · exact h.elim

end Compile

open Compile in
theorem LeafSpec.serves_compile (l : LeafSpec) : Serves l.bindings l.compile := by
  cases l with
  | doNothing => exact .single _
  | wander condition chance horizontalRange verticalRange speed cooldownTicks =>
    refine .given ?_
    refine .look (judges_simplify chance _) fun _ => ?_
    refine .look (judges_simplify horizontalRange _) fun _ => ?_
    refine .look (judges_simplify verticalRange _) fun _ => ?_
    refine .look (judges_simplify speed _) fun _ => ?_
    refine .look (judges_ticks cooldownTicks _) fun _ => ?_
    exact .single _
  | fleeAttacker condition speed desiredDistance =>
    refine .given ?_
    refine .look (judges_number speed _) fun _ => ?_
    refine .look (judges_number desiredDistance _) fun _ => ?_
    exact .single _
  | switchToPanicWhenHurt condition => exact .given (.single _)
  | calmDown activity => exact .single _
  | retaliate condition => exact .given (.single _)
  | meleeAttack range cooldownTicks chaseSpeed =>
    refine .look (judges_number range _) fun _ => ?_
    refine .look (judges_ticks cooldownTicks _) fun _ => ?_
    refine .look (judges_number chaseSpeed _) fun _ => ?_
    exact .single _
  | findRestingPlace horizontalRange verticalRange speed cooldownTicks =>
    refine .look (judges_number horizontalRange _) fun _ => ?_
    refine .look (judges_number verticalRange _) fun _ => ?_
    refine .look (judges_simplify speed _) fun _ => ?_
    refine .look (judges_ticks cooldownTicks _) fun _ => ?_
    exact .single _
  | goToSleep activity => exact .single _
  | wakeUp activity => exact .single _
  | moveIntoFluid fluid condition horizontalRange verticalRange speed cooldownTicks =>
    rw [compile]
    split
    · refine .given ?_
      refine .look (judges_number horizontalRange _) fun _ => ?_
      refine .look (judges_number verticalRange _) fun _ => ?_
      refine .look (judges_simplify speed _) fun _ => ?_
      refine .look (judges_ticks cooldownTicks _) fun _ => ?_
      exact .single _
    · exact .refuse "fluid" _
  | moveToItem condition speed maxDistance maxAttempts disableTicks =>
    refine .look (judges_ticks maxAttempts _) fun _ => ?_
    refine .look (judges_simplify condition _) fun _ => ?_
    refine .look (judges_number speed _) fun _ => ?_
    refine .look (judges_number maxDistance _) fun _ => ?_
    refine .look (judges_ticks disableTicks _) fun _ => ?_
    exact .single _
  | pathToFlower speed => exact .look (judges_simplify _ _) fun _ => .single _
  | pollinateFlower requiredTicks cooldownTicks =>
    refine .look (judges_interval requiredTicks _) fun _ => ?_
    refine .look (judges_ticks cooldownTicks _) fun _ => ?_
    exact .single _
  | findHerdLeader checkTicks => exact .look (judges_interval _ _) fun _ => .single _
  | maintainHerdLeader checkTicks => exact .look (judges_interval _ _) fun _ => .single _
  | countFollowers checkTicks => exact .look (judges_interval _ _) fun _ => .single _
  | followHerdLeader tooFar closeEnough followChance speed =>
    refine .look (judges_number tooFar _) fun _ => ?_
    refine .look (judges_number closeEnough _) fun _ => ?_
    refine .look (judges_number followChance _) fun _ => ?_
    refine .look (judges_simplify speed _) fun _ => ?_
    exact .single _
  | switchToHerd => exact .single _
  | switchFromHerd activity => exact .single _

/-! ## Putting steps together -/

namespace Compile

/-- Whether a property of steps is kept as steps are put together. What only judges has it where what is to be
checked of the variables is known, and so has what serves a leaf. -/
structure Composes (known : (VariableTable → Prop) → Prop) (p : (α : Type) → Compile α → Prop) : Prop where
  vacuous : known fun _ => True
  judges : ∀ {α : Type} {checked : VariableTable → Prop} {step : Compile α},
    known checked → Judges checked step → p α step
  single : ∀ l, p _ (single l)
  bind : ∀ {α β : Type} {step : Compile α} {f : α → Compile β},
    p α step → (∀ a, p β (f a)) → p β (step >>= f)
  within : ∀ {α : Type} {step : Compile α}, p α step → ∀ place, p α (within place step)

namespace Composes

variable {known : (VariableTable → Prop) → Prop} {p : (α : Type) → Compile α → Prop}

theorem pure {α : Type} (hp : Composes known p) (a : α) : p α (pure a) :=
  hp.judges hp.vacuous (judges_pure a)

theorem place (hp : Composes known p) : p _ place :=
  hp.judges hp.vacuous (judges_read_bind fun env => judges_pure env.place env)

theorem given (hp : Composes known p) {condition : Binding} {step : Compile (List Behavior)}
    (hcondition : known condition.Resolves) (h : p _ step) : p _ (given condition step) := by
  refine hp.bind (hp.judges hcondition (judges_bool condition "condition")) fun holds => ?_
  split
  · exact h
  · exact hp.pure _

theorem serves (hp : Composes known p) {bindings : List (String × Binding)}
    {step : Compile (List Behavior)} (h : Serves bindings step)
    (hbindings : ∀ b ∈ bindings, known b.2.Resolves) : p _ step := by
  induction h with
  | single l _ => exact hp.single l
  | none => exact hp.pure _
  | refuse field why => exact hp.judges hp.vacuous (judges_refuse field why)
  | look hstep _ hb ih =>
    obtain ⟨entry, hentry, rfl⟩ := List.mem_map.mp hb
    exact hp.bind (hp.judges (hbindings entry hentry) hstep) ih

theorem compileTasks (hp : Composes known p) {tasks : List TaskSpec} {i : Nat}
    (each : ∀ t ∈ tasks, p _ t.compile) : p _ (TaskSpec.compileTasks i tasks) := by
  induction tasks generalizing i with
  | nil => exact hp.pure _
  | cons t rest ih =>
    rw [List.forall_mem_cons] at each
    refine hp.bind hp.place fun _ => hp.bind (hp.within each.1 _) fun _ => ?_
    exact hp.bind (ih each.2) fun _ => hp.pure _

theorem compileOptions (hp : Composes known p) {options : List (UInt32 × TaskSpec)} {i : Nat}
    (each : ∀ o ∈ options, p _ o.2.compile) : p _ (TaskSpec.compileOptions i options) := by
  induction options generalizing i with
  | nil => exact hp.pure _
  | cons o rest ih =>
    rw [List.forall_mem_cons] at each
    refine hp.bind hp.place fun _ => hp.bind (hp.within each.1 _) fun _ => ?_
    exact hp.bind (ih each.2) fun _ => hp.pure _

theorem compileChoice (hp : Composes known p) {choices : List (Float × TaskSpec)} {i ahead : Nat}
    (each : ∀ c ∈ choices, p _ c.2.compile) (hahead : ahead < choices.length) :
    p _ (TaskSpec.compileChoice i ahead choices) := by
  induction choices generalizing ahead with
  | nil => exact absurd hahead (Nat.not_lt_zero _)
  | cons c rest ih =>
    rw [List.forall_mem_cons] at each
    cases ahead with
    | zero => exact hp.bind hp.place fun _ => hp.within each.1 _
    | succ ahead => exact ih each.2 (Nat.lt_of_succ_lt_succ hahead)

/-- A random group draws and compiles what it drew; or it complains, if it may come to that. -/
theorem random (hp : Composes known p) {condition : Binding} {choices : List (Float × TaskSpec)}
    (hcondition : known condition.Resolves) (hdraw : p _ draw)
    (hnone : ∀ x, pickWeighted (choices.map Prod.fst) x = none → ∀ e, p (List Behavior) (throw e))
    (each : ∀ c ∈ choices, p _ c.2.compile) : p _ (TaskSpec.random condition choices).compile := by
  refine hp.given hcondition (hp.bind hdraw fun x => ?_)
  cases hpick : pickWeighted (choices.map Prod.fst) x with
  | some i => exact hp.compileChoice each (by simpa using pickWeighted_lt hpick)
  | none => exact hp.bind hp.place fun _ => hnone x hpick _

/-- All tasks compile in steps of a kind, if those random groups do that there are. -/
theorem compile (hp : Composes known p) {q : TaskSpec → Prop}
    (hknown : ∀ t, q t → ∀ b ∈ t.bindings, known b.2.Resolves)
    (hrandom : ∀ condition choices, q (.random condition choices) →
      (∀ c ∈ choices, p _ c.2.compile) → p _ (TaskSpec.random condition choices).compile)
    {t : TaskSpec} (h : t.Every q) : p _ t.compile := by
  induction h with
  | @leaf l hq => exact hp.serves l.serves_compile (hknown _ hq)
  | @allOf condition _ hq _ ih =>
    exact hp.given (hknown _ hq ("condition", condition) (.head _)) (hp.compileTasks ih)
  | @oneOf condition _ hq _ ih =>
    have hcondition := hknown _ hq ("condition", condition) (.head _)
    refine hp.given hcondition (hp.bind (hp.judges hcondition (judges_simplify condition _)) fun _ => ?_)
    exact hp.bind (hp.compileOptions ih) fun _ => hp.pure _
  | random hq _ ih => exact hrandom _ _ hq ih

theorem compileAll (hp : Composes known p) {tasks : List PlacedTask}
    (each : ∀ t ∈ tasks, p _ t.task.compile) : p _ (Engine.compileTasks tasks) := by
  induction tasks with
  | nil => exact hp.pure _
  | cons t rest ih =>
    rw [List.forall_mem_cons] at each
    exact hp.bind (hp.within each.1 _) fun _ => hp.bind (ih each.2) fun _ => hp.pure _

end Composes

/-! ## Complaints -/

/-- Whether a step complains of nothing but values, with the variables of a table. -/
def BlamesValues (table : VariableTable) {α : Type} (step : Compile α) : Prop :=
  ∀ env s, env.table = table → Meets step env s (fun _ _ => True) fun e _ => e.OfValue

theorem BlamesValues.composes (table : VariableTable) :
    Composes (fun checked => checked table) fun _ => BlamesValues table where
  vacuous := trivial
  judges hchecked h env s htable :=
    (h.meets env s).imp (fun _ _ _ => trivial) fun _ _ he => he.2 (htable ▸ hchecked)
  single _ _ _ _ := meets_single.mpr trivial
  bind h hf env s htable := by
    rw [meets_bind]
    exact (h env s htable).imp (fun a s' _ => hf a env s' htable) fun _ _ he => he
  within h place env s htable := by
    rw [Compile.within, meets_withReader]
    exact h _ s htable

end Compile

namespace TaskSpec

/-- Whether the bindings of a task itself resolve, and it draws if it is one that draws. -/
def Ready (table : VariableTable) (t : TaskSpec) : Prop := t.Bound table ∧ t.Draws

/-- Compiling a task complains of nothing but values if every task in it is ready. -/
theorem blamesValues_compile {table : VariableTable} {t : TaskSpec} (h : t.Every (Ready table)) :
    Compile.BlamesValues table t.compile := by
  have hp := Compile.BlamesValues.composes table
  refine hp.compile (fun t ht b hb => ht.1 b hb) (fun condition choices hready each => ?_) h
  refine hp.random (hready.1 ("condition", condition) (.head _)) (fun _ _ _ => trivial) ?_ each
  intro x hnone
  obtain ⟨i, _, hi⟩ := hready.2 x
  rw [hnone] at hi
  cases hi

end TaskSpec

end Menagerie
