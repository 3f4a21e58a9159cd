import Menagerie.Proofs.Task.Compilation
import Menagerie.Template.Reader

/-!
# Valid templates spawn

A template that was read and validated makes an agent, whatever the agent and its surroundings are,
unless a parameter has a value that will not do (`Engine.instantiate_of_validate`). Validation looks at
the bindings of all tasks and compiling at those that it uses, with the values that a spawn puts in
place; both ask the same of the declarations, which no override changes.
-/

namespace Menagerie

namespace Template

/-- The tasks of a template are those that its activities list. -/
theorem exists_of_mem_tasks {t : Template} {placed : PlacedTask} (h : placed ∈ t.tasks) :
    ∃ entry ∈ t.activities, ∃ task ∈ entry.tasks, placed.task = task.task := by
  unfold tasks at h
  obtain ⟨tasks, htasks, hplaced⟩ := List.mem_flatten.mp h
  obtain ⟨a, ha, rfl⟩ := List.mem_mapIdx.mp htasks
  obtain ⟨i, hi, rfl⟩ := List.mem_mapIdx.mp hplaced
  exact ⟨_, List.getElem_mem ha, _, List.getElem_mem hi, rfl⟩

/-! ## Reading -/

theorem readTasks_draws {r : Registry} {activity : Location} {i : Nat} {entries : List TaskEntry}
    {tasks : List PrioritizedTask} (h : readTasks r activity i entries = .ok tasks) :
    ∀ task ∈ tasks, task.task.Every TaskSpec.Draws := by
  induction entries generalizing i tasks with
  | nil =>
    cases h
    simp
  | cons entry rest ih =>
    rw [readTasks] at h
    obtain ⟨task, htask, h⟩ := bind_eq_ok.mp h
    obtain ⟨others, hothers, h⟩ := bind_eq_ok.mp h
    cases h
    rw [List.forall_mem_cons]
    exact ⟨TaskSpec.parse_draws htask, ih hothers⟩

theorem readActivities_draws {r : Registry} {place : Location} {i : Nat} {seen : List Activity}
    {entries : List ActivityEntry} {activities : List ActivityTasks}
    (h : readActivities r place i seen entries = .ok activities) :
    ∀ a ∈ activities, ∀ task ∈ a.tasks, task.task.Every TaskSpec.Draws := by
  induction entries generalizing i seen activities with
  | nil =>
    cases h
    simp
  | cons entry rest ih =>
    rw [readActivities] at h
    dsimp only at h
    split at h
    · cases h
    · obtain ⟨tasks, htasks, h⟩ := bind_eq_ok.mp h
      obtain ⟨others, hothers, h⟩ := bind_eq_ok.mp h
      cases h
      rw [List.forall_mem_cons]
      exact ⟨readTasks_draws htasks, ih hothers⟩

/-- Every random group of a template that was read draws. -/
theorem ofDocument_draws {r : Registry} {origin : String} {d : Document} {t : Template}
    (h : ofDocument r origin d = .ok t) : ∀ placed ∈ t.tasks, placed.task.Every TaskSpec.Draws := by
  unfold ofDocument at h
  split at h
  · cases h
  · obtain ⟨activities, hactivities, h⟩ := bind_eq_ok.mp h
    dsimp only at h
    split at h
    · cases h
      intro placed hplaced
      obtain ⟨entry, hentry, task, htask, heq⟩ := exists_of_mem_tasks hplaced
      rw [heq]
      exact readActivities_draws hactivities entry hentry task htask
    · cases h

/-! ## Validation -/

/-- A check of all entries of a list succeeds where each does. -/
theorem forM_eq_ok {α : Type} {check : α → Except ContentError Unit} {l : List α} :
    l.forM check = .ok () ↔ ∀ a ∈ l, check a = .ok () := by
  induction l with
  | nil => exact iff_of_true rfl (by simp)
  | cons a rest ih =>
    rw [List.forall_mem_cons, ← ih]
    exact then_eq_ok

theorem validate_eq_ok {t : Template} {table : VariableTable} (h : t.validate = .ok table) :
    t.variableTable = .ok table ∧
      ∀ placed ∈ t.tasks, placed.task.Every (TaskSpec.Bound table) := by
  unfold validate at h
  obtain ⟨table', htable, h⟩ := bind_eq_ok.mp h
  obtain ⟨htasks, h⟩ := then_eq_ok.mp h
  split at h
  · cases h
    refine ⟨htable, ?_⟩
    intro placed hplaced
    exact TaskSpec.validate_eq_ok_iff.mp (forM_eq_ok.mp htasks placed hplaced)
  · cases h

end Template

namespace Engine

open Compile

/-- Compiling the tasks of a template complains of nothing but values if every task in it is ready. -/
theorem meets_compileTasks (tasks : List PlacedTask) (env : CompileEnv) (s : CompileState) :
    Meets (compileTasks tasks) env s (fun _ _ => True)
      (fun e _ => (∀ placed ∈ tasks, placed.task.Every (TaskSpec.Ready env.table)) → e.OfValue) := by
  by_cases hready : ∀ placed ∈ tasks, placed.task.Every (TaskSpec.Ready env.table)
  · have hp := BlamesValues.composes env.table
    have hall : BlamesValues env.table (compileTasks tasks) :=
      hp.compileAll fun placed hplaced => TaskSpec.blamesValues_compile (hready placed hplaced)
    exact (hall env s rfl).imp (fun _ _ h => h) fun _ _ he _ => he
  · exact Meets.of_forall (fun _ _ => trivial) fun _ _ h => absurd h hready

/-- A template that was read and found valid makes an agent, or complains of the value of a
parameter and of nothing else, as long as each value that the spawn puts in place is accepted by
the variables of the template. -/
theorem instantiate_of_validate {e : Engine} {origin : String} {d : Document} {t : Template}
    {table : VariableTable} {spawn : Spawn}
    (hread : Template.ofDocument Registry.builtin origin d = .ok t)
    (hvalid : t.validate = .ok table)
    (haccepted : ∀ entry ∈ spawn.overrides.toList,
      ∃ place changed, table.applyOverride entry.1 entry.2 place = .ok changed)
    (agent : AgentView) (clock : Clock) (random : Random) :
    (∃ brain, (e.instantiate t spawn agent clock random).1 = .ok brain) ∨
      ∃ cause, (e.instantiate t spawn agent clock random).1 = .error cause ∧ cause.OfValue := by
  obtain ⟨htable, hbound⟩ := Template.validate_eq_ok hvalid
  obtain ⟨changed, hchanged, same⟩ :=
    VariableTable.applyOverrides_of_each haccepted (t.place.field "overrides")
  have hvariables : spawnVariables t spawn = .ok changed :=
    bind_eq_ok.mpr ⟨table, htable, hchanged⟩
  have hready : ∀ placed ∈ t.tasks, placed.task.Every (TaskSpec.Ready changed) := by
    intro placed hplaced
    have hresolved := (hbound placed hplaced).imp fun _ h => h.of_same same
    exact hresolved.and (Template.ofDocument_draws hread placed hplaced)
  have hmeets :=
    meets_compileTasks t.tasks ⟨t.place, agent, changed, e.chainLimit, clock⟩ { random }
  unfold Meets at hmeets
  simp only [instantiate, hvariables, runOn]
  split at hmeets
  · next compiled s' hrun =>
    rw [hrun]
    exact .inl ⟨_, rfl⟩
  · next cause s' hrun =>
    rw [hrun]
    exact .inr ⟨cause, rfl, hmeets hready⟩

/-- A document whose only task is drawn, and a spawn that changes how fast it walks. -/
theorem instantiate_of_validate_drawn :
    let d : Document := .object [("name", .text "bee"), ("activities", .list
      [.object [("activity", .text "idle"), ("tasks", .list
        [.object [("task", .object [("type", .text "random"), ("choices", .list
          [.object [("task", .object [("type", .text "path_to_flower")])]])])]])]])]
    let t : Template :=
      { name := "bee", species := "bee", enabled := true, maxHealth := 20.0, defaultActivity := .idle
        overrides := .empty, declarations := [], herd := {}
        activities := [⟨.idle,
          [⟨0, .random (.bool true) [(1.0, .leaf (.pathToFlower LeafSpec.walkSpeed))]⟩]⟩] }
    let table : VariableTable := ⟨.ofList [("walk_speed",
      ⟨⟨"movement", "walk_speed", .number, "0.35", none, none⟩, .constant (.number 0.35)⟩)]⟩
    let spawn : Spawn :=
      { template := "bee", position := ⟨0, 0, 0⟩, overrides := .ofList [("walk_speed", .number 0.5)] }
    let outcome := (({} : Engine).instantiate t spawn (newborn t spawn ⟨0⟩) ⟨.zero, 24000⟩
      (.ofSeed 0)).1
    Template.ofDocument Registry.builtin "bee.json" d = .ok t ∧ t.validate = .ok table ∧
      (∀ entry ∈ spawn.overrides.toList,
        ∃ place changed, table.applyOverride entry.1 entry.2 place = .ok changed) ∧
      ((∃ brain, outcome = .ok brain) ∨ ∃ cause, outcome = .error cause ∧ cause.OfValue) := by
  intro d t table spawn outcome
  have hread : Template.ofDocument Registry.builtin "bee.json" d = .ok t := rfl
  have hvalid : t.validate = .ok table := by
    have h : t.validate.toOption = some table := by decide +kernel
    cases hv : t.validate with
    | ok table' =>
      rw [hv] at h
      exact congrArg Except.ok (Option.some.inj h)
    | error cause =>
      rw [hv] at h
      cases h
  have haccepted : ∀ entry ∈ spawn.overrides.toList,
      ∃ place changed, table.applyOverride entry.1 entry.2 place = .ok changed := by
    intro entry hentry
    obtain rfl := List.mem_singleton.mp hentry
    exact ⟨.root "bee", _, rfl⟩
  exact ⟨hread, hvalid, haccepted, instantiate_of_validate hread hvalid haccepted _ _ _⟩

end Engine

end Menagerie
