import Menagerie.Proofs.Variable.Table
import Menagerie.Simulation.Engine

/-!
# The variables of a template

A template has the variables that it declares itself and those that its tasks declare, in the order in which
these are listed. The first declaration of each name counts, the template may put another value in place of
the initial one, and a spawn another in place of that (`Template.variableTable_exact`).
-/

namespace Menagerie

namespace TaskSpec

theorem declarationsOfTasks_eq (tasks : List TaskSpec) :
    declarationsOfTasks tasks = tasks.flatMap declarations := by
  induction tasks with
  | nil => rfl
  | cons t rest ih => rw [declarationsOfTasks, ih, List.flatMap_cons]

theorem declarationsOfOptions_eq (options : List (UInt32 × TaskSpec)) :
    declarationsOfOptions options = options.flatMap fun o => o.2.declarations := by
  induction options with
  | nil => rfl
  | cons o rest ih => rw [declarationsOfOptions, ih, List.flatMap_cons]

theorem declarationsOfChoices_eq (choices : List (Float × TaskSpec)) :
    declarationsOfChoices choices = choices.flatMap fun c => c.2.declarations := by
  induction choices with
  | nil => rfl
  | cons c rest ih => rw [declarationsOfChoices, ih, List.flatMap_cons]

/-- What the entries of a list are given for a place leaves them as they are. -/
theorem map_snd_mapIdx {α β κ : Type} (place : Nat → κ) (f : α → β) (l : List α) :
    (l.mapIdx fun i a => (place i, f a)).map Prod.snd = l.map f := by
  induction l generalizing place with
  | nil => rfl
  | cons a rest ih => rw [List.mapIdx_cons, List.map_cons, List.map_cons, ih fun i => place (i + 1)]

theorem flatMap_mapIdx {α κ : Type} (place : Nat → κ) (task : α → TaskSpec) (l : List α) :
    (l.mapIdx fun i a => (place i, task a)).flatMap (fun child => child.2.declarations) =
      l.flatMap fun a => (task a).declarations := by
  have hchildren := congrArg (List.flatMap declarations) (map_snd_mapIdx place task l)
  rwa [List.flatMap_map, List.flatMap_map] at hchildren

/-- A task declares what its own bindings declare, and then what the tasks inside it declare in order. -/
theorem declarations_eq (spec : TaskSpec) (place : Location) :
    spec.declarations =
      declared spec.bindings ++ (spec.children place).flatMap fun child => child.2.declarations := by
  cases spec with
  | leaf l => rw [declarations, bindings, children, List.flatMap_nil, List.append_nil]
  | allOf condition tasks =>
    rw [declarations, declarationsOfTasks_eq, children, flatMap_mapIdx]
    rfl
  | oneOf condition options =>
    rw [declarations, declarationsOfOptions_eq, children, flatMap_mapIdx]
    rfl
  | random condition choices =>
    rw [declarations, declarationsOfChoices_eq, children, flatMap_mapIdx]
    rfl

end TaskSpec

namespace Template

variable {t : Template}

/-- All declarations of a template: its own, and then those of its tasks in the order in which these are
listed. -/
def allDeclarations (t : Template) : List Declaration :=
  t.declarations ++ t.tasks.flatMap fun placed => placed.task.declarations

/-- The same declarations, each with the place that is told where it is refused. -/
def placedDeclarations (t : Template) : List (Location × Declaration) :=
  (t.declarations.mapIdx fun i d => ((t.place.field "declarations").index i, d)) ++
    t.tasks.flatMap fun placed => placed.task.declarations.map fun d => (placed.place, d)

theorem map_snd_placedDeclarations (t : Template) :
    t.placedDeclarations.map Prod.snd = t.allDeclarations := by
  have hown : (t.declarations.mapIdx fun i d => ((t.place.field "declarations").index i, d)).map Prod.snd =
      t.declarations := by
    rw [TaskSpec.map_snd_mapIdx, List.map_id']
  rw [placedDeclarations, List.map_append, hown, List.map_flatMap]
  simp only [List.map_map, Function.comp_def, List.map_id']
  rfl

theorem declareEach_eq (place : Location) (i : Nat) (ds : List Declaration) (table : VariableTable) :
    declareEach place i ds table = table.declares (ds.mapIdx fun k d => (place.index (i + k), d)) := by
  induction ds generalizing i table with
  | nil => rfl
  | cons d rest ih =>
    rw [declareEach, List.mapIdx_cons]
    refine bind_congr_of_ok fun next _ => ?_
    rw [ih]
    simp only [Nat.add_assoc, Nat.add_comm 1]
    rfl

theorem foldlM_declareAll_eq (tasks : List PlacedTask) (table : VariableTable) :
    tasks.foldlM (fun table task => table.declareAll task.task.declarations task.place) table =
      table.declares (tasks.flatMap fun placed => placed.task.declarations.map fun d => (placed.place, d)) := by
  induction tasks generalizing table with
  | nil => rfl
  | cons placed rest ih =>
    rw [List.foldlM_cons, List.flatMap_cons, VariableTable.declares, List.foldlM_append]
    rw [List.foldlM_map]
    exact bind_congr_of_ok fun next _ => ih next

/-- The variables of a template are declared one by one, and then overridden. -/
theorem variableTable_eq (t : Template) :
    t.variableTable = (do
      let declared ← VariableTable.empty.declares t.placedDeclarations
      declared.applyOverrides t.overrides (t.place.field "variables")) := by
  unfold variableTable placedDeclarations
  rw [VariableTable.declares, List.foldlM_append, declareEach_eq, bind_assoc]
  simp only [foldlM_declareAll_eq, Nat.zero_add]
  rfl

theorem variableTable_eq_ok_iff {table : VariableTable} :
    t.variableTable = .ok table ↔
      ∃ declared, VariableTable.empty.declares t.placedDeclarations = .ok declared ∧
        declared.applyOverrides t.overrides (t.place.field "variables") = .ok table := by
  rw [variableTable_eq, bind_eq_ok]

/-- A template has variables exactly if all its declarations of one name have one kind, the first of each name
has an initial value of its kind, and every value that it puts in place is one of the kind of a declared
variable. It has a variable then for each name that is declared, as the first declaration has it, with the
value put in place if there is one and the initial value if there is none. A spawn may put other values in
place in the same way, and then replaces the values of the variables that it names and nothing else. -/
theorem variableTable_exact (t : Template) :
    (∀ spec place, TaskSpec.declarations spec = TaskSpec.declared spec.bindings ++
      (spec.children place).flatMap fun child => child.2.declarations) ∧
    ((∃ table, t.variableTable = .ok table) ↔
      (∀ d ∈ t.allDeclarations, ∀ d' ∈ t.allDeclarations, d.name = d'.name → d.kind = d'.kind) ∧
      (∀ name d, Declaration.first? t.allDeclarations name = some d → ∃ v, d.initialValue? = some v) ∧
      ∀ entry ∈ t.overrides.toList, ∃ d value,
        Declaration.first? t.allDeclarations entry.1 = some d ∧ entry.2.Gives d.kind value) ∧
    ∀ table, t.variableTable = .ok table →
      (∀ name, table.declaration? name = Declaration.first? t.allDeclarations name) ∧
      (∀ name, name ∉ t.overrides.keys → table.value? name =
        (Declaration.first? t.allDeclarations name).bind fun d => d.initialValue?.map .constant) ∧
      (∀ entry ∈ t.overrides.toList, ∃ d value,
        Declaration.first? t.allDeclarations entry.1 = some d ∧ entry.2.Gives d.kind value ∧
        table.value? entry.1 = some value) ∧
      ∀ spawn, ((∃ changed, Engine.spawnVariables t spawn = .ok changed) ↔
          table.Accepts spawn.overrides.toList) ∧
        ∀ changed, Engine.spawnVariables t spawn = .ok changed →
          table.Overridden spawn.overrides.toList changed := by
  refine ⟨TaskSpec.declarations_eq, ?_, fun table htable => ?_⟩
  · constructor
    · rintro ⟨table, htable⟩
      obtain ⟨declared, hdeclared, hoverridden⟩ := variableTable_eq_ok_iff.mp htable
      have htakes := (VariableTable.exists_declares_iff _ _).mp ⟨declared, hdeclared⟩
      rw [map_snd_placedDeclarations, VariableTable.takes_empty_iff] at htakes
      refine ⟨htakes.1, htakes.2, fun entry hentry => ?_⟩
      rw [← map_snd_placedDeclarations, ← VariableTable.declaration?_of_declares_empty hdeclared]
      exact (declared.exists_applyOverrides_iff t.overrides _).mp ⟨table, hoverridden⟩ entry hentry
    · rintro ⟨hkinds, hinitials, haccepts⟩
      have htakes : VariableTable.empty.Takes (t.placedDeclarations.map Prod.snd) := by
        rw [map_snd_placedDeclarations]
        exact VariableTable.takes_empty_iff.mpr ⟨hkinds, hinitials⟩
      obtain ⟨declared, hdeclared⟩ := (VariableTable.exists_declares_iff _ _).mpr htakes
      have hfirst := VariableTable.declaration?_of_declares_empty hdeclared
      rw [map_snd_placedDeclarations] at hfirst
      have haccepted : declared.Accepts t.overrides.toList := fun entry hentry => by
        rw [hfirst]
        exact haccepts entry hentry
      obtain ⟨table, htable⟩ := (declared.exists_applyOverrides_iff t.overrides _).mpr haccepted
      exact ⟨table, variableTable_eq_ok_iff.mpr ⟨declared, hdeclared, htable⟩⟩
  · obtain ⟨declared, hdeclared, hoverridden⟩ := variableTable_eq_ok_iff.mp htable
    have hover := VariableTable.overridden_of_applyOverrides hoverridden
    have hfirst := VariableTable.declaration?_of_declares_empty hdeclared
    have hvalues := VariableTable.value?_of_declares_empty hdeclared
    rw [map_snd_placedDeclarations] at hfirst hvalues
    refine ⟨fun name => (hover.declaration name).trans (hfirst name),
      fun name hname => (hover.kept name hname).trans (hvalues name), ?_, fun spawn => ?_⟩
    · intro entry hentry
      rw [← hfirst]
      exact hover.replaced entry hentry
    · rw [Engine.spawnVariables, htable, ok_bind]
      exact ⟨table.exists_applyOverrides_iff spawn.overrides _,
        fun changed hchanged => VariableTable.overridden_of_applyOverrides hchanged⟩

/-- A wolf whose own declaration of a speed comes before the one of its task. The template puts another value
in place of one initial value, and a spawn an expression in place of the other. -/
theorem variableTable_exact_wolf :
    let wanders : Binding := .declaring (.boolean "wander" "wanders" true)
    let speed : Binding := .declaring (.number "movement" "walk_speed" 0.35)
    let level : Expression := ⟨"q.entity.level", .path ["q", "entity", "level"]⟩
    let wandering : LeafSpec :=
      .wander wanders (.number 1.0) (.number 8.0) (.number 4.0) speed (.number 40.0)
    let wolf : Template :=
      { name := "wolf", species := "wolf", enabled := true, maxHealth := 20.0
        defaultActivity := .core, overrides := .ofList [("wanders", .text "0")]
        declarations := [.number "movement" "walk_speed" 0.5], herd := {}
        activities := [⟨.core, [⟨0, .allOf (.bool true) [.leaf wandering]⟩]⟩] }
    let spawn : Spawn :=
      { template := "wolf", position := ⟨0, 0, 0⟩, overrides := .ofList [("walk_speed", .expression level)] }
    ∃ table changed, wolf.variableTable = .ok table ∧
      (∀ name, table.declaration? name = Declaration.first? wolf.allDeclarations name) ∧
      wolf.allDeclarations.map Declaration.name = ["walk_speed", "wanders", "walk_speed"] ∧
      table.value? "walk_speed" = some (.constant (.number 0.5)) ∧
      table.value? "wanders" = some (.constant (.bool false)) ∧
      Engine.spawnVariables wolf spawn = .ok changed ∧
      changed.value? "walk_speed" = some (.dynamic level) ∧
      changed.value? "wanders" = table.value? "wanders" := by
  intro wanders speed level wandering wolf spawn
  have hfalse : wolf.variableTable.toOption.any fun table =>
      table.value? "wanders" == some (.constant (.bool false)) := by decide +kernel
  have hlive : (Engine.spawnVariables wolf spawn).toOption.any fun changed =>
      changed.value? "walk_speed" == some (.dynamic level) := by decide +kernel
  obtain ⟨table, htable, hfalse⟩ := (Option.any_eq_true _ _).mp hfalse
  obtain ⟨changed, hchanged, hlive⟩ := (Option.any_eq_true _ _).mp hlive
  rw [beq_iff_eq] at hfalse hlive
  have htable := eq_ok_of_toOption htable
  have hchanged := eq_ok_of_toOption hchanged
  obtain ⟨_, _, hexact⟩ := variableTable_exact wolf
  obtain ⟨hdeclared, hkept, _, hspawns⟩ := hexact table htable
  have hover := (hspawns spawn).2 changed hchanged
  refine ⟨table, changed, htable, hdeclared, by decide +kernel, ?_, hfalse, hchanged, hlive, ?_⟩
  · rw [hkept "walk_speed" (by decide +kernel)]
    decide +kernel
  · exact hover.kept "wanders" (by decide +kernel)

end Template

end Menagerie
