import Mathlib.Logic.Function.Iterate
import Menagerie.Proofs.Task.Folding

/-!
# What compiling may touch

A group of tasks whose guard does not hold compiles to nothing, and nothing in it is looked at
(`TaskSpec.gives_compile_of_closed`). Otherwise the tasks inside it are compiled, each at its own place
(`Compile.each`). How compiling goes through a specification is told by `TaskSpec.Compiles`, where the place of
the node at hand is part of what changes: it is put elsewhere for a task inside a group and put back after it,
also where that task fails. The places at which `random` groups draw are written down on the way.

Every run of the compiler goes like this (`TaskSpec.compiles_compile`). Hence the place is the same after it as
before, what was collected stays collected, and the generator moves once for each place that was written down
(`CompileContext.Grows`).
-/

namespace Menagerie

/-- What compiling changes, with the place of the node at hand. -/
structure CompileContext extends CompileState where
  place : Location

/-- The same surroundings, at another place. -/
def CompileEnv.moved (env : CompileEnv) (place : Location) : CompileEnv := { env with place }

/-- The condition under which a group of tasks is compiled. -/
def TaskSpec.guard? : TaskSpec → Option Binding
  | leaf _ => none
  | allOf condition _ | oneOf condition _ | random condition _ => some condition

namespace Compile

variable {α β : Type} {env : CompileEnv} {s : CompileState}

/-- Whether the guard of a group comes to an outcome. -/
abbrev Guards (env : CompileEnv) (condition : Binding) (outcome : Except ContentError Bool) : Prop :=
  Gives env (bool condition "condition") outcome

/-- A guard that is looked at changes nothing. -/
theorem exists_guards (env : CompileEnv) (condition : Binding) : ∃ outcome, Guards env condition outcome := by
  obtain ⟨outcome, hrun, _⟩ := judges_bool condition "condition" env
  exact ⟨outcome, hrun⟩

/-- A guard that has an outcome is known as a parameter. -/
theorem exists_gives_simplify {condition : Binding} {holds : Bool} (h : Guards env condition (.ok holds)) :
    ∃ p, Gives env (simplify condition "condition") (.ok p) := by
  obtain ⟨outcome, hrun, _⟩ := judges_simplify condition "condition" env
  cases outcome with
  | ok p => exact ⟨p, hrun⟩
  | error why =>
    have hfails : Guards env condition (.error why) := Gives.bind_error hrun
    have heq := (hfails ⟨.ofSeed 0, .empty, .empty⟩).symm.trans (h ⟨.ofSeed 0, .empty, .empty⟩)
    cases heq

section Guard

variable {condition : Binding} {step : Compile (List Behavior)}

theorem gives_given_of_false (h : Guards env condition (.ok false)) : Gives env (given condition step) (.ok []) :=
  h.bind_ok gives_pure

theorem gives_given_of_error {why : ContentError} (h : Guards env condition (.error why)) :
    Gives env (given condition step) (.error why) :=
  h.bind_error

theorem runOn_given_of_true (h : Guards env condition (.ok true)) (s : CompileState) :
    (given condition step).runOn env s = step.runOn env s := by
  unfold given
  rw [runOn_bind, h s]
  rfl

end Guard

/-- Compiles tasks one after the other, each at its own place. -/
def each : List (Location × TaskSpec) → Compile (List (List Behavior))
  | [] => return []
  | (place, t) :: rest => do
    let here ← within place t.compile
    return here :: (← each rest)

theorem runOn_within (place : Location) (step : Compile α) :
    (within place step).runOn env s = step.runOn (env.moved place) s := rfl

theorem runOn_place_bind (f : Location → Compile α) :
    (place >>= f).runOn env s = (f env.place).runOn env s := rfl

/-- What is compiled first may fail; otherwise the others are compiled from where it left off. -/
theorem runOn_each_cons (place : Location) (t : TaskSpec) (rest : List (Location × TaskSpec)) :
    (each ((place, t) :: rest)).runOn env s =
      match t.compile.runOn (env.moved place) s with
      | (.ok here, s') => (((each rest).runOn env s').1.map (here :: ·), ((each rest).runOn env s').2)
      | (.error why, s') => (.error why, s') := by
  have hhere : (each ((place, t) :: rest)).runOn env s =
      (within place t.compile >>= fun here => (here :: ·) <$> each rest).runOn env s := by
    rw [each]
    simp only [map_eq_pure_bind]
  rw [hhere, runOn_bind, runOn_within]
  rcases t.compile.runOn (env.moved place) s with ⟨_ | here, s'⟩
  · rfl
  · exact runOn_map _ _ env s'

end Compile

namespace TaskSpec

open Compile

variable {env : CompileEnv} {s : CompileState} {condition : Binding}

/-! ## Groups -/

/-- A group whose guard does not hold comes to nothing and touches nothing, whatever the tasks inside it are. -/
theorem gives_compile_of_closed {t : TaskSpec} (hguard : t.guard? = some condition)
    (h : Guards env condition (.ok false)) : Gives env t.compile (.ok []) := by
  cases t with
  | leaf l => cases hguard
  | allOf _ _ =>
    cases hguard
    exact gives_given_of_false h
  | oneOf _ _ =>
    cases hguard
    exact gives_given_of_false h
  | random _ _ =>
    cases hguard
    exact gives_given_of_false h

theorem gives_compile_of_error {t : TaskSpec} {why : ContentError} (hguard : t.guard? = some condition)
    (h : Guards env condition (.error why)) : Gives env t.compile (.error why) := by
  cases t with
  | leaf l => cases hguard
  | allOf _ _ =>
    cases hguard
    exact gives_given_of_error h
  | oneOf _ _ =>
    cases hguard
    exact gives_given_of_error h
  | random _ _ =>
    cases hguard
    exact gives_given_of_error h

theorem runOn_compileTasks (env : CompileEnv) (tasks : List TaskSpec) (i : Nat) (s : CompileState) :
    (compileTasks i tasks).runOn env s =
      (List.flatten <$> each (tasks.mapIdx fun j t => ((env.place.field "tasks").index (i + j), t))).runOn env s := by
  induction tasks generalizing i s with
  | nil => rfl
  | cons t rest ih =>
    have hshift : (fun j t => ((env.place.field "tasks").index (i + (j + 1)), t)) =
        fun (j : Nat) (t : TaskSpec) => ((env.place.field "tasks").index (i + 1 + j), t) := by
      funext j t
      rw [Nat.add_assoc, Nat.add_comm 1 j]
    rw [compileTasks, runOn_place_bind, runOn_bind, runOn_within, List.mapIdx_cons, hshift, runOn_map, runOn_each_cons,
      Nat.add_zero]
    rcases (t.compile.runOn (env.moved _) s) with ⟨_ | here, s'⟩
    · rfl
    · dsimp only
      rw [← map_eq_pure_bind, runOn_map, ih, runOn_map]
      cases ((each _).runOn env s').1 with
      | ok units => rfl
      | error why => rfl

theorem runOn_compileOptions (env : CompileEnv) (options : List (UInt32 × TaskSpec)) (i : Nat) (s : CompileState) :
    (compileOptions i options).runOn env s =
      ((fun compiled => (options.map Prod.fst).zip (compiled.map optionBehavior)) <$>
        each (options.mapIdx fun j o => (entryPlace env.place "options" (i + j), o.2))).runOn env s := by
  induction options generalizing i s with
  | nil => rfl
  | cons o rest ih =>
    obtain ⟨weight, t⟩ := o
    have hshift : (fun j (o : UInt32 × TaskSpec) => (entryPlace env.place "options" (i + (j + 1)), o.2)) =
        fun (j : Nat) (o : UInt32 × TaskSpec) => (entryPlace env.place "options" (i + 1 + j), o.2) := by
      funext j t
      rw [Nat.add_assoc, Nat.add_comm 1 j]
    rw [compileOptions, runOn_place_bind, runOn_bind, runOn_within, List.mapIdx_cons, hshift, runOn_map,
      runOn_each_cons, Nat.add_zero]
    rcases (t.compile.runOn (env.moved _) s) with ⟨_ | here, s'⟩
    · rfl
    · dsimp only
      rw [← map_eq_pure_bind, runOn_map, ih, runOn_map]
      cases ((each _).runOn env s').1 with
      | ok units => rfl
      | error why => rfl

theorem runOn_compileChoice (choices : List (Float × TaskSpec)) (i ahead : Nat) (s : CompileState) :
    (compileChoice i ahead choices).runOn env s =
      match choices[ahead]? with
      | some c => c.2.compile.runOn (env.moved (entryPlace env.place "choices" i)) s
      | none => (.error (.emptyChoice (env.place.field "choices")), s) := by
  induction choices generalizing ahead with
  | nil => cases ahead <;> rfl
  | cons c rest ih =>
    cases ahead with
    | zero => rfl
    | succ ahead => exact ih ahead

/-- All tasks are compiled in order, and what they come to is put together. -/
theorem runOn_allOf {tasks : List TaskSpec} (h : Guards env condition (.ok true)) (s : CompileState) :
    (allOf condition tasks).compile.runOn env s =
      (List.flatten <$> each ((allOf condition tasks).children env.place)).runOn env s := by
  have htasks := runOn_compileTasks env tasks 0 s
  simp only [Nat.zero_add] at htasks
  exact (runOn_given_of_true h s).trans htasks

/-- All options are compiled in order, and what they come to makes up one behavior. -/
theorem runOn_oneOf {options : List (UInt32 × TaskSpec)} {p : Param} (h : Guards env condition (.ok true))
    (hp : Gives env (simplify condition "condition") (.ok p)) (s : CompileState) :
    (oneOf condition options).compile.runOn env s =
      ((fun compiled => [.gate p (.choice ((options.map Prod.fst).zip (compiled.map optionBehavior)))]) <$>
        each ((oneOf condition options).children env.place)).runOn env s := by
  have hoptions := runOn_compileOptions env options 0 s
  simp only [Nat.zero_add] at hoptions
  refine (runOn_given_of_true h s).trans ?_
  rw [runOn_bind, hp s]
  dsimp only
  rw [← map_eq_pure_bind, runOn_map, hoptions, runOn_map, runOn_map, children]
  cases ((each _).runOn env s).1 with
  | ok compiled => rfl
  | error why => rfl

/-- The choice that is drawn is compiled, and no other. -/
theorem runOn_random {choices : List (Float × TaskSpec)} (h : Guards env condition (.ok true)) (s : CompileState) :
    (random condition choices).compile.runOn env s =
      match (pickWeighted (choices.map Prod.fst) s.random.unit.1).bind
          (((random condition choices).children env.place)[·]?) with
      | some (place, t) => t.compile.runOn (env.moved place) { s with random := s.random.unit.2 }
      | none => (.error (.emptyChoice (env.place.field "choices")), { s with random := s.random.unit.2 }) := by
  refine (runOn_given_of_true h s).trans ?_
  have hdraw : draw.runOn env s = (.ok s.random.unit.1, { s with random := s.random.unit.2 }) := rfl
  rw [runOn_bind, hdraw]
  dsimp only
  cases pickWeighted (choices.map Prod.fst) s.random.unit.1 with
  | none => rfl
  | some i =>
    dsimp only
    rw [runOn_compileChoice, Option.bind_some, children, List.getElem?_mapIdx]
    cases choices[i]? with
    | none => rfl
    | some c => rfl

end TaskSpec

namespace Compile

/-- What is left once a leaf was served or refused: what the leaf needs is collected, or nothing is. -/
theorem Serves.leaves {bindings : List (String × Binding)} {step : Compile (List Behavior)}
    (h : Serves bindings step) (env : CompileEnv) (s : CompileState) :
    (step.runOn env s).2 = s ∨ ∃ l : Leaf, (step.runOn env s).2 = s.collect l.needs := by
  induction h with
  | single l _ => exact .inr ⟨l, by rw [runOn_single]⟩
  | none => exact .inl rfl
  | refuse field why => exact .inl rfl
  | look hstep _ _ ih =>
    obtain ⟨outcome, hrun, _⟩ := hstep env
    rw [runOn_bind, hrun s]
    cases outcome with
    | ok a => exact ih a
    | error why => exact .inl rfl

end Compile

/-! ## How compiling goes -/

namespace CompileContext

/-- The generator after a draw. -/
def drawn (ctx : CompileContext) : CompileContext := { ctx with random := ctx.random.unit.2 }

/-- The same, at another place. -/
def moved (ctx : CompileContext) (place : Location) : CompileContext := { ctx with place }

end CompileContext

namespace TaskSpec

open Compile

mutual

/-- How a task is compiled: from which context, at which places there is a draw, with which outcome, and which
context is left. -/
inductive Compiles (env : CompileEnv) : TaskSpec → CompileContext → List Location →
    Except ContentError (List Behavior) → CompileContext → Prop
  | leaf {l : LeafSpec} {ctx : CompileContext} {outcome : Except ContentError (List Behavior)} {s : CompileState}
      (hrun : l.compile.runOn (env.moved ctx.place) ctx.toCompileState = (outcome, s)) :
      Compiles env (.leaf l) ctx [] outcome ⟨s, ctx.place⟩
  | fails {t : TaskSpec} {ctx : CompileContext} {condition : Binding} {why : ContentError}
      (hguard : t.guard? = some condition) (h : Guards (env.moved ctx.place) condition (.error why)) :
      Compiles env t ctx [] (.error why) ctx
  | closed {t : TaskSpec} {ctx : CompileContext} {condition : Binding}
      (hguard : t.guard? = some condition) (h : Guards (env.moved ctx.place) condition (.ok false)) :
      Compiles env t ctx [] (.ok []) ctx
  | allOf {condition : Binding} {tasks : List TaskSpec} {ctx ctx' : CompileContext} {places : List Location}
      {outcome : Except ContentError (List (List Behavior))}
      (h : Guards (env.moved ctx.place) condition (.ok true))
      (hall : CompilesEach env ((TaskSpec.allOf condition tasks).children ctx.place) ctx places outcome ctx') :
      Compiles env (.allOf condition tasks) ctx places (outcome.map List.flatten) ctx'
  | oneOf {condition : Binding} {options : List (UInt32 × TaskSpec)} {ctx ctx' : CompileContext} {p : Param}
      {places : List Location} {outcome : Except ContentError (List (List Behavior))}
      (h : Guards (env.moved ctx.place) condition (.ok true))
      (hp : Gives (env.moved ctx.place) (simplify condition "condition") (.ok p))
      (hall : CompilesEach env ((TaskSpec.oneOf condition options).children ctx.place) ctx places outcome ctx') :
      Compiles env (.oneOf condition options) ctx places
        (outcome.map fun compiled =>
          [.gate p (.choice ((options.map Prod.fst).zip (compiled.map optionBehavior)))]) ctx'
  /-- The draw comes before the choice that it picks is compiled. -/
  | random {condition : Binding} {choices : List (Float × TaskSpec)} {ctx ctx' : CompileContext} {i : Nat}
      {place : Location} {t : TaskSpec} {places : List Location} {outcome : Except ContentError (List Behavior)}
      (h : Guards (env.moved ctx.place) condition (.ok true))
      (hpick : pickWeighted (choices.map Prod.fst) ctx.random.unit.1 = some i)
      (hchild : ((TaskSpec.random condition choices).children ctx.place)[i]? = some (place, t))
      (hrest : Compiles env t (ctx.drawn.moved place) places outcome ctx') :
      Compiles env (.random condition choices) ctx (ctx.place :: places) outcome (ctx'.moved ctx.place)
  | empty {condition : Binding} {choices : List (Float × TaskSpec)} {ctx : CompileContext}
      (h : Guards (env.moved ctx.place) condition (.ok true))
      (hpick : (pickWeighted (choices.map Prod.fst) ctx.random.unit.1).bind
        (((TaskSpec.random condition choices).children ctx.place)[·]?) = none) :
      Compiles env (.random condition choices) ctx [ctx.place]
        (.error (.emptyChoice (ctx.place.field "choices"))) ctx.drawn

/-- How tasks inside a group are compiled, up to the first that fails. After each the place is put back. -/
inductive CompilesEach (env : CompileEnv) : List (Location × TaskSpec) → CompileContext → List Location →
    Except ContentError (List (List Behavior)) → CompileContext → Prop
  | done {ctx : CompileContext} : CompilesEach env [] ctx [] (.ok []) ctx
  | stops {place : Location} {t : TaskSpec} {rest : List (Location × TaskSpec)} {ctx ctx' : CompileContext}
      {places : List Location} {why : ContentError}
      (h : Compiles env t (ctx.moved place) places (.error why) ctx') :
      CompilesEach env ((place, t) :: rest) ctx places (.error why) (ctx'.moved ctx.place)
  | next {place : Location} {t : TaskSpec} {rest : List (Location × TaskSpec)} {ctx ctx' ctx'' : CompileContext}
      {places places' : List Location} {units : List Behavior} {outcome : Except ContentError (List (List Behavior))}
      (h : Compiles env t (ctx.moved place) places (.ok units) ctx')
      (hrest : CompilesEach env rest (ctx'.moved ctx.place) places' outcome ctx'') :
      CompilesEach env ((place, t) :: rest) ctx (places ++ places') (outcome.map (units :: ·)) ctx''

end

end TaskSpec

/-! ## What is kept -/

/-- What compiling leaves of a context: the place is the same, what was collected stays collected, and the
generator has moved as often as said. -/
structure CompileContext.Grows (ctx : CompileContext) (draws : Nat) (ctx' : CompileContext) : Prop where
  place : ctx'.place = ctx.place
  memories : ∀ key, ctx.memories.contains key → ctx'.memories.contains key
  sensors : ∀ kind, ctx.sensors.contains kind → ctx'.sensors.contains kind
  random : ctx'.random = (fun r : Random => r.unit.2)^[draws] ctx.random

namespace CompileContext.Grows

variable {ctx ctx' ctx'' : CompileContext} {draws draws' : Nat}

theorem refl (ctx : CompileContext) : ctx.Grows 0 ctx := ⟨rfl, fun _ => id, fun _ => id, rfl⟩

theorem trans (h : ctx.Grows draws ctx') (h' : ctx'.Grows draws' ctx'') : ctx.Grows (draws + draws') ctx'' where
  place := h'.place.trans h.place
  memories key hkey := h'.memories key (h.memories key hkey)
  sensors kind hkind := h'.sensors kind (h.sensors kind hkind)
  random := by rw [h'.random, h.random, Nat.add_comm, Function.iterate_add_apply]

/-- What happens elsewhere is no different for the place being put back after it. -/
theorem within {place : Location} (h : (ctx.moved place).Grows draws ctx') :
    ctx.Grows draws (ctx'.moved ctx.place) := ⟨rfl, h.memories, h.sensors, h.random⟩

theorem draw (h : ctx.drawn.Grows draws ctx') : ctx.Grows (draws + 1) ctx' :=
  ⟨h.place, h.memories, h.sensors, h.random⟩

theorem collect {l : Leaf} : ctx.Grows 0 ⟨ctx.toCompileState.collect l.needs, ctx.place⟩ where
  place := rfl
  memories _ hkey := CompileState.contains_memories_collect.mpr (.inr (.inr hkey))
  sensors _ hkind := CompileState.contains_sensors_collect.mpr (.inr hkind)
  random := rfl

end CompileContext.Grows

namespace TaskSpec

open Compile

variable {env : CompileEnv} {condition : Binding}

mutual

theorem grows_of_compiles : ∀ {t : TaskSpec} {ctx ctx' : CompileContext} {places : List Location}
    {outcome : Except ContentError (List Behavior)}, Compiles env t ctx places outcome ctx' →
    ctx.Grows places.length ctx'
  | _, ctx, _, _, _, .leaf (l := l) hrun => by
    have hleaves := l.serves_compile.leaves (env.moved ctx.place) ctx.toCompileState
    rw [hrun] at hleaves
    rcases hleaves with rfl | ⟨_, rfl⟩
    · exact .refl _
    · exact .collect
  | _, _, _, _, _, .fails _ _ => .refl _
  | _, _, _, _, _, .closed _ _ => .refl _
  | _, _, _, _, _, .allOf _ hall => grows_of_compilesEach hall
  | _, _, _, _, _, .oneOf _ _ hall => grows_of_compilesEach hall
  | _, _, _, _, _, .random _ _ _ hrest => (grows_of_compiles hrest).within.draw
  | _, _, _, _, _, .empty _ _ => (CompileContext.Grows.refl _).draw

theorem grows_of_compilesEach : ∀ {tasks : List (Location × TaskSpec)} {ctx ctx' : CompileContext}
    {places : List Location} {outcome : Except ContentError (List (List Behavior))},
    CompilesEach env tasks ctx places outcome ctx' → ctx.Grows places.length ctx'
  | _, _, _, _, _, .done => .refl _
  | _, _, _, _, _, .stops h => (grows_of_compiles h).within
  | _, _, _, _, _, .next h hrest => by
    rw [List.length_append]
    exact (grows_of_compiles h).within.trans (grows_of_compilesEach hrest)

end

/-! ## Every run goes like this -/

/-- Whether a run of the compiler goes as told, and comes back to where it started. -/
def Goes (env : CompileEnv) (t : TaskSpec) (place : Location) (s : CompileState) : Prop :=
  ∃ places, Compiles env t ⟨s, place⟩ places (t.compile.runOn (env.moved place) s).1
    ⟨(t.compile.runOn (env.moved place) s).2, place⟩

/-- Tasks inside a group are compiled as told, if each of them is. -/
theorem exists_compilesEach (env : CompileEnv) {tasks : List (Location × TaskSpec)}
    (each : ∀ t ∈ tasks, ∀ place s, Goes env t.2 place s)
    (place : Location) (s : CompileState) :
    ∃ places, CompilesEach env tasks ⟨s, place⟩ places ((Compile.each tasks).runOn (env.moved place) s).1
      ⟨((Compile.each tasks).runOn (env.moved place) s).2, place⟩ := by
  induction tasks generalizing s with
  | nil => exact ⟨[], .done⟩
  | cons entry rest ih =>
    obtain ⟨there, t⟩ := entry
    rw [List.forall_mem_cons] at each
    obtain ⟨places, hhere⟩ := each.1 there s
    rw [runOn_each_cons]
    change Compiles env t ((CompileContext.mk s place).moved there) _ _ _ at hhere
    have hmoved : (env.moved place).moved there = env.moved there := rfl
    rw [hmoved]
    dsimp only at hhere
    rcases hrun : t.compile.runOn (env.moved there) s with ⟨why | here, s'⟩
    · rw [hrun] at hhere
      exact ⟨places, .stops hhere⟩
    · rw [hrun] at hhere
      obtain ⟨places', hrest⟩ := ih each.2 s'
      exact ⟨places ++ places', .next hhere hrest⟩

/-- A task inside a group is one of those that the group is made of. -/
theorem mem_of_mem_children_allOf {tasks : List TaskSpec} {place : Location} {child : Location × TaskSpec}
    (h : child ∈ (allOf condition tasks).children place) : child.2 ∈ tasks := by
  obtain ⟨i, hi, rfl⟩ := List.mem_mapIdx.mp h
  exact List.getElem_mem hi

theorem mem_of_mem_children_oneOf {options : List (UInt32 × TaskSpec)} {place : Location}
    {child : Location × TaskSpec} (h : child ∈ (oneOf condition options).children place) :
    ∃ o ∈ options, o.2 = child.2 := by
  obtain ⟨i, hi, rfl⟩ := List.mem_mapIdx.mp h
  exact ⟨options[i], List.getElem_mem hi, rfl⟩

theorem mem_of_mem_children_random {choices : List (Float × TaskSpec)} {place : Location}
    {child : Location × TaskSpec} (h : child ∈ (random condition choices).children place) :
    ∃ c ∈ choices, c.2 = child.2 := by
  obtain ⟨i, hi, rfl⟩ := List.mem_mapIdx.mp h
  exact ⟨choices[i], List.getElem_mem hi, rfl⟩

/-- A group goes as told if it does where its guard holds. -/
theorem goes_of_guard {t : TaskSpec} {place : Location} {s : CompileState} (hguard : t.guard? = some condition)
    (h : Guards (env.moved place) condition (.ok true) → Goes env t place s) : Goes env t place s := by
  obtain ⟨outcome, hcondition⟩ := exists_guards (env.moved place) condition
  unfold Goes at h ⊢
  cases outcome with
  | error why =>
    rw [gives_compile_of_error hguard hcondition s]
    exact ⟨[], .fails hguard hcondition⟩
  | ok holds =>
    cases holds with
    | false =>
      rw [gives_compile_of_closed hguard hcondition s]
      exact ⟨[], .closed hguard hcondition⟩
    | true => exact h hcondition

/-- Every run of the compiler goes as told. -/
theorem goes (env : CompileEnv) (t : TaskSpec) (place : Location) (s : CompileState) : Goes env t place s := by
  induction t using byGroups generalizing place s with
  | leaf l => exact ⟨[], .leaf rfl⟩
  | allOf condition tasks ih =>
    refine goes_of_guard rfl fun hguard => ?_
    obtain ⟨places, hall⟩ := exists_compilesEach env
      (fun child hchild => ih child.2 (mem_of_mem_children_allOf hchild)) place s
    unfold Goes
    rw [runOn_allOf hguard, runOn_map]
    exact ⟨places, .allOf hguard hall⟩
  | oneOf condition options ih =>
    refine goes_of_guard rfl fun hguard => ?_
    obtain ⟨p, hp⟩ := exists_gives_simplify hguard
    obtain ⟨places, hall⟩ := exists_compilesEach env (fun child hchild => by
      obtain ⟨o, ho, heq⟩ := mem_of_mem_children_oneOf hchild
      exact heq ▸ ih o ho) place s
    unfold Goes
    rw [runOn_oneOf hguard hp, runOn_map]
    exact ⟨places, .oneOf hguard hp hall⟩
  | random condition choices ih =>
    refine goes_of_guard rfl fun hguard => ?_
    unfold Goes
    rw [runOn_random hguard]
    split
    · next there t hpick =>
      obtain ⟨i, hi, hchild⟩ := Option.bind_eq_some_iff.mp hpick
      obtain ⟨c, hc, rfl⟩ := mem_of_mem_children_random (List.mem_of_getElem? hchild)
      obtain ⟨places, hrest⟩ := ih c hc there { s with random := s.random.unit.2 }
      rcases hrun : c.2.compile.runOn (env.moved there) { s with random := s.random.unit.2 } with ⟨outcome, s'⟩
      rw [hrun] at hrest
      have hmoved : (env.moved place).moved there = env.moved there := rfl
      rw [hmoved, hrun]
      have hback : Compiles env (random condition choices) ⟨s, place⟩ (place :: places) outcome
          (CompileContext.moved ⟨s', there⟩ place) := .random hguard hi hchild hrest
      exact ⟨place :: places, hback⟩
    · next hnone => exact ⟨[place], .empty hguard hnone⟩

/-- What is said of compiling a task. -/
structure Disciplined (env : CompileEnv) (t : TaskSpec) (s : CompileState) : Prop where
  /-- It goes as told, from its place back to its place, and draws once at each place that is written down. -/
  goes : ∃ places ctx, Compiles env t ⟨s, env.place⟩ places (t.compile.runOn env s).1 ctx ∧
    ctx.toCompileState = (t.compile.runOn env s).2 ∧ CompileContext.Grows ⟨s, env.place⟩ places.length ctx
  closed : ∀ condition, t.guard? = some condition → Guards env condition (.ok false) →
    t.compile.runOn env s = (.ok [], s)
  allOf : ∀ condition tasks, t = .allOf condition tasks → Guards env condition (.ok true) →
    t.compile.runOn env s = (List.flatten <$> each (t.children env.place)).runOn env s
  /-- Whatever the options come to, they are one behavior. -/
  oneOf : ∀ condition options, t = .oneOf condition options → Guards env condition (.ok true) →
    ∃ gate : List (List Behavior) → Behavior,
      t.compile.runOn env s = ((fun compiled => [gate compiled]) <$> each (t.children env.place)).runOn env s
  random : ∀ condition choices, t = .random condition choices → Guards env condition (.ok true) →
    t.compile.runOn env s =
      match (pickWeighted (choices.map Prod.fst) s.random.unit.1).bind ((t.children env.place)[·]?) with
      | some (place, child) => child.compile.runOn (env.moved place) { s with random := s.random.unit.2 }
      | none => (.error (.emptyChoice (env.place.field "choices")), { s with random := s.random.unit.2 })

end TaskSpec

end Menagerie
