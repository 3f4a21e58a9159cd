import Menagerie.Task.Spec
import Menagerie.Proofs.Variable.Resolution

/-!
# Task specifications as trees

Task specifications are trees of groups, and what is true of every node of one is stated by `Every`.
A specification is valid exactly if every binding of every node resolves (`validate_eq_ok_iff`).
-/

namespace Menagerie.TaskSpec

/-- A specification is made up from leaves by the three kinds of groups. -/
@[elab_as_elim]
theorem byGroups {motive : TaskSpec → Prop} (leaf : ∀ l, motive (.leaf l))
    (allOf : ∀ condition tasks, (∀ t ∈ tasks, motive t) → motive (.allOf condition tasks))
    (oneOf : ∀ condition options, (∀ o ∈ options, motive o.2) → motive (.oneOf condition options))
    (random : ∀ condition choices, (∀ c ∈ choices, motive c.2) → motive (.random condition choices))
    (t : TaskSpec) : motive t :=
  match t with
  | .leaf l => leaf l
  | .allOf condition tasks =>
    allOf condition tasks fun t _ => byGroups leaf allOf oneOf random t
  | .oneOf condition options =>
    oneOf condition options fun o _ => byGroups leaf allOf oneOf random o.2
  | .random condition choices =>
    random condition choices fun c _ => byGroups leaf allOf oneOf random c.2
termination_by t
decreasing_by
  · decreasing_tactic
  · have hsize := List.sizeOf_lt_of_mem ‹o ∈ options›
    cases o
    simp only [Prod.mk.sizeOf_spec, TaskSpec.oneOf.sizeOf_spec] at hsize ⊢
    omega
  · have hsize := List.sizeOf_lt_of_mem ‹c ∈ choices›
    cases c
    simp only [Prod.mk.sizeOf_spec, TaskSpec.random.sizeOf_spec] at hsize ⊢
    omega

/-- Something is true of a task and of all tasks inside it. -/
inductive Every (p : TaskSpec → Prop) : TaskSpec → Prop
  | leaf {l} : p (.leaf l) → Every p (.leaf l)
  | allOf {condition tasks} :
      p (.allOf condition tasks) → (∀ t ∈ tasks, Every p t) → Every p (.allOf condition tasks)
  | oneOf {condition options} :
      p (.oneOf condition options) → (∀ o ∈ options, Every p o.2) →
      Every p (.oneOf condition options)
  | random {condition choices} :
      p (.random condition choices) → (∀ c ∈ choices, Every p c.2) →
      Every p (.random condition choices)

section Every

variable {p q : TaskSpec → Prop}

theorem every_leaf {l : LeafSpec} : Every p (.leaf l) ↔ p (.leaf l) := by
  constructor
  · intro h
    cases h with
    | leaf h => exact h
  · exact .leaf

theorem every_allOf {condition : Binding} {tasks : List TaskSpec} :
    Every p (.allOf condition tasks) ↔ p (.allOf condition tasks) ∧ ∀ t ∈ tasks, Every p t := by
  constructor
  · intro h
    cases h with
    | allOf h hrest => exact ⟨h, hrest⟩
  · exact fun ⟨h, hrest⟩ => .allOf h hrest

theorem every_oneOf {condition : Binding} {options : List (UInt32 × TaskSpec)} :
    Every p (.oneOf condition options) ↔
      p (.oneOf condition options) ∧ ∀ o ∈ options, Every p o.2 := by
  constructor
  · intro h
    cases h with
    | oneOf h hrest => exact ⟨h, hrest⟩
  · exact fun ⟨h, hrest⟩ => .oneOf h hrest

theorem every_random {condition : Binding} {choices : List (Float × TaskSpec)} :
    Every p (.random condition choices) ↔
      p (.random condition choices) ∧ ∀ c ∈ choices, Every p c.2 := by
  constructor
  · intro h
    cases h with
    | random h hrest => exact ⟨h, hrest⟩
  · exact fun ⟨h, hrest⟩ => .random h hrest

/-- What is true of all tasks is true of every task in a specification. -/
theorem every_of_forall (h : ∀ t, p t) (t : TaskSpec) : Every p t := by
  induction t using byGroups with
  | leaf l => exact .leaf (h _)
  | allOf condition tasks ih => exact .allOf (h _) ih
  | oneOf condition options ih => exact .oneOf (h _) ih
  | random condition choices ih => exact .random (h _) ih

/-- What is true of every task in a specification is true of the specification itself. -/
theorem Every.here {t : TaskSpec} (h : Every p t) : p t := by
  cases h with
  | leaf h => exact h
  | allOf h _ => exact h
  | oneOf h _ => exact h
  | random h _ => exact h

theorem Every.imp {t : TaskSpec} (h : Every p t) (hpq : ∀ t, p t → q t) : Every q t := by
  induction h with
  | leaf hp => exact .leaf (hpq _ hp)
  | allOf hp _ ih => exact .allOf (hpq _ hp) ih
  | oneOf hp _ ih => exact .oneOf (hpq _ hp) ih
  | random hp _ ih => exact .random (hpq _ hp) ih

theorem Every.and {t : TaskSpec} (h : Every p t) (h' : Every q t) :
    Every (fun t => p t ∧ q t) t := by
  induction h with
  | leaf hp => exact .leaf ⟨hp, h'.here⟩
  | allOf hp _ ih =>
    obtain ⟨hq, hrest⟩ := every_allOf.mp h'
    exact .allOf ⟨hp, hq⟩ fun t ht => ih t ht (hrest t ht)
  | oneOf hp _ ih =>
    obtain ⟨hq, hrest⟩ := every_oneOf.mp h'
    exact .oneOf ⟨hp, hq⟩ fun o ho => ih o ho (hrest o ho)
  | random hp _ ih =>
    obtain ⟨hq, hrest⟩ := every_random.mp h'
    exact .random ⟨hp, hq⟩ fun c hc => ih c hc (hrest c hc)

end Every

/-! ## Validation -/

/-- Whether every binding of a task itself resolves. -/
def Bound (table : VariableTable) (t : TaskSpec) : Prop :=
  ∀ b ∈ t.bindings, b.2.Resolves table

theorem checkBindings_eq_ok_iff {table : VariableTable} {place : Location}
    {bindings : List (String × Binding)} :
    checkBindings table place bindings = .ok () ↔ ∀ b ∈ bindings, b.2.Resolves table := by
  induction bindings with
  | nil => simp [checkBindings]
  | cons entry rest ih =>
    obtain ⟨field, b⟩ := entry
    rw [List.forall_mem_cons, ← ih, checkBindings, bind_eq_ok]
    dsimp only
    rw [exists_and_right, Binding.exists_simplify_iff]

section Groups

variable {table : VariableTable} {place : Location} {p : TaskSpec → Prop}

theorem validateTasks_eq_ok_iff {tasks : List TaskSpec} {i : Nat}
    (each : ∀ t ∈ tasks, ∀ {place}, t.validate table place = .ok () ↔ p t) :
    validateTasks table place i tasks = .ok () ↔ ∀ t ∈ tasks, p t := by
  induction tasks generalizing i with
  | nil => simp [validateTasks]
  | cons t rest ih =>
    rw [List.forall_mem_cons] at each ⊢
    rw [validateTasks, then_eq_ok, each.1, ih each.2]

theorem validateOptions_eq_ok_iff {options : List (UInt32 × TaskSpec)} {i : Nat}
    (each : ∀ o ∈ options, ∀ {place}, o.2.validate table place = .ok () ↔ p o.2) :
    validateOptions table place i options = .ok () ↔ ∀ o ∈ options, p o.2 := by
  induction options generalizing i with
  | nil => simp [validateOptions]
  | cons o rest ih =>
    rw [List.forall_mem_cons] at each ⊢
    rw [validateOptions, then_eq_ok, each.1, ih each.2]

theorem validateChoices_eq_ok_iff {choices : List (Float × TaskSpec)} {i : Nat}
    (each : ∀ c ∈ choices, ∀ {place}, c.2.validate table place = .ok () ↔ p c.2) :
    validateChoices table place i choices = .ok () ↔ ∀ c ∈ choices, p c.2 := by
  induction choices generalizing i with
  | nil => simp [validateChoices]
  | cons c rest ih =>
    rw [List.forall_mem_cons] at each ⊢
    rw [validateChoices, then_eq_ok, each.1, ih each.2]

end Groups

theorem Bound.of_same {t : TaskSpec} {table table' : VariableTable}
    (same : table.SameDeclarations table') (h : t.Bound table) : t.Bound table' :=
  fun b hb => (h b hb).of_same same

/-- A specification passes validation exactly if all of its bindings resolve. -/
theorem validate_eq_ok_iff {table : VariableTable} {place : Location} {t : TaskSpec} :
    t.validate table place = .ok () ↔ t.Every (Bound table) := by
  induction t using byGroups generalizing place with
  | leaf l =>
    rw [validate, checkBindings_eq_ok_iff, every_leaf]
    rfl
  | allOf condition tasks ih =>
    rw [validate, then_eq_ok, checkBindings_eq_ok_iff, validateTasks_eq_ok_iff ih, every_allOf]
    rfl
  | oneOf condition options ih =>
    rw [validate, then_eq_ok, checkBindings_eq_ok_iff, validateOptions_eq_ok_iff ih, every_oneOf]
    rfl
  | random condition choices ih =>
    rw [validate, then_eq_ok, checkBindings_eq_ok_iff, validateChoices_eq_ok_iff ih, every_random]
    rfl

end Menagerie.TaskSpec
