import Menagerie.Proofs.Expr.Evaluation
import Menagerie.Proofs.Variable.Resolution

/-!
# What is put in place of a binding

A binding that resolves is replaced once by the parameter that it comes to: a constant by its value, anything
else by the expression that it stands for (`Binding.simplify_eq_ok_iff`). The two ways never differ in what is
read in the end, neither in a value nor in an error: where the variables are those that the binding was
simplified with, a parameter has the outcome of the expression as it was written (`Binding.simplify_agrees`).
-/

namespace Menagerie

namespace Expression

variable {limit : Nat} {scope : Scope}

theorem eval_of_constant? {e : Expression} {v : Value} (h : e.constant? = some v) :
    e.eval limit scope = .ok v := by
  unfold constant? at h
  split at h
  · next hroot =>
    cases h
    rw [eval, hroot, Expr.eval_eq, Expr.evalWith]
  · cases h

/-- A variable is read as its value, or as the expression that it has, whatever its name is. -/
theorem eval_configLookup {name : String} {value : VariableValue}
    (h : (scope.config.bind fun config => config name) = some value) :
    (configLookup name).eval limit scope =
      match value with
      | .constant v => .ok v
      | .dynamic e => Expr.opened scope limit name e := by
  show Expr.eval scope limit (.path ["q", "entity", "config", name]) = _
  rw [Expr.eval_eq, Expr.evalWith]
  simp only [Expr.lookup, true_or, if_true, h]
  cases value with
  | constant v => rfl
  | dynamic e => rfl

end Expression

namespace Binding

variable {b : Binding} {table : VariableTable} {place : Location} {p : Param} {v : Value} {limit : Nat}
  {scope : Scope}

/-- The expression that a binding stands for if nothing is put in its place: what is written, or the reading
of the variable that is named. -/
def unfolded : Binding → Expression
  | literal e => e
  | reference r => .configLookup r.name

/-- The value of a binding that is constant with these variables. -/
def constant? (table : VariableTable) : Binding → Option Value
  | literal e => e.constant?
  | reference r =>
    match table.value? r.name with
    | some (.constant v) => some v
    | _ => none

/-- The parameter that a binding comes to, if it resolves. -/
def param (table : VariableTable) (b : Binding) : Param :=
  match b.constant? table with
  | some v => .constant v
  | none => .expression b.unfolded

theorem simplify_literal (e : Expression) :
    (literal e).simplify table place = .ok ((literal e).param table) := by
  simp only [simplify, param, constant?, unfolded]
  cases e.constant? with
  | some v => rfl
  | none => rfl

theorem param_reference {r : VariableReference} {known : Variable}
    (hknown : table.entries.get? r.name = some known) :
    (reference r).param table =
      match known.value with
      | .constant v => .constant v
      | .dynamic _ => .expression (.configLookup r.name) := by
  simp only [param, constant?, unfolded, VariableTable.value?, hknown, Option.map_some]
  cases known.value with
  | constant v => rfl
  | dynamic e => rfl

theorem simplify_reference {r : VariableReference} (h : (reference r).simplify table place = .ok p) :
    p = (reference r).param table := by
  cases hknown : table.entries.get? r.name with
  | none => simp [simplify, hknown] at h
  | some known =>
    rw [param_reference hknown]
    simp only [simplify, hknown] at h
    split at h
    · exact (Except.ok.inj h).symm
    · split at h
      · exact (Except.ok.inj h).symm
      · cases h

/-- A binding that resolves comes to its parameter, and any other is refused. -/
theorem simplify_eq_ok_iff :
    b.simplify table place = .ok p ↔ b.Resolves table ∧ p = b.param table := by
  have hparam : ∀ p, b.simplify table place = .ok p → p = b.param table := by
    intro p h
    cases b with
    | literal e => exact Except.ok.inj (h.symm.trans (simplify_literal e))
    | reference r => exact simplify_reference h
  constructor
  · intro h
    exact ⟨exists_simplify_iff.mp ⟨p, h⟩, hparam p h⟩
  · rintro ⟨hresolves, rfl⟩
    obtain ⟨p, h⟩ : ∃ p, b.simplify table place = .ok p := exists_simplify_iff.mpr hresolves
    rw [h, hparam p h]

/-- A constant is what the expression in its place comes to. -/
theorem eval_unfolded_of_constant? (hconfig : scope.config = some table.value?)
    (h : b.constant? table = some v) : b.unfolded.eval limit scope = .ok v := by
  cases b with
  | literal e => exact Expression.eval_of_constant? h
  | reference r =>
    have hvalue : (scope.config.bind fun config => config r.name) = some (.constant v) := by
      rw [hconfig]
      simp only [constant?] at h
      split at h
      · next hvalue =>
        cases h
        exact hvalue
      · cases h
    exact Expression.eval_configLookup hvalue

theorem value_param (hconfig : scope.config = some table.value?) :
    (b.param table).value limit scope = b.unfolded.eval limit scope := by
  unfold param
  cases h : b.constant? table with
  | some v => exact (eval_unfolded_of_constant? hconfig h).symm
  | none => rfl

/-- Where the variables are those that a binding was simplified with, the parameter that it came to has the
outcome of the expression that it stands for, a value or an error, however long a chain of variables may be.
Taken for a boolean, a number, a whole number or a text it has the outcome of the expression, too. -/
theorem simplify_agrees (hconfig : scope.config = some table.value?)
    (h : b.simplify table place = .ok p) :
    p.value limit scope = b.unfolded.eval limit scope ∧
    p.bool limit scope = (b.unfolded.eval limit scope).bind Value.asBool ∧
    p.number limit scope = (b.unfolded.eval limit scope).bind Value.asNumber ∧
    p.whole limit scope = ((b.unfolded.eval limit scope).bind Value.asNumber).map Number.wholePart ∧
    p.text limit scope = (b.unfolded.eval limit scope).bind Value.asText := by
  obtain ⟨_, rfl⟩ := simplify_eq_ok_iff.mp h
  rw [← value_param hconfig]
  exact ⟨rfl, rfl, rfl, rfl, rfl⟩

/-- Of two variables one is three times the other. The one that is constant is put in its place, and comes to
what it would be read as; the other is read anew, and where no variable may be opened, neither is it. -/
theorem simplify_agrees_pace :
    let tripled : Expression :=
      ⟨"q.entity.config.speed * 3",
        .binary .mul (.path ["q", "entity", "config", "speed"]) (.literal (.number 3.0))⟩
    let table : VariableTable :=
      ⟨.ofList [("speed", ⟨.number "movement" "speed" 1.0, .constant (.number 2.0)⟩),
        ("pace.fast", ⟨.number "movement" "pace.fast" 1.0, .dynamic tripled⟩)]⟩
    let scope : Scope := { config := some table.value? }
    let speed : Binding := .reference { name := "speed" }
    let pace : Binding := .reference { name := "pace.fast" }
    let fast : Expression := .configLookup "pace.fast"
    speed.simplify table (.root "wolf") = .ok (.constant (.number 2.0)) ∧
    (Expression.configLookup "speed").eval 0 scope = .ok (.number 2.0) ∧
    pace.simplify table (.root "wolf") = .ok (.expression fast) ∧
    (Param.expression fast).whole 1 scope = .ok 6 ∧
    (Param.expression fast).bool 0 scope = .error (.recursionLimit "pace.fast") := by
  intro tripled table scope speed pace fast
  have hspeed : speed.simplify table (.root "wolf") = .ok (.constant (.number 2.0)) :=
    eq_ok_of_toOption (by decide +kernel)
  have hpace : pace.simplify table (.root "wolf") = .ok (.expression fast) :=
    eq_ok_of_toOption (by decide +kernel)
  have hfast : (scope.config.bind fun config => config "pace.fast") = some (.dynamic tripled) := by
    decide +kernel
  have hopened : fast.eval 0 scope = .error (.recursionLimit "pace.fast") :=
    Expression.eval_configLookup hfast
  obtain ⟨hvalue, _⟩ := @simplify_agrees speed table (.root "wolf") _ 0 scope rfl hspeed
  obtain ⟨_, _, _, hwhole, _⟩ := @simplify_agrees pace table (.root "wolf") _ 1 scope rfl hpace
  obtain ⟨_, hbool, _⟩ := @simplify_agrees pace table (.root "wolf") _ 0 scope rfl hpace
  exact ⟨hspeed, hvalue.symm, hpace, hwhole.trans (eq_ok_of_toOption (by decide +kernel)),
    hbool.trans (congrArg (Except.bind · Value.asBool) hopened)⟩

end Binding

end Menagerie
