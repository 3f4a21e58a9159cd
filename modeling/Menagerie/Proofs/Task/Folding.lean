import Menagerie.Proofs.Number.Finite
import Menagerie.Proofs.Task.Compilation
import Menagerie.Proofs.Variable.Inlining

/-!
# Constants and expressions as parameters

A binding comes to a constant, or to an expression that is looked at with the agent. As long as their values are
finite, compiling takes the two alike (`Compile.constant_agrees`). A number that is not finite is refused of a
constant, whatever it is taken for; of an expression it is refused only where a number is looked for. Taken for a
truth value or a whole number it passes there, and a number of ticks may come of it.
-/

namespace Menagerie

/-- Whether a value is anything but a number that is not finite. -/
def Value.IsFinite : Value → Prop
  | .number x => x.isFinite = true
  | _ => True

namespace Compile

variable {α β : Type} {env : CompileEnv} {b b' : Binding} {field : String} {v : Value} {x : Float} {n : Int}
  {p : Param} {e : Expression} {why : ContentError} {look : Nat → Scope → Param → Except EvalError α}

/-- Whether a step has a given outcome, and changes nothing. -/
def Gives (env : CompileEnv) (step : Compile α) (outcome : Except ContentError α) : Prop :=
  ∀ s, step.runOn env s = (outcome, s)

section Gives

variable {step : Compile α} {a : α} {outcome : Except ContentError β}

theorem Gives.bind_ok {f : α → Compile β} (h : Gives env step (.ok a)) (hf : Gives env (f a) outcome) :
    Gives env (step >>= f) outcome := by
  intro s
  rw [runOn_bind, h s]
  exact hf s

theorem Gives.bind_error {f : α → Compile β} (h : Gives env step (.error why)) :
    Gives env (step >>= f) (.error why) := by
  intro s
  rw [runOn_bind, h s]

theorem gives_read_bind {f : CompileEnv → Compile β} (h : Gives env (f env) outcome) :
    Gives env (read >>= f) outcome := h

theorem gives_pure : Gives env (pure a) (.ok a) := fun _ => rfl

theorem gives_throw : Gives env (throw why : Compile α) (.error why) := fun _ => rfl

theorem gives_refuse {objection : Objection} :
    Gives env (refuse (α := α) field objection) (.error (.invalidParameter env.place field objection)) :=
  fun _ => rfl

theorem gives_refuse_or {c : Prop} [Decidable c] {objection : Objection} :
    Gives env (if c then refuse field objection else return a)
      (if c then .error (.invalidParameter env.place field objection) else .ok a) := by
  split
  · exact gives_refuse
  · exact gives_pure

end Gives

theorem gives_finite (h : x.isFinite = true) : Gives env (finite field x) (.ok x) := by
  unfold finite
  rw [if_pos h]
  exact gives_pure

theorem gives_finite_of_not_isFinite (h : x.isFinite = false) :
    Gives env (finite field x) (.error (.invalidParameter env.place field (.notFinite x))) := by
  unfold finite
  rw [if_neg (Bool.not_eq_true _ ▸ h)]
  exact gives_refuse

theorem exists_gives_finite (x : Float) : ∃ outcome, Gives env (finite field x) outcome := by
  cases hx : x.isFinite with
  | true => exact ⟨_, gives_finite hx⟩
  | false => exact ⟨_, gives_finite_of_not_isFinite hx⟩

theorem gives_simplify (h : b.simplify env.table (env.place.field field) = .ok p)
    (hfinite : ∀ v, p = .constant v → v.IsFinite) : Gives env (simplify b field) (.ok p) := by
  refine gives_read_bind ?_
  simp only [h]
  split
  · exact (gives_finite (hfinite _ rfl)).bind_ok gives_pure
  · exact gives_pure

theorem gives_simplify_of_not_isFinite
    (h : b.simplify env.table (env.place.field field) = .ok (.constant (.number x)))
    (hx : x.isFinite = false) :
    Gives env (simplify b field) (.error (.invalidParameter env.place field (.notFinite x))) := by
  refine gives_read_bind ?_
  simp only [h]
  exact (gives_finite_of_not_isFinite hx).bind_error

/-- What is looked for in a parameter goes by the value of the parameter. -/
theorem gives_evaluate {f : Value → Except EvalError α} (h : Gives env (simplify b field) (.ok p))
    (hvalue : p.value env.chainLimit (.ofAgent env.agent.query env.clock env.table) = .ok v)
    (hlook : ∀ limit scope p, look limit scope p = (p.value limit scope).bind f) :
    Gives env (evaluate look b field) ((f v).mapError (.expression (env.place.field field))) := by
  have hfound : look env.chainLimit (.ofAgent env.agent.query env.clock env.table) p = f v := by
    rw [hlook, hvalue]
    rfl
  refine h.bind_ok (gives_read_bind ?_)
  simp only [hfound]
  cases f v with
  | ok a => exact gives_pure
  | error e => exact gives_throw

theorem whole_eq_bind (limit : Nat) (scope : Scope) (p : Param) :
    p.whole limit scope = (p.value limit scope).bind fun v => v.asNumber.map Number.wholePart := by
  unfold Param.whole Param.number
  cases p.value limit scope with
  | ok v => rfl
  | error e => rfl

theorem gives_ticks (h : Gives env (whole b field) (.ok n)) :
    Gives env (ticks b field)
      (if n < 0 then .error (.invalidParameter env.place field (.negative n))
        else .ok (UInt64.ofNat n.toNat)) :=
  h.bind_ok gives_refuse_or

theorem gives_interval (h : Gives env (whole b field) (.ok n)) :
    Gives env (interval b field)
      (if n < 1 then .error (.invalidParameter env.place field (.belowOne n))
        else .ok (UInt64.ofNat n.toNat)) :=
  h.bind_ok gives_refuse_or

/-! ## A constant and an expression of one value -/

/-- Whether two steps have one outcome, and change nothing. -/
def Agree (env : CompileEnv) (step step' : Compile α) : Prop :=
  ∃ outcome, Gives env step outcome ∧ Gives env step' outcome

theorem Agree.bind {step step' : Compile α} {f : α → Compile β} (h : Agree env step step')
    (hf : ∀ a, ∃ outcome, Gives env (f a) outcome) : Agree env (step >>= f) (step' >>= f) := by
  obtain ⟨outcome, hstep, hstep'⟩ := h
  cases outcome with
  | ok a =>
    obtain ⟨outcome, houtcome⟩ := hf a
    exact ⟨outcome, hstep.bind_ok houtcome, hstep'.bind_ok houtcome⟩
  | error why => exact ⟨.error why, hstep.bind_error, hstep'.bind_error⟩

section Constant

variable (hconstant : b.simplify env.table (env.place.field field) = .ok (.constant v))
  (hlive : b'.simplify env.table (env.place.field field) = .ok (.expression e))
  (hvalue : e.eval env.chainLimit (.ofAgent env.agent.query env.clock env.table) = .ok v)

include hlive hvalue in
theorem gives_evaluate_expression {f : Value → Except EvalError α}
    (hlook : ∀ limit scope p, look limit scope p = (p.value limit scope).bind f) :
    Gives env (evaluate look b' field) ((f v).mapError (.expression (env.place.field field))) :=
  gives_evaluate (gives_simplify hlive nofun) hvalue hlook

include hconstant hlive hvalue in
/-- Whatever a finite value is taken for, it is the same of a constant and of an expression. -/
theorem agree_evaluate {f : Value → Except EvalError α} (hv : v.IsFinite)
    (hlook : ∀ limit scope p, look limit scope p = (p.value limit scope).bind f) :
    Agree env (evaluate look b field) (evaluate look b' field) := by
  have hsimplify : Gives env (simplify b field) (.ok (.constant v)) := by
    refine gives_simplify hconstant ?_
    rintro _ ⟨⟩
    exact hv
  exact ⟨_, gives_evaluate hsimplify rfl hlook, gives_evaluate_expression hlive hvalue hlook⟩

include hconstant in
/-- A constant that is not finite is refused before it is seen what it is taken for. -/
theorem gives_evaluate_of_not_isFinite (hv : v = .number x) (hx : x.isFinite = false) :
    Gives env (evaluate look b field) (.error (.invalidParameter env.place field (.notFinite x))) :=
  (gives_simplify_of_not_isFinite (hv ▸ hconstant) hx).bind_error

include hconstant hlive hvalue in
theorem agree_of_isFinite (hv : v.IsFinite) :
    Agree env (number b field) (number b' field) ∧ Agree env (bool b field) (bool b' field) ∧
    Agree env (whole b field) (whole b' field) ∧ Agree env (ticks b field) (ticks b' field) ∧
    Agree env (interval b field) (interval b' field) := by
  have hwhole : Agree env (whole b field) (whole b' field) :=
    agree_evaluate hconstant hlive hvalue hv whole_eq_bind
  refine ⟨(agree_evaluate hconstant hlive hvalue hv fun _ _ _ => rfl).bind exists_gives_finite,
    agree_evaluate hconstant hlive hvalue hv fun _ _ _ => rfl, hwhole, hwhole.bind fun _ => ⟨_, gives_refuse_or⟩,
    hwhole.bind fun _ => ⟨_, gives_refuse_or⟩⟩

end Constant

/-- A constant and an expression that come to the same value are taken alike if the value is finite, and a number
that is not is refused of both where a number is looked for. Taken for anything else it is refused of the constant
only: the expression is true, and what is not a number makes no ticks, infinity as many as there can be. -/
theorem constant_agrees
    (hconstant : b.simplify env.table (env.place.field field) = .ok (.constant v))
    (hlive : b'.simplify env.table (env.place.field field) = .ok (.expression e))
    (hvalue : e.eval env.chainLimit (.ofAgent env.agent.query env.clock env.table) = .ok v) :
    (v.IsFinite →
      Agree env (number b field) (number b' field) ∧ Agree env (bool b field) (bool b' field) ∧
      Agree env (whole b field) (whole b' field) ∧ Agree env (ticks b field) (ticks b' field) ∧
      Agree env (interval b field) (interval b' field)) ∧
    ∀ x, v = .number x → x.isFinite = false →
      let refused : ContentError := .invalidParameter env.place field (.notFinite x)
      Gives env (number b field) (.error refused) ∧ Gives env (number b' field) (.error refused) ∧
      Gives env (bool b field) (.error refused) ∧ Gives env (bool b' field) (.ok true) ∧
      Gives env (whole b field) (.error refused) ∧ Gives env (whole b' field) (.ok (Number.wholePart x)) ∧
      Gives env (ticks b field) (.error refused) ∧
      Gives env (ticks b' field)
        (if x = -Number.infinity then
          .error (.invalidParameter env.place field (.negative Number.leastSigned))
        else .ok (if x = Number.infinity then 0x7fffffffffffffff else 0)) ∧
      Gives env (interval b field) (.error refused) ∧
      Gives env (interval b' field)
        (if x = Number.infinity then .ok 0x7fffffffffffffff
        else .error (.invalidParameter env.place field (.belowOne (Number.wholePart x)))) := by
  refine ⟨agree_of_isFinite hconstant hlive hvalue, ?_⟩
  rintro x rfl hx
  have hrefused {α : Type} (look : Nat → Scope → Param → Except EvalError α) :
      Gives env (evaluate look b field) (.error (.invalidParameter env.place field (.notFinite x))) :=
    gives_evaluate_of_not_isFinite hconstant rfl hx
  have hnumber : Gives env (evaluate Param.number b' field) (.ok x) :=
    gives_evaluate_expression hlive hvalue fun _ _ _ => rfl
  have hbool : Gives env (bool b' field) (.ok (x != 0.0)) :=
    gives_evaluate_expression hlive hvalue fun _ _ _ => rfl
  have hwhole : Gives env (whole b' field) (.ok (Number.wholePart x)) :=
    gives_evaluate_expression hlive hvalue whole_eq_bind
  refine ⟨(hrefused _).bind_error, hnumber.bind_ok (gives_finite_of_not_isFinite hx), hrefused _, ?_, hrefused _,
    hwhole, (hrefused _).bind_error, ?_, (hrefused _).bind_error, ?_⟩
  · rwa [Number.bne_zero_of_not_isFinite hx] at hbool
  -- Only three numbers are not finite, and the whole part of each is known.
  · have hticks := gives_ticks hwhole
    obtain rfl | rfl | rfl := Number.eq_of_not_isFinite hx
    · rwa [Number.wholePart_nan, if_neg (by decide)] at hticks
    · rwa [Number.wholePart_infinity, if_neg (by decide)] at hticks
    · rwa [Number.wholePart_neg_infinity, if_pos (by decide)] at hticks
  · have hinterval := gives_interval hwhole
    obtain rfl | rfl | rfl := Number.eq_of_not_isFinite hx
    · rwa [Number.wholePart_nan, if_pos (by decide)] at hinterval
    · rwa [Number.wholePart_infinity, if_neg (by decide)] at hinterval
    · rwa [Number.wholePart_neg_infinity, if_pos (by decide)] at hinterval

/-- An expression that reads a variable by its path is no constant, also if the variable is. Three ticks come of
both. -/
theorem constant_agrees_nap :
    let table : VariableTable := ⟨.ofList [("nap", ⟨.number "rest" "nap" 3.0, .constant (.number 3.0)⟩)]⟩
    let wolf : AgentView := ⟨⟨1⟩, "wolf", 1, 20.0, 20.0, ⟨0.0, 64.0, 0.0⟩, false, false⟩
    let env : CompileEnv := ⟨.root "wolf", wolf, table, 16, ⟨⟨0⟩, 24000⟩⟩
    let nap : Expression := ⟨"q.entity.config.nap", .path ["q", "entity", "config", "nap"]⟩
    let named : Binding := .reference { name := "nap" }
    named.simplify table ((Location.root "wolf").field "cooldown_ticks") = .ok (.constant (.number 3.0)) ∧
    (Binding.literal nap).simplify table ((Location.root "wolf").field "cooldown_ticks") = .ok (.expression nap) ∧
    nap.eval 16 (.ofAgent wolf.query ⟨⟨0⟩, 24000⟩ table) = .ok (.number 3.0) ∧
    (Value.number 3.0).IsFinite ∧
    Agree env (ticks named "cooldown_ticks") (ticks (.literal nap) "cooldown_ticks") := by
  intro table wolf env nap named
  have hnamed : named.simplify env.table (env.place.field "cooldown_ticks") = .ok (.constant (.number 3.0)) :=
    eq_ok_of_toOption (by decide +kernel)
  have hnap : (Binding.literal nap).simplify env.table (env.place.field "cooldown_ticks") = .ok (.expression nap) :=
    eq_ok_of_toOption (by decide +kernel)
  have hvalue : nap.eval env.chainLimit (.ofAgent env.agent.query env.clock env.table) = .ok (.number 3.0) :=
    eq_ok_of_toOption (by decide +kernel)
  have hfinite : (Value.number 3.0).IsFinite := show Float.isFinite 3.0 = true by decide +kernel
  exact ⟨hnamed, hnap, hvalue, hfinite, ((constant_agrees hnamed hnap hvalue).1 hfinite).2.2.2.1⟩

/-- A variable that is declared to be no number is refused as a number of ticks where it is named, and makes none
where it is read by its path. -/
theorem ticks_of_nan_nap :
    let declared : Declaration := { category := "rest", name := "nap", kind := .number, initial := "nan" }
    let table : VariableTable := ⟨.ofList [("nap", ⟨declared, .constant (.number Number.nan)⟩)]⟩
    let wolf : AgentView := ⟨⟨1⟩, "wolf", 1, 20.0, 20.0, ⟨0.0, 64.0, 0.0⟩, false, false⟩
    let env : CompileEnv := ⟨.root "wolf", wolf, table, 16, ⟨⟨0⟩, 24000⟩⟩
    let nap : Expression := ⟨"q.entity.config.nap", .path ["q", "entity", "config", "nap"]⟩
    let named : Binding := .reference { name := "nap" }
    VariableTable.empty.declare declared (.root "wolf") = .ok table ∧
    named.simplify table ((Location.root "wolf").field "cooldown_ticks") = .ok (.constant (.number Number.nan)) ∧
    (Binding.literal nap).simplify table ((Location.root "wolf").field "cooldown_ticks") = .ok (.expression nap) ∧
    nap.eval 16 (.ofAgent wolf.query ⟨⟨0⟩, 24000⟩ table) = .ok (.number Number.nan) ∧
    Gives env (ticks named "cooldown_ticks")
      (.error (.invalidParameter (.root "wolf") "cooldown_ticks" (.notFinite Number.nan))) ∧
    Gives env (ticks (.literal nap) "cooldown_ticks") (.ok 0) := by
  intro declared table wolf env nap named
  have hnamed : named.simplify env.table (env.place.field "cooldown_ticks") = .ok (.constant (.number Number.nan)) :=
    eq_ok_of_toOption (by decide +kernel)
  have hnap : (Binding.literal nap).simplify env.table (env.place.field "cooldown_ticks") = .ok (.expression nap) :=
    eq_ok_of_toOption (by decide +kernel)
  have hvalue : nap.eval env.chainLimit (.ofAgent env.agent.query env.clock env.table) = .ok (.number Number.nan) :=
    eq_ok_of_toOption (by decide +kernel)
  have hnan : Number.nan.isFinite = false := by decide +kernel
  have hwhole : Gives env (whole (.literal nap) "cooldown_ticks") (.ok (Number.wholePart Number.nan)) :=
    gives_evaluate_expression hnap hvalue whole_eq_bind
  have hticks := gives_ticks hwhole
  rw [Number.wholePart_nan, if_neg (by decide)] at hticks
  exact ⟨eq_ok_of_toOption (by decide +kernel), hnamed, hnap, hvalue,
    (gives_evaluate_of_not_isFinite hnamed rfl hnan).bind_error, hticks⟩

end Compile

end Menagerie
