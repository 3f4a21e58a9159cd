import Menagerie.Proofs.Expr.Evaluation

/-!
# The limit on chains of variables

Evaluation at a limit is compared with evaluation at a higher one (`Settles`): the two come to the
same, unless the first stops at a variable. Every operator keeps this, whichever operands it
evaluates and whatever fails first, so it is enough to look at the variables. Where evaluation stops,
the variables that were open are a chain (`Scope.Chain`) that is longer than the limit.
-/

namespace Menagerie

namespace Expr

variable {scope : Scope} {P Q : String → Prop} {α β : Type} {x y : Except EvalError α}

/-- The variables of the template that a tree mentions. -/
def variableNames : Expr → List String
  | .literal _ => []
  | .path segments => (configName? segments).toList
  | .unary _ e => e.variableNames
  | .binary _ a b => a.variableNames ++ b.variableNames
  | .ternary c a b => c.variableNames ++ (a.variableNames ++ b.variableNames)

/-- Whether evaluation did not stop at the limit. -/
def Free (x : Except EvalError α) : Prop := ∀ name, x ≠ .error (.recursionLimit name)

theorem free_ok (v : α) : Free (.ok v) := nofun

theorem Free.bind {f : α → Except EvalError β} (hx : Free x) (hf : ∀ v, Free (f v)) :
    Free (x >>= f) := by
  cases x with
  | ok v => exact hf v
  | error error => exact fun name h => hx name (by rw [Except.error.inj h])

theorem free_asBool (v : Value) : Free v.asBool := by cases v <;> exact nofun

theorem free_asNumber (v : Value) : Free v.asNumber := by cases v <;> exact nofun

/-- An operator stops at no variable. -/
theorem free_applyBinary (op : BinaryOp) (x y : Value) : Free (applyBinary op x y) := by
  have numbers {f : Float → Float → Except EvalError Value} (hf : ∀ u v, Free (f u v)) :
      Free (applyBinary.numbers x y f) :=
    (free_asNumber x).bind fun u => (free_asNumber y).bind fun v => hf u v
  have booleans {f : Bool → Bool → Bool} : Free (applyBinary.booleans x y f) :=
    (free_asBool x).bind fun u => (free_asBool y).bind fun _ => free_ok _
  cases op with
  | eq | ne => exact free_ok _
  | and | or => exact booleans
  | add | sub | mul | lt | le | gt | ge => exact numbers fun _ _ => free_ok _
  | div | rem =>
    refine numbers fun u v => ?_
    split <;> exact nofun

/-- Outcomes of the same steps, the second with more variables to open: the same, unless the first
stops at a variable for which `P` holds. -/
inductive Settles (P : String → Prop) (x y : Except EvalError α) : Prop where
  | stopped (name : String) (there : P name) (stops : x = .error (.recursionLimit name))
  | settled (free : Free x) (same : x = y)

namespace Settles

theorem mono (h : Settles P x y) (hPQ : ∀ name, P name → Q name) : Settles Q x y := by
  cases h with
  | stopped name there stops => exact .stopped name (hPQ name there) stops
  | settled free same => exact .settled free same

theorem refl (free : Free x) : Settles P x x := .settled free rfl

theorem bind {f g : α → Except EvalError β} (h : Settles P x y)
    (hfg : ∀ v, Settles P (f v) (g v)) : Settles P (x >>= f) (y >>= g) := by
  cases h with
  | stopped name there stops => exact .stopped name there (by rw [stops]; rfl)
  | settled free same =>
    subst same
    cases x with
    | ok v => exact hfg v
    | error error => exact .refl fun name h => free name (by rw [Except.error.inj h])

theorem asBool {x y : Except EvalError Value} (h : Settles P x y) :
    Settles P (x >>= Value.asBool) (y >>= Value.asBool) :=
  h.bind fun v => .refl (free_asBool v)

theorem asNumber {x y : Except EvalError Value} (h : Settles P x y) :
    Settles P (x >>= Value.asNumber) (y >>= Value.asNumber) :=
  h.bind fun v => .refl (free_asNumber v)

end Settles

/-- If every variable that a tree mentions settles, so does the tree. -/
theorem settles_evalWith {dynamic dynamic' : String → Expression → Except EvalError Value}
    (e : Expr) (h : ∀ name next, name ∈ e.variableNames → scope.dynamic? name = some next →
      Settles P (dynamic name next) (dynamic' name next)) :
    Settles P (evalWith scope dynamic e) (evalWith scope dynamic' e) := by
  induction e with
  | literal v => exact .refl (free_ok _)
  | path segments =>
    rw [evalWith, evalWith]
    obtain ⟨name, next, named, found⟩ | ⟨r, hr, free⟩ := lookup_cases scope segments
    · rw [lookup_dynamic _ named found, lookup_dynamic _ named found]
      exact h name next (by simp [variableNames, named]) found
    · rw [hr, hr]
      exact .refl free
  | unary op e ih =>
    have operand := ih h
    cases op with
    | not =>
      rw [evalWith_not, evalWith_not]
      exact operand.asBool.bind fun _ => .refl (free_ok _)
    | neg =>
      rw [evalWith_neg, evalWith_neg]
      exact operand.asNumber.bind fun _ => .refl (free_ok _)
  | ternary c a b ihc iha ihb =>
    simp only [variableNames, List.mem_append, or_imp, forall_and] at h
    obtain ⟨hc, ha, hb⟩ := h
    rw [evalWith_ternary, evalWith_ternary]
    refine (ihc hc).asBool.bind fun choice => ?_
    cases choice with
    | true => exact iha ha
    | false => exact ihb hb
  | binary op a b iha ihb =>
    simp only [variableNames, List.mem_append, or_imp, forall_and] at h
    obtain ⟨ha, hb⟩ := h
    cases hop : shortcut op with
    | some decisive =>
      rw [evalWith_logical _ hop, evalWith_logical _ hop]
      refine (iha ha).asBool.bind fun x => ?_
      split
      · exact .refl (free_ok _)
      · exact (ihb hb).asBool.bind fun _ => .refl (free_ok _)
    | none =>
      rw [evalWith_strict _ hop, evalWith_strict _ hop]
      exact (iha ha).bind fun x => (ihb hb).bind fun y => .refl (free_applyBinary op x y)

end Expr

/-- Variables of a scope of which the tree mentions the first, and the expression of each mentions
the next. All of them have an expression. -/
inductive Scope.Chain (scope : Scope) : Expr → List String → Prop where
  | nil (e : Expr) : Chain scope e []
  | cons {e : Expr} {name : String} {next : Expression} {names : List String}
      (mentioned : name ∈ e.variableNames) (found : scope.dynamic? name = some next)
      (rest : Chain scope next.root names) : Chain scope e (name :: names)

namespace Expr

/-- A chain of variables with `length` members that starts in a tree and ends at a name. -/
def EndsChain (scope : Scope) (length : Nat) (e : Expr) (name : String) : Prop :=
  ∃ names, scope.Chain e names ∧ names.length = length ∧ names.getLast? = some name

variable {scope : Scope}

theorem EndsChain.cons {length : Nat} {e : Expr} {name last : String} {next : Expression}
    (mentioned : name ∈ e.variableNames) (found : scope.dynamic? name = some next)
    (h : EndsChain scope length next.root last) : EndsChain scope (length + 1) e last := by
  obtain ⟨names, rest, hlength, hlast⟩ := h
  refine ⟨name :: names, .cons mentioned found rest, congrArg _ hlength, ?_⟩
  rw [List.getLast?_cons, hlast]
  rfl

/-- Evaluation at a limit comes to what it comes to at any higher limit, unless it stops at the end
of a chain of one variable more than the limit. -/
theorem settles_eval (scope : Scope) {limit more : Nat} (h : limit ≤ more) (e : Expr) :
    Settles (EndsChain scope (limit + 1) e) (eval scope limit e) (eval scope more e) := by
  induction limit generalizing more e with
  | zero =>
    rw [eval_eq, eval_eq scope more]
    refine settles_evalWith e fun name next mentioned found => ?_
    exact .stopped name ⟨[name], .cons mentioned found (.nil _), rfl, rfl⟩ rfl
  | succ limit ih =>
    obtain ⟨more, rfl⟩ : ∃ n, more = n + 1 := ⟨more - 1, by omega⟩
    rw [eval_eq, eval_eq scope (more + 1)]
    refine settles_evalWith e fun name next mentioned found => ?_
    exact (ih (Nat.le_of_succ_le_succ h) next.root).mono fun last => .cons mentioned found

end Expr

/-- Evaluation ends in one outcome at every limit, whatever the variables refer to. An outcome that is
not the limit is the outcome at every higher limit, and evaluation stops at a variable only if a chain
of one variable more than the limit ends there; where every chain is within the limit, it never does. -/
theorem Expression.chain_limit_exact (scope : Scope) (e : Expression) (limit : Nat) :
    (∀ r, Expr.Evaluates scope limit 0 e.root r ↔ e.eval limit scope = r) ∧
    ((∀ name, e.eval limit scope ≠ .error (.recursionLimit name)) →
      ∀ more, limit ≤ more → e.eval more scope = e.eval limit scope) ∧
    (∀ name, e.eval limit scope = .error (.recursionLimit name) →
      ∃ names, scope.Chain e.root names ∧ names.length = limit + 1 ∧
        names.getLast? = some name) ∧
    ((∀ names, scope.Chain e.root names → names.length ≤ limit) →
      ∀ name, e.eval limit scope ≠ .error (.recursionLimit name)) := by
  have chain : ∀ name, e.eval limit scope = .error (.recursionLimit name) →
      Expr.EndsChain scope (limit + 1) e.root name := by
    intro name h
    obtain ⟨_, there, stops⟩ | ⟨free, _⟩ := Expr.settles_eval scope (Nat.le_refl limit) e.root
    · cases stops.symm.trans h
      exact there
    · exact absurd h (free name)
  refine ⟨fun r => Expr.evaluates_iff, fun free more hmore => ?_, chain, fun short name h => ?_⟩
  · obtain ⟨name, _, stops⟩ | ⟨_, same⟩ := Expr.settles_eval scope hmore e.root
    · exact absurd stops (free name)
    · exact same.symm
  · obtain ⟨names, hchain, hlength, _⟩ := chain name h
    exact absurd (short names hchain) (by omega)

/-- Each variable is the opposite of another. The first two refer to each other, the third to a
constant. -/
def Scope.loop : Scope where
  config := some fun name =>
    match name with
    | "fear" => oppositeOf "calm"
    | "calm" => oppositeOf "fear"
    | "awake" => oppositeOf "tired"
    | "tired" => some (.constant (.bool false))
    | _ => none
where
  oppositeOf (name : String) : Option VariableValue :=
    let e := Expression.configLookup name
    some (.dynamic ⟨"!" ++ e.source, .unary .not e.root⟩)

theorem Expression.chain_limit_exact_loop :
    (∃ names, Scope.loop.Chain (configLookup "fear").root names ∧ names.length = 3 ∧
      names.getLast? = some "fear") ∧
    (∀ more, 1 ≤ more → (configLookup "awake").eval more .loop = .ok (.bool true)) ∧
    ∀ name, (configLookup "awake").eval 1 .loop ≠ .error (.recursionLimit name) := by
  have hloop : (configLookup "fear").eval 2 .loop = .error (.recursionLimit "fear") := rfl
  have hawake : (configLookup "awake").eval 1 .loop = .ok (.bool true) := rfl
  have short : ∀ names, Scope.loop.Chain (configLookup "awake").root names → names.length ≤ 1 := by
    intro names h
    cases h with
    | nil => decide
    | cons mentioned found rest =>
      obtain rfl := List.mem_singleton.mp mentioned
      cases found
      cases rest with
      | nil => exact Nat.le_refl 1
      | cons mentioned found _ =>
        obtain rfl := List.mem_singleton.mp mentioned
        cases found
  obtain ⟨_, _, chain, _⟩ := chain_limit_exact .loop (configLookup "fear") 2
  obtain ⟨_, higher, _, within⟩ := chain_limit_exact .loop (configLookup "awake") 1
  refine ⟨chain "fear" hloop, fun more hmore => ?_, within short⟩
  rw [higher (by rw [hawake]; exact nofun) more hmore, hawake]

end Menagerie
