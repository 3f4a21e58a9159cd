import Menagerie.Expr.Eval
import Menagerie.Proofs.Outcome

/-!
# Evaluation as a relation

`Evaluates` says by rules which parts of a tree are evaluated, in which order, and what comes of
them. It counts the variables that are open, one more for each variable that is an expression, and
stops where their number is at the limit. Nothing in the rules bounds how long this takes: that it
ends, whatever the variables refer to, is what `evaluates_iff` says, by which every tree has exactly
one outcome.
-/

namespace Menagerie

/-- The expression of a variable that has one. -/
def Scope.dynamic? (scope : Scope) (name : String) : Option Expression :=
  match scope.config.bind fun config => config name with
  | some (.dynamic e) => some e
  | _ => none

theorem Scope.dynamic?_eq_some {scope : Scope} {name : String} {next : Expression} :
    scope.dynamic? name = some next ↔
      (scope.config.bind fun config => config name) = some (.dynamic next) := by
  unfold dynamic?
  split <;> simp_all

namespace Expr

variable {scope : Scope} {segments : List String} {op : BinaryOp} {a b e : Expr}

/-- The variable of the template that a path names. -/
def configName? : List String → Option String
  | [s, "entity", "config", name] => if s = "q" ∨ s = "query" then some name else none
  | _ => none

/-- The value of the left operand at which the right one is left alone. -/
def shortcut : BinaryOp → Option Bool
  | .and => some false
  | .or => some true
  | _ => none

/-- What a tree comes to in a scope while `depth` variables are open. -/
inductive Evaluates (scope : Scope) (limit : Nat) :
    Nat → Expr → Except EvalError Value → Prop where
  | literal {depth : Nat} (v : Value) : Evaluates scope limit depth (.literal v) (.ok v)
  /-- No variable with an expression has a part in what the path yields. -/
  | fixed {depth : Nat} {segments : List String} {r : Except EvalError Value}
      (found : ∀ dynamic, lookup scope dynamic segments = r) :
      Evaluates scope limit depth (.path segments) r
  | dynamic {depth : Nat} {segments : List String} {name : String} {next : Expression}
      {r : Except EvalError Value} (named : configName? segments = some name)
      (found : scope.dynamic? name = some next) (below : depth < limit)
      (opened : Evaluates scope limit (depth + 1) next.root r) :
      Evaluates scope limit depth (.path segments) r
  | stopped {depth : Nat} {segments : List String} {name : String} {next : Expression}
      (named : configName? segments = some name) (found : scope.dynamic? name = some next)
      (full : limit ≤ depth) :
      Evaluates scope limit depth (.path segments) (.error (.recursionLimit name))
  | not {depth : Nat} {e : Expr} {r : Except EvalError Value}
      (operand : Evaluates scope limit depth e r) :
      Evaluates scope limit depth (.unary .not e) (r >>= Value.asBool >>= fun b => .ok (.bool (!b)))
  | neg {depth : Nat} {e : Expr} {r : Except EvalError Value}
      (operand : Evaluates scope limit depth e r) :
      Evaluates scope limit depth (.unary .neg e)
        (r >>= Value.asNumber >>= fun x => .ok (.number (-x)))
  | undecided {depth : Nat} {c a b : Expr} {r : Except EvalError Value} {error : EvalError}
      (condition : Evaluates scope limit depth c r) (fails : r >>= Value.asBool = .error error) :
      Evaluates scope limit depth (.ternary c a b) (.error error)
  | branch {depth : Nat} {c a b : Expr} {r r' : Except EvalError Value} {choice : Bool}
      (condition : Evaluates scope limit depth c r) (chosen : r >>= Value.asBool = .ok choice)
      (taken : Evaluates scope limit depth (if choice then a else b) r') :
      Evaluates scope limit depth (.ternary c a b) r'
  | leftUndecided {depth : Nat} {op : BinaryOp} {a b : Expr} {r : Except EvalError Value}
      {decisive : Bool} {error : EvalError} (logical : shortcut op = some decisive)
      (left : Evaluates scope limit depth a r) (fails : r >>= Value.asBool = .error error) :
      Evaluates scope limit depth (.binary op a b) (.error error)
  | leftDecides {depth : Nat} {op : BinaryOp} {a b : Expr} {r : Except EvalError Value}
      {decisive : Bool} (logical : shortcut op = some decisive)
      (left : Evaluates scope limit depth a r) (decides : r >>= Value.asBool = .ok decisive) :
      Evaluates scope limit depth (.binary op a b) (.ok (.bool decisive))
  | rightDecides {depth : Nat} {op : BinaryOp} {a b : Expr} {r r' : Except EvalError Value}
      {decisive : Bool} (logical : shortcut op = some decisive)
      (left : Evaluates scope limit depth a r) (leaves : r >>= Value.asBool = .ok (!decisive))
      (right : Evaluates scope limit depth b r') :
      Evaluates scope limit depth (.binary op a b)
        (r' >>= Value.asBool >>= fun y => .ok (.bool y))
  | leftFails {depth : Nat} {op : BinaryOp} {a b : Expr} {error : EvalError}
      (strict : shortcut op = none) (left : Evaluates scope limit depth a (.error error)) :
      Evaluates scope limit depth (.binary op a b) (.error error)
  | both {depth : Nat} {op : BinaryOp} {a b : Expr} {x : Value} {r : Except EvalError Value}
      (strict : shortcut op = none) (left : Evaluates scope limit depth a (.ok x))
      (right : Evaluates scope limit depth b r) :
      Evaluates scope limit depth (.binary op a b) (r >>= fun y => applyBinary op x y)

/-! ## Evaluating a tree, one operator at a time -/

section

variable (dynamic : String → Expression → Except EvalError Value)

theorem evalWith_not : evalWith scope dynamic (.unary .not e) =
    evalWith scope dynamic e >>= Value.asBool >>= fun b => .ok (.bool (!b)) := by
  rw [evalWith, bind_assoc]
  rfl

theorem evalWith_neg : evalWith scope dynamic (.unary .neg e) =
    evalWith scope dynamic e >>= Value.asNumber >>= fun x => .ok (.number (-x)) := by
  rw [evalWith, bind_assoc]
  rfl

theorem evalWith_ternary {c : Expr} : evalWith scope dynamic (.ternary c a b) =
    evalWith scope dynamic c >>= Value.asBool >>= fun choice =>
      evalWith scope dynamic (if choice then a else b) := by
  rw [evalWith, bind_assoc]
  simp only [apply_ite (evalWith scope dynamic)]

theorem evalWith_logical {decisive : Bool} (h : shortcut op = some decisive) :
    evalWith scope dynamic (.binary op a b) =
      evalWith scope dynamic a >>= Value.asBool >>= fun x =>
        if x = decisive then .ok (.bool decisive)
        else evalWith scope dynamic b >>= Value.asBool >>= fun y => .ok (.bool y) := by
  cases op <;> cases h
  all_goals
    rw [evalWith, bind_assoc]
    refine congrArg _ (funext fun v => congrArg _ (funext fun x => ?_))
    cases x <;> first | rfl | exact (bind_assoc ..).symm

theorem evalWith_strict (h : shortcut op = none) : evalWith scope dynamic (.binary op a b) =
    evalWith scope dynamic a >>= fun x =>
      evalWith scope dynamic b >>= fun y => applyBinary op x y := by
  cases op <;> first | rfl | cases h

theorem configName?_eq_some {name : String} (h : configName? segments = some name) :
    ∃ s, (s = "q" ∨ s = "query") ∧ segments = [s, "entity", "config", name] := by
  unfold configName? at h
  split at h
  · split at h
    · next hs =>
      cases h
      exact ⟨_, hs, rfl⟩
    · cases h
  · cases h

theorem lookup_dynamic {name : String} {next : Expression} (named : configName? segments = some name)
    (found : scope.dynamic? name = some next) : lookup scope dynamic segments = dynamic name next := by
  obtain ⟨s, hs, rfl⟩ := configName?_eq_some named
  simp only [lookup, if_pos hs, Scope.dynamic?_eq_some.mp found]

end

/-- Where a path names no variable with an expression, what it yields depends on none, and evaluation
does not stop there. -/
theorem lookup_cases (scope : Scope) (segments : List String) :
    (∃ name next, configName? segments = some name ∧ scope.dynamic? name = some next) ∨
      ∃ r, (∀ dynamic, lookup scope dynamic segments = r) ∧
        ∀ name, r ≠ .error (.recursionLimit name) := by
  unfold lookup
  dsimp only
  split
  · split
    · next hs =>
      split
      · exact .inr ⟨_, fun _ => rfl, nofun⟩
      · exact .inr ⟨_, fun _ => rfl, nofun⟩
      · next found =>
        exact .inl ⟨_, _, if_pos hs, Scope.dynamic?_eq_some.mpr found⟩
    · exact .inr ⟨_, fun _ => rfl, nofun⟩
  all_goals
    refine .inr ⟨_, fun _ => rfl, fun name h => ?_⟩
    repeat first | cases h | split at h

/-! ## Every tree has one outcome -/

section

variable {limit depth : Nat} {r : Except EvalError Value}

/-- What a variable yields where `limit` more may be opened. -/
def opened (scope : Scope) : Nat → String → Expression → Except EvalError Value
  | 0, name, _ => .error (.recursionLimit name)
  | limit + 1, _, next => eval scope limit next.root

theorem eval_eq (scope : Scope) (limit : Nat) :
    eval scope limit = evalWith scope (opened scope limit) := by
  cases limit <;> rfl

theorem opened_of_lt (below : depth < limit) (name : String) (next : Expression) :
    opened scope (limit - depth) name next = eval scope (limit - (depth + 1)) next.root := by
  rw [show limit - depth = limit - (depth + 1) + 1 by omega]
  rfl

theorem eval_of_evaluates (h : Evaluates scope limit depth e r) :
    eval scope (limit - depth) e = r := by
  induction h with
  | literal v => rw [eval_eq, evalWith]
  | fixed found => rw [eval_eq, evalWith, found]
  | dynamic named found below _ ih =>
    rw [eval_eq, evalWith, lookup_dynamic _ named found, opened_of_lt below, ih]
  | stopped named found full =>
    rw [eval_eq, evalWith, lookup_dynamic _ named found, Nat.sub_eq_zero_of_le full, opened]
  | not _ ih =>
    rw [eval_eq] at ih ⊢
    rw [evalWith_not, ih]
  | neg _ ih =>
    rw [eval_eq] at ih ⊢
    rw [evalWith_neg, ih]
  | undecided _ fails ih =>
    rw [eval_eq] at ih ⊢
    rw [evalWith_ternary, ih, fails]
    rfl
  | branch _ chosen _ ih ih' =>
    rw [eval_eq] at ih ih' ⊢
    rw [evalWith_ternary, ih, chosen, ok_bind, ih']
  | leftUndecided logical _ fails ih =>
    rw [eval_eq] at ih ⊢
    rw [evalWith_logical _ logical, ih, fails]
    rfl
  | leftDecides logical _ decides ih =>
    rw [eval_eq] at ih ⊢
    rw [evalWith_logical _ logical, ih, decides, ok_bind, if_pos rfl]
  | rightDecides logical _ leaves _ ih ih' =>
    rw [eval_eq] at ih ih' ⊢
    rw [evalWith_logical _ logical, ih, leaves, ok_bind, if_neg (by simp), ih']
  | leftFails strict _ ih =>
    rw [eval_eq] at ih ⊢
    rw [evalWith_strict _ strict, ih]
    rfl
  | both strict _ _ ih ih' =>
    rw [eval_eq] at ih ih' ⊢
    rw [evalWith_strict _ strict, ih, ih', ok_bind]

/-- A tree has an outcome where each of the variables it refers to has one. -/
theorem evaluates_evalWith {dynamic : String → Expression → Except EvalError Value}
    (opens : ∀ segments name next, configName? segments = some name →
      scope.dynamic? name = some next →
      Evaluates scope limit depth (.path segments) (dynamic name next)) (e : Expr) :
    Evaluates scope limit depth e (evalWith scope dynamic e) := by
  induction e with
  | literal v => exact .literal v
  | path segments =>
    rw [evalWith]
    obtain ⟨name, next, named, found⟩ | ⟨r, hr, _⟩ := lookup_cases scope segments
    · rw [lookup_dynamic _ named found]
      exact opens segments name next named found
    · exact .fixed fun d => by rw [hr d, hr dynamic]
  | unary op e ih =>
    cases op with
    | not => exact evalWith_not dynamic ▸ .not ih
    | neg => exact evalWith_neg dynamic ▸ .neg ih
  | ternary c a b ihc iha ihb =>
    rw [evalWith_ternary]
    cases hc : evalWith scope dynamic c >>= Value.asBool with
    | error error => exact .undecided ihc hc
    | ok choice =>
      refine .branch ihc hc ?_
      cases choice with
      | true => exact iha
      | false => exact ihb
  | binary op a b iha ihb =>
    cases hop : shortcut op with
    | some decisive =>
      rw [evalWith_logical dynamic hop]
      cases ha : evalWith scope dynamic a >>= Value.asBool with
      | error error => exact .leftUndecided hop iha ha
      | ok x =>
        rw [ok_bind]
        split
        · next hx => exact .leftDecides hop iha (hx ▸ ha)
        · next hx => exact .rightDecides hop iha (ha.trans (congrArg _ (Bool.eq_not.mpr hx))) ihb
    | none =>
      rw [evalWith_strict dynamic hop]
      cases ha : evalWith scope dynamic a with
      | error error => exact .leftFails hop (ha ▸ iha)
      | ok x => exact .both hop (ha ▸ iha) ihb

/-- How many variables may still be opened is what the induction is on. -/
theorem evaluates_eval (scope : Scope) (limit : Nat) {depth left : Nat} (h : limit - depth = left)
    (e : Expr) : Evaluates scope limit depth e (eval scope left e) := by
  induction left generalizing depth e with
  | zero =>
    refine evaluates_evalWith (fun segments name next named found => ?_) e
    exact .stopped named found (by omega)
  | succ left ih =>
    refine evaluates_evalWith (fun segments name next named found => ?_) e
    exact .dynamic named found (by omega) (ih (by omega) next.root)

/-- The rules give a tree one outcome, the one that `eval` computes. -/
theorem evaluates_iff : Evaluates scope limit depth e r ↔ eval scope (limit - depth) e = r :=
  ⟨eval_of_evaluates, fun h => h ▸ evaluates_eval scope limit rfl e⟩

end

end Expr

end Menagerie
