import Menagerie.Expr.Expression

/-!
# Evaluating expressions

A `Scope` is everything an expression may read: the properties of an agent and of the world, the
variables of a template, and local names. A variable is a constant or an expression of its own,
which is evaluated in the same scope each time it is read. How many variables may refer to one
another in a chain is limited, so that evaluation ends whatever the variables are.
-/

namespace Menagerie

/-- What a variable is: a value, or an expression evaluated at each reading. -/
inductive VariableValue where
  | constant (v : Value)
  | dynamic (e : Expression)
  deriving DecidableEq, Repr

/-- Everything an expression may read. -/
structure Scope where
  /-- Properties of the agent, if there is one. -/
  entity : Option (String → Option Value) := none
  /-- Properties of the world, if they are known. -/
  world : Option (String → Option Value) := none
  /-- Variables of the template, if there is one. -/
  config : Option (String → Option VariableValue) := none
  locals : List (String × Value) := []

namespace Expr

/-- Applies an operator to the values of its operands. The left operand is looked at first. -/
def applyBinary (op : BinaryOp) (a b : Value) : Except EvalError Value :=
  match op with
  | .eq => .ok (.bool (a.looselyEqual b))
  | .ne => .ok (.bool (!a.looselyEqual b))
  | .add => numbers fun x y => .ok (.number (x + y))
  | .sub => numbers fun x y => .ok (.number (x - y))
  | .mul => numbers fun x y => .ok (.number (x * y))
  | .div => numbers fun x y => if y == 0.0 then .error .divisionByZero else .ok (.number (x / y))
  | .rem => numbers fun x y =>
    if y == 0.0 then .error .divisionByZero else .ok (.number (Number.remainder x y))
  | .lt => numbers fun x y => .ok (.bool (x < y))
  | .le => numbers fun x y => .ok (.bool (x ≤ y))
  | .gt => numbers fun x y => .ok (.bool (x > y))
  | .ge => numbers fun x y => .ok (.bool (x ≥ y))
  | .and => booleans (· && ·)
  | .or => booleans (· || ·)
where
  numbers (f : Float → Float → Except EvalError Value) : Except EvalError Value := do
    let x ← a.asNumber
    let y ← b.asNumber
    f x y
  booleans (f : Bool → Bool → Bool) : Except EvalError Value := do
    let x ← a.asBool
    let y ← b.asBool
    return .bool (f x y)

/-- Looks a path up. `dynamic` says what a variable that is an expression yields. -/
def lookup (scope : Scope) (dynamic : String → Expression → Except EvalError Value)
    (segments : List String) : Except EvalError Value :=
  let path := ".".intercalate segments
  let unknown : Except EvalError Value := .error (.unknownPath path)
  let orUnknown : Option Value → Except EvalError Value
    | some v => .ok v
    | none => unknown
  let isQuery (s : String) := s = "q" ∨ s = "query"
  match segments with
  | [s, "entity", "config", name] =>
    if isQuery s then
      match scope.config.bind fun config => config name with
      | none => unknown
      | some (.constant v) => .ok v
      | some (.dynamic e) => dynamic name e
    else unknown
  | [s, "entity", property] =>
    if isQuery s then
      match scope.entity with
      | none => .error (.noEntity path)
      | some query => orUnknown (query property)
    else unknown
  | [s, "world", property] =>
    if isQuery s then orUnknown (scope.world.bind fun query => query property) else unknown
  | [s, name] =>
    if s = "v" ∨ s = "variable" then orUnknown (scope.locals.lookup name) else unknown
  | _ => unknown

/-- Evaluates a tree. `&&` and `||` leave their right operand alone where the left one decides, and
a conditional evaluates one of its branches only. -/
def evalWith (scope : Scope) (dynamic : String → Expression → Except EvalError Value) :
    Expr → Except EvalError Value
  | .literal v => .ok v
  | .path segments => lookup scope dynamic segments
  | .unary .not e => do
    let b ← (← evalWith scope dynamic e).asBool
    return .bool (!b)
  | .unary .neg e => do
    let x ← (← evalWith scope dynamic e).asNumber
    return .number (-x)
  | .ternary c a b => do
    let condition ← (← evalWith scope dynamic c).asBool
    if condition then evalWith scope dynamic a else evalWith scope dynamic b
  | .binary .and a b => do
    let x ← (← evalWith scope dynamic a).asBool
    if x then
      let y ← (← evalWith scope dynamic b).asBool
      return .bool y
    else return .bool false
  | .binary .or a b => do
    let x ← (← evalWith scope dynamic a).asBool
    if x then return .bool true
    else
      let y ← (← evalWith scope dynamic b).asBool
      return .bool y
  | .binary op a b => do
    let x ← evalWith scope dynamic a
    let y ← evalWith scope dynamic b
    applyBinary op x y

/-- Evaluates a tree in which variables may refer to one another in chains of `limit` expressions
at most. -/
def eval (scope : Scope) : Nat → Expr → Except EvalError Value
  | 0 => evalWith scope fun name _ => .error (.recursionLimit name)
  | limit + 1 => evalWith scope fun _ e => eval scope limit e.root

end Expr

/-- How long a chain of variables that are expressions may be, unless it is said otherwise. -/
def defaultChainLimit : Nat := 8

/-- The value of an expression. -/
def Expression.eval (limit : Nat) (scope : Scope) (e : Expression) : Except EvalError Value :=
  Expr.eval scope limit e.root

end Menagerie
