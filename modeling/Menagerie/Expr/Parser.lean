import Menagerie.Expr.Token

/-!
# Reading expression trees

Operators bind with a power, loosest first: the conditional `?:`, `||`, `&&`, the equalities, the
comparisons, the sums, the products. `expression` reads an operand and lets `extend` take operators
to its right for as long as they bind at least as tightly as asked. Operators of one power group to
the left, the conditional to the right.

An error names the offset of the token that is in the way, or the length of the source where it
ends too early.
-/

namespace Menagerie.Expr

/-- How tightly an operator binds. -/
def bindingPower : BinaryOp → Nat
  | .or => 2
  | .and => 3
  | .eq | .ne => 4
  | .lt | .le | .gt | .ge => 5
  | .add | .sub => 6
  | .mul | .div | .rem => 7

/-- The conditional binds loosest. -/
def conditionalPower : Nat := 1

/-- A sign or a negation binds tighter than any operator. -/
def unaryPower : Nat := 8

/-- The offset of the next token, or `stop` where there is none. -/
def offsetOf (stop : Nat) : List Spot → Nat
  | [] => stop
  | (offset, _) :: _ => offset

/-- The tokens after `token`, which has to come next. -/
def expect (stop : Nat) (token : Token) (what : String) :
    List Spot → Except EvalError (List Spot)
  | [] => .error (.parse stop s!"expected {what}")
  | (offset, t) :: rest =>
    if t = token then .ok rest else .error (.parse offset s!"expected {what}")

/-- The names that continue a path, each after a dot, and the tokens after them. -/
def pathTail : List Spot → Except EvalError (List String × List Spot)
  | (_, .dot) :: (_, .ident name) :: rest => do
    let (names, rest) ← pathTail rest
    return (name :: names, rest)
  | (_, .dot) :: (offset, _) :: _ => .error (.parse offset "expected name after `.`")
  | [(offset, .dot)] => .error (.parse offset "expected name after `.`")
  | ts => .ok ([], ts)

/-- What a name begins: one of the two boolean words, in any letter case, or a path. The first name
of a path is taken in lower case. -/
def nameExpr (name : String) (ts : List Spot) : Except EvalError (Expr × List Spot) :=
  let word := Text.lower name.toList
  if word = "true".toList then .ok (.literal (.bool true), ts)
  else if word = "false".toList then .ok (.literal (.bool false), ts)
  else do
    let (names, rest) ← pathTail ts
    return (.path (String.ofList word :: names), rest)

mutual

/-- An expression whose operators bind at least as tightly as `power`, and the tokens after it. -/
def expression : Nat → Nat → Nat → List Spot → Except EvalError (Expr × List Spot)
  | 0, stop, _, _ => .error (.parse stop "unexpected end of expression")
  | fuel + 1, stop, power, ts => do
    let (lhs, rest) ← operand fuel stop ts
    extend fuel stop power lhs rest

/-- Takes operators and their right operands to what has been read so far. -/
def extend : Nat → Nat → Nat → Expr → List Spot → Except EvalError (Expr × List Spot)
  | 0, stop, _, _, _ => .error (.parse stop "unexpected end of expression")
  | fuel + 1, stop, power, lhs, ts =>
    match ts with
    | (_, .operator op) :: rest =>
      if bindingPower op < power then .ok (lhs, ts)
      else do
        let (rhs, rest) ← expression fuel stop (bindingPower op + 1) rest
        extend fuel stop power (.binary op lhs rhs) rest
    | (_, .question) :: rest =>
      if conditionalPower < power then .ok (lhs, ts)
      else do
        let (whenTrue, rest) ← expression fuel stop conditionalPower rest
        let rest ← expect stop .colon "`:` in conditional" rest
        let (whenFalse, rest) ← expression fuel stop conditionalPower rest
        extend fuel stop power (.ternary lhs whenTrue whenFalse) rest
    | _ => .ok (lhs, ts)

/-- A literal, a path, a parenthesised expression, or one of these behind signs. -/
def operand : Nat → Nat → List Spot → Except EvalError (Expr × List Spot)
  | 0, stop, _ => .error (.parse stop "unexpected end of expression")
  | fuel + 1, stop, ts =>
    match ts with
    | [] => .error (.parse stop "unexpected end of expression")
    | (_, .number x) :: rest => .ok (.literal (.number x), rest)
    | (_, .text s) :: rest => .ok (.literal (.text s), rest)
    | (_, .bang) :: rest => do
      let (e, rest) ← expression fuel stop unaryPower rest
      return (.unary .not e, rest)
    | (_, .operator .sub) :: rest => do
      let (e, rest) ← expression fuel stop unaryPower rest
      return (.unary .neg e, rest)
    | (_, .leftParen) :: rest => do
      let (e, rest) ← expression fuel stop 0 rest
      let rest ← expect stop .rightParen "`)`" rest
      return (e, rest)
    | (_, .ident name) :: rest => nameExpr name rest
    | (offset, token) :: _ => .error (.parse offset s!"unexpected token {token.describe}")

end

/-- Fuel that no reading of so many tokens uses up: between two tokens taken at most three calls
lie. -/
def enoughFuel (tokens : Nat) : Nat := 3 * tokens + 3

/-- The tree that all the tokens together write. -/
def ofTokens (stop : Nat) (ts : List Spot) : Except EvalError Expr := do
  let (e, rest) ← expression (enoughFuel ts.length) stop 0 ts
  match rest with
  | [] => return e
  | (offset, _) :: _ => .error (.parse offset "trailing input")

/-- The tree that a source writes. -/
def parse (source : String) : Except EvalError Expr := do
  let cs := source.toList
  let ts ← tokenize cs
  ofTokens (Text.byteLength cs) ts

end Menagerie.Expr
