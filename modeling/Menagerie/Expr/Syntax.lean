import Menagerie.Expr.Value

/-!
# Expression trees

An expression is built from literals and dotted paths with the usual operators. Which operator
takes its operands first is a matter of reading; the tree shows the result.
-/

namespace Menagerie

inductive UnaryOp where
  | not
  | neg
  deriving DecidableEq, Repr

inductive BinaryOp where
  | mul
  | div
  | rem
  | add
  | sub
  | lt
  | le
  | gt
  | ge
  | eq
  | ne
  | and
  | or
  deriving DecidableEq, Repr

/-- An expression tree. -/
inductive Expr where
  | literal (v : Value)
  /-- A name with the names that follow it, each after a dot. -/
  | path (segments : List String)
  | unary (op : UnaryOp) (operand : Expr)
  | binary (op : BinaryOp) (lhs rhs : Expr)
  /-- One of two expressions, by a condition. -/
  | ternary (condition whenTrue whenFalse : Expr)
  deriving DecidableEq, Repr

end Menagerie
