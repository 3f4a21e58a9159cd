import Menagerie.Document.Basic
import Menagerie.Expr.Parser

/-!
# Expressions

An `Expression` is a tree together with the source it was read from. In documents an expression is
written as its source; a bare number or boolean stands for the expression that is always that
value.
-/

namespace Menagerie

/-- An expression tree and its source. -/
structure Expression where
  source : String
  root : Expr
  deriving DecidableEq, Repr

namespace Expression

/-- Reads a source. Blanks at its two ends are not kept. -/
def parse (source : String) : Except EvalError Expression := do
  let root ← Expr.parse source
  return ⟨String.ofList (Text.trim source.toList), root⟩

/-- The expression that is always `v`. -/
def constant (v : Value) : Expression := ⟨v.source, .literal v⟩

/-- The expression that reads a variable of the template. -/
def configLookup (name : String) : Expression :=
  ⟨"q.entity.config." ++ name, .path ["q", "entity", "config", name]⟩

/-- The value of an expression that is a single literal. -/
def constant? (e : Expression) : Option Value :=
  match e.root with
  | .literal v => some v
  | _ => none

/-- Reads an expression out of a document. -/
def ofDocument? : Document → Option Expression
  | .text s => (parse s).toOption
  | .bool b => some (constant (.bool b))
  | .int n => some (constant (.number (Number.ofInt n)))
  | .float x => some (constant (.number x))
  | _ => none

def toDocument (e : Expression) : Document := .text e.source

end Expression

end Menagerie
