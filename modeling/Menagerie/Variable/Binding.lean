import Menagerie.Variable.Table

/-!
# Bindings of parameters

Content gives a parameter a value by a `Binding`: an expression, or the name of a variable of the
template, which may carry the variable's declaration along. Against a table of variables a binding
becomes a `Param`, in which constants are values already.
-/

namespace Menagerie

/-- A variable named by a parameter, with what is known of its declaration. -/
structure VariableReference where
  name : String
  category : Option String := none
  kind : Option VariableKind := none
  initial : Option String := none
  deriving DecidableEq, Repr

namespace VariableReference

def ofDeclaration (d : Declaration) : VariableReference :=
  ⟨d.name, some d.category, some d.kind, some d.initial⟩

/-- The declaration that the reference carries, if both kind and initial value are known. -/
def declaration? (r : VariableReference) : Option Declaration := do
  let kind ← r.kind
  let initial ← r.initial
  return { category := r.category.getD "misc", name := r.name, kind, initial }

def ofDocument? (d : Document) : Option VariableReference := do
  let fields ← d.record? ["variable", "category", "type", "default"]
  return {
    name := ← fields.required "variable" Shaped.text?
    category := ← fields.orElse "category" none (Shaped.optionOf? Shaped.text?)
    kind := ← fields.orElse "type" none (Shaped.optionOf? Shaped.member?)
    initial := ← fields.orElse "default" none (Shaped.optionOf? Shaped.text?) }

def toDocument (r : VariableReference) : Document :=
  .object <|
    [("variable", .text r.name)] ++
    (r.category.map fun s => ("category", Document.text s)).toList ++
    (r.kind.map fun k => ("type", Document.ofMember k)).toList ++
    (r.initial.map fun s => ("default", Document.text s)).toList

end VariableReference

/-- A parameter whose value is known, or known to be that of an expression. -/
inductive Param where
  | constant (v : Value)
  | expression (e : Expression)
  deriving DecidableEq, Repr

namespace Param

/-- The value of a parameter in a scope. -/
def value (limit : Nat) (scope : Scope) : Param → Except EvalError Value
  | constant v => .ok v
  | expression e => e.eval limit scope

def bool (limit : Nat) (scope : Scope) (p : Param) : Except EvalError Bool :=
  (p.value limit scope).bind Value.asBool

def number (limit : Nat) (scope : Scope) (p : Param) : Except EvalError Float :=
  (p.value limit scope).bind Value.asNumber

/-- The whole part of the number, toward zero. -/
def whole (limit : Nat) (scope : Scope) (p : Param) : Except EvalError Int :=
  (p.number limit scope).map Number.wholePart

def text (limit : Nat) (scope : Scope) (p : Param) : Except EvalError String :=
  (p.value limit scope).bind Value.asText

end Param

/-- How content gives a parameter its value. -/
inductive Binding where
  | reference (r : VariableReference)
  | literal (e : Expression)
  deriving DecidableEq, Repr

namespace Binding

def bool (b : Bool) : Binding := literal (.constant (.bool b))

def number (x : Float) : Binding := literal (.constant (.number x))

/-- A reference that declares its variable. -/
def declaring (d : Declaration) : Binding := reference (.ofDeclaration d)

/-- The declaration that the binding carries. -/
def declaration? : Binding → Option Declaration
  | reference r => r.declaration?
  | literal _ => none

/-- The parameter that a binding is, given the variables. A constant variable is its value; any
other is read anew each time. -/
def simplify (table : VariableTable) (place : Location) : Binding → Except ContentError Param
  | literal e =>
    match e.constant? with
    | some v => .ok (.constant v)
    | none => .ok (.expression e)
  | reference r =>
    match table.entries.get? r.name with
    | none => .error (.unresolvedVariable place r.name)
    | some known =>
      let param : Param := match known.value with
        | .constant v => .constant v
        | .dynamic _ => .expression (.configLookup r.name)
      match r.kind with
      | none => .ok param
      | some kind =>
        if kind = known.declaration.kind then .ok param
        else .error (.kindMismatch place r.name known.declaration.kind kind)

/-- Reads a binding by its shape: a reference where it can be read as one, else an expression. -/
def ofDocument? (d : Document) : Option Binding :=
  match VariableReference.ofDocument? d with
  | some r => some (reference r)
  | none => (Expression.ofDocument? d).map literal

def toDocument : Binding → Document
  | reference r => r.toDocument
  | literal e => e.toDocument

end Binding

end Menagerie
