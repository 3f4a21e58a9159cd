import Menagerie.Clock
import Menagerie.Content.Error
import Menagerie.Expr.Eval

/-!
# Tables of variables

A `VariableTable` holds the declared variables of a template in the order of their names. A variable
has the kind that its first declaration gives it, and a value that is constant has that kind; an
expression has any. An operation that fails yields no table, so what was there before is kept.
-/

namespace Menagerie

/-- What content puts in place of the initial value of a variable. -/
inductive VariableOverride where
  | bool (b : Bool)
  | number (x : Float)
  | expression (e : Expression)
  | text (raw : String)
  deriving DecidableEq, Repr

namespace VariableOverride

/-- The value for a variable of a kind. A text writes it as an initial value is written; an
expression that is a single literal is its value. -/
def value? (kind : VariableKind) : VariableOverride → Option VariableValue
  | bool b => some (.constant (.bool b))
  | number x => some (.constant (.number x))
  | text raw => (kind.read? raw).map .constant
  | expression e =>
    match e.constant? with
    | some v => some (.constant v)
    | none => some (.dynamic e)

/-- Reads an override by its shape: a boolean, a number, an object with an expression, or a
text. -/
def ofDocument? : Document → Option VariableOverride
  | .bool b => some (.bool b)
  | .int n => some (.number (Number.ofInt n))
  | .float x => some (.number x)
  | .text s => some (.text s)
  | .object fields =>
    (Fields.required fields "expression" Expression.ofDocument?).map .expression
  | _ => none

def read? {δ : Type} [Shaped δ] (d : δ) : Option VariableOverride :=
  (Shaped.plain? d).bind ofDocument?

def toDocument : VariableOverride → Document
  | bool b => .bool b
  | number x => .float x
  | expression e => .object [("expression", e.toDocument)]
  | text raw => .text raw

end VariableOverride

/-- A declared variable and its value. -/
structure Variable where
  declaration : Declaration
  value : VariableValue
  deriving DecidableEq, Repr

/-- The variables of a template. -/
structure VariableTable where
  entries : SortedMap String Variable
  deriving DecidableEq

namespace VariableTable

def empty : VariableTable := ⟨.empty⟩

instance : Inhabited VariableTable := ⟨empty⟩

def size (t : VariableTable) : Nat := t.entries.size

def declaration? (t : VariableTable) (name : String) : Option Declaration :=
  (t.entries.get? name).map Variable.declaration

def value? (t : VariableTable) (name : String) : Option VariableValue :=
  (t.entries.get? name).map Variable.value

/-- Declares a variable with its initial value. A variable that is there already keeps its
declaration and its value; the new declaration has to agree in kind. -/
def declare (t : VariableTable) (d : Declaration) (place : Location) :
    Except ContentError VariableTable :=
  match t.declaration? d.name with
  | some known =>
    if known.kind = d.kind then .ok t
    else .error (.kindMismatch place d.name known.kind d.kind)
  | none =>
    match d.initialValue? with
    | some v => .ok ⟨t.entries.insert d.name ⟨d, .constant v⟩⟩
    | none => .error (.invalidParameter place "default" (.badInitial d))

/-- Gives a declared variable another value. -/
def set (t : VariableTable) (name : String) (value : VariableValue) (place : Location) :
    Except ContentError VariableTable :=
  match t.declaration? name with
  | none => .error (.unresolvedVariable place name)
  | some d =>
    let stored : VariableTable := ⟨t.entries.modify name fun v => { v with value }⟩
    match value with
    | .dynamic _ => .ok stored
    | .constant v =>
      if VariableKind.of v = d.kind then .ok stored
      else .error (.kindMismatch place name d.kind (.of v))

/-- Gives a declared variable the value of an override. -/
def applyOverride (t : VariableTable) (name : String) (o : VariableOverride) (place : Location) :
    Except ContentError VariableTable :=
  match t.declaration? name with
  | none => .error (.unresolvedVariable place name)
  | some d =>
    match o.value? d.kind with
    | none => .error (.invalidParameter place "variables" (.badOverride name d.kind))
    | some value => t.set name value place

/-- Applies overrides in the order of their names, each at its own place below `place`. -/
def applyOverrides (t : VariableTable) (overrides : SortedMap String VariableOverride)
    (place : Location) : Except ContentError VariableTable :=
  overrides.toList.foldlM (fun t (name, o) => t.applyOverride name o (place.field name)) t

/-- Declares variables in order, all at one place. -/
def declareAll (t : VariableTable) (ds : List Declaration) (place : Location) :
    Except ContentError VariableTable :=
  ds.foldlM (fun t d => t.declare d place) t

end VariableTable

/-- What an expression may read for an agent: its own properties, the world's, and the variables of
its template. -/
def Scope.ofAgent (agent : String → Option Value) (clock : Clock) (table : VariableTable) : Scope :=
  { entity := some agent, world := some clock.query, config := some table.value? }

end Menagerie
