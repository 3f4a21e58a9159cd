import Menagerie.Document.Exact
import Menagerie.Variable.Binding

/-!
# Snapshots of variables

A value is shown as an object with one field, which is named for the kind of the value; what is
still an expression is shown by its source. Values are also read where they stand by themselves.
-/

namespace Menagerie

namespace Value

/-- The field that shows a value. -/
def snapshotField : Value → String × Document
  | bool b => ("bool", .bool b)
  | number x => ("number", .float x)
  | text s => ("text", .text s)

def snapshot (v : Value) : Document := .object [v.snapshotField]

def ofSnapshot? : Document → Option Value
  | .bool b | .object [("bool", .bool b)] => some (bool b)
  | .text s | .object [("text", .text s)] => some (text s)
  | .object [("number", d)] | d => d.numberInWords?.map number

end Value

def VariableValue.snapshot : VariableValue → Document
  | constant v => .object [("constant", v.snapshot)]
  | dynamic e => .object [("dynamic", e.toDocument)]

def Variable.snapshot (v : Variable) : Document :=
  .object [("declaration", v.declaration.toDocument), ("value", v.value.snapshot)]

/-- The variables in the order of their names. -/
def VariableTable.snapshot (t : VariableTable) : Document :=
  Document.ofList Variable.snapshot t.entries.values

def Param.snapshot : Param → Document
  | constant v => .object [("constant", v.snapshot)]
  | expression e => .object [("expression", e.toDocument)]

def Expression.snapshot (e : Expression) : Document :=
  .object [("source", e.toDocument), ("constant", Document.ofOption Value.snapshot e.constant?)]

end Menagerie
