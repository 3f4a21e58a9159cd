import Menagerie.Document.Shape
import Menagerie.Expr.Value

/-!
# Declared variables

Content declares the variables that its behaviours read, each with a kind and an initial value in
writing. `VariableKind.read?` says which texts write a value of a kind.
-/

namespace Menagerie

/-- The kind of value that a variable has. -/
inductive VariableKind where
  | boolean
  | number
  | text
  deriving DecidableEq, Repr

namespace VariableKind

instance : Named VariableKind where
  all := [.boolean, .number, .text]
  name
    | .boolean => "boolean"
    | .number => "number"
    | .text => "text"

/-- The value that a text writes, blanks at its ends apart. Booleans are the two words in any letter
case, or one and zero. -/
def read? (kind : VariableKind) (raw : String) : Option Value :=
  let body := Text.trim raw.toList
  match kind with
  | boolean =>
    let word := String.ofList (Text.lower body)
    if word = "true" ∨ word = "1" then some (.bool true)
    else if word = "false" ∨ word = "0" then some (.bool false)
    else none
  | number => (Number.read? body).map .number
  | text => some (.text (String.ofList body))

/-- The kind of a value. -/
def of : Value → VariableKind
  | .bool _ => boolean
  | .number _ => number
  | .text _ => text

theorem of_read? {kind : VariableKind} {raw : String} {v : Value}
    (h : kind.read? raw = some v) : of v = kind := by
  cases kind with
  | boolean =>
    simp only [read?] at h
    split at h
    · cases h; rfl
    · split at h
      · cases h; rfl
      · cases h
  | number =>
    simp only [read?, Option.map_eq_some_iff] at h
    obtain ⟨x, _, rfl⟩ := h
    rfl
  | text =>
    simp only [read?, Option.some.injEq] at h
    subst h
    rfl

end VariableKind

/-- A variable as content declares it. -/
structure Declaration where
  category : String
  name : String
  kind : VariableKind
  /-- The initial value, in writing. -/
  initial : String
  displayName : Option String := none
  description : Option String := none
  deriving DecidableEq, Repr

namespace Declaration

def boolean (category name : String) (initial : Bool) : Declaration :=
  { category, name, kind := .boolean, initial := (Value.bool initial).describe }

def number (category name : String) (initial : Float) : Declaration :=
  { category, name, kind := .number, initial := (Value.number initial).describe }

/-- The initial value, if what is written is one of the declared kind. -/
def initialValue? (d : Declaration) : Option Value := d.kind.read? d.initial

def read? {δ : Type} [Shaped δ] (d : δ) : Option Declaration := do
  let fields ← Shaped.record? "DeclaredVariable"
    ["category", "name", "type", "default", "display_name", "description"] d
  return {
    category := ← fields.required "category" Shaped.text?
    name := ← fields.required "name" Shaped.text?
    kind := ← fields.required "type" Shaped.member?
    initial := ← fields.required "default" Shaped.text?
    displayName := ← fields.orElse "display_name" none (Shaped.optionOf? Shaped.text?)
    description := ← fields.orElse "description" none (Shaped.optionOf? Shaped.text?) }

def toDocument (d : Declaration) : Document :=
  .object <|
    [("category", .text d.category), ("name", .text d.name), ("type", Document.ofMember d.kind),
      ("default", .text d.initial)] ++
    (d.displayName.map fun s => ("display_name", Document.text s)).toList ++
    (d.description.map fun s => ("description", Document.text s)).toList

end Declaration

end Menagerie
