import Menagerie.Activity.Label
import Menagerie.Document.Json
import Menagerie.Location
import Menagerie.Memory.Key
import Menagerie.Terrain.Feature
import Menagerie.Variable.Declaration

/-!
# What can be wrong with content

Each complaint about content names its cause and, but for one that is about no node, the location of
the node that is at fault. The wording of all of them is in `ContentError.message`.
-/

namespace Menagerie

/-- How a node differs from the shape that is asked for. -/
inductive Malformation where
  | notAnObject
  | notAList
  /-- An entry of a weighted list that is no object. -/
  | notAnEntry
  | notAText (found : Document)
  | unknownField (name : String)
  | repeatedActivity (activity : Activity)
  | repeatedTemplate (name : String)
  /-- The node cannot be read as the data that belongs there. -/
  | unreadable

def Malformation.message : Malformation → String
  | notAnObject => "task must be an object"
  | notAList => "expected a list"
  | notAnEntry => "expected `\x7b weight, task \x7d`"
  | notAText found => "expected a string, found " ++ Document.Json.compact found
  | unknownField name => s!"unknown field `{name}`"
  | repeatedActivity activity => s!"activity `{Named.name activity}` is listed twice"
  | repeatedTemplate name => s!"template `{name}` is defined more than once"
  | unreadable => "cannot be read"

/-- Why a parameter is refused. -/
inductive Objection where
  | belowOne (ticks : Int)
  | negative (ticks : Int)
  | notFinite (x : Float)
  | notPositive (x : Float)
  | notAFluid (kind : FeatureKind)
  | noActivity (activity : Activity)
  /-- What a declaration gives as its initial value is of another kind. -/
  | badInitial (declaration : Declaration)
  /-- An override does not write a value of the variable's kind. -/
  | badOverride (name : String) (kind : VariableKind)
  | notANatural (found : Document)
  | notAWeight (found : Document)

def Objection.message : Objection → String
  | belowOne ticks => s!"must be at least 1, got {ticks}"
  | negative ticks => s!"must not be negative, got {ticks}"
  | notFinite x => s!"must be a finite number, got {Number.Notation.plain.render x}"
  | notPositive x => s!"must be positive, got {Number.Notation.plain.render x}"
  | notAFluid kind => s!"`{Named.name kind}` is not a fluid"
  | noActivity activity => s!"`{Named.name activity}` has no activity entry"
  | badInitial d => s!"`{d.initial}` is not a valid {Named.name d.kind} for `{d.name}`"
  | badOverride name kind => s!"override for `{name}` is not a valid {Named.name kind}"
  | notANatural found => "expected a non-negative integer, found " ++ Document.Json.compact found
  | notAWeight found => "expected a non-negative number, found " ++ Document.Json.compact found

/-- A complaint about content. -/
inductive ContentError where
  | unknownTag (place : Location) (tag : String)
  | duplicateTag (tag : String)
  | missingField (place : Location) (field : String)
  | malformed (place : Location) (how : Malformation)
  | unresolvedVariable (place : Location) (name : String)
  | kindMismatch (place : Location) (name : String) (declared used : VariableKind)
  | emptyChoice (place : Location)
  | invalidParameter (place : Location) (field : String) (why : Objection)
  | unregisteredMemory (place : Location) (key : MemoryKey)
  | expression (place : Location) (cause : EvalError)

namespace ContentError

/-- The node that is at fault. -/
def place? : ContentError → Option Location
  | duplicateTag _ => none
  | unknownTag place _ | missingField place _ | malformed place _ | unresolvedVariable place _
  | kindMismatch place _ _ _ | emptyChoice place | invalidParameter place _ _
  | unregisteredMemory place _ | expression place _ => some place

/-- What is wrong, without the place. -/
def complaint : ContentError → String
  | unknownTag _ tag => s!"unknown task type `{tag}`"
  | duplicateTag tag => s!"task type `{tag}` is already registered"
  | missingField _ field => s!"missing field `{field}`"
  | malformed _ how => how.message
  | unresolvedVariable _ name => s!"variable `{name}` is not declared"
  | kindMismatch _ name declared used =>
    s!"variable `{name}` is declared as {Named.name declared} but used as {Named.name used}"
  | emptyChoice _ => "choice list has no selectable entry"
  | invalidParameter _ field why => s!"invalid `{field}`: {why.message}"
  | unregisteredMemory _ key => s!"memory `{Named.name key}` is required but not registered"
  | expression _ _ => "expression failed"

def message (e : ContentError) : String :=
  match e.place? with
  | some place => place.describe ++ ": " ++ e.complaint
  | none => e.complaint

end ContentError

end Menagerie
