import Menagerie.Simulation.Engine

/-!
# Snapshots of errors

An error is shown by its kind in one word and by its message. A complaint about content adds the
node that is at fault, and the error of an expression where that is the cause.
-/

namespace Menagerie

/-- An error by its kind and message, and what else there is to say of it. -/
def errorSnapshot (kind message : String) (more : List (String × Document)) : Document :=
  .object ([("error", .text kind), ("message", .text message)] ++ more)

namespace EvalError

def kind : EvalError → String
  | parse .. => "Parse"
  | unknownPath _ => "UnknownPath"
  | typeMismatch .. => "TypeMismatch"
  | divisionByZero => "DivisionByZero"
  | recursionLimit _ => "RecursionLimit"
  | noEntity _ => "NoEntity"

def snapshot (e : EvalError) : Document := errorSnapshot e.kind e.message []

end EvalError

namespace MemoryError

def kind : MemoryError → String
  | unregistered _ => "Unregistered"
  | kindMismatch .. => "KindMismatch"

def snapshot (e : MemoryError) : Document := errorSnapshot e.kind e.message []

end MemoryError

namespace ContentError

def kind : ContentError → String
  | unknownTag .. => "UnknownTag"
  | duplicateTag _ => "DuplicateTag"
  | missingField .. => "MissingField"
  | malformed .. => "Malformed"
  | unresolvedVariable .. => "UnresolvedVariable"
  | kindMismatch .. => "VariableTypeMismatch"
  | emptyChoice _ => "EmptyChoice"
  | invalidParameter .. => "InvalidParameter"
  | unregisteredMemory .. => "UnregisteredMemory"
  | expression .. => "Expression"

/-- The error of an expression that is behind the complaint. -/
def cause? : ContentError → Option EvalError
  | expression _ cause => some cause
  | _ => none

def snapshot (e : ContentError) : Document :=
  errorSnapshot e.kind e.message <|
    ("path", Document.ofOption (fun p => .text (Location.text p)) e.place?) ::
    (e.cause?.map fun cause => ("source", cause.snapshot)).toList

end ContentError

namespace SimulationError

def kind : SimulationError → String
  | unknownTemplate _ => "UnknownTemplate"
  | disabledTemplate _ => "DisabledTemplate"
  | duplicateAgent _ => "DuplicateAgent"
  | unknownAgent _ => "UnknownAgent"
  | content e => e.kind

/-- A refusal; one that is due to content is shown as the complaint about content. -/
def snapshot : SimulationError → Document
  | content e => e.snapshot
  | e => errorSnapshot e.kind e.message []

end SimulationError

/-- A fault, given the text of its cause. -/
def Fault.snapshot {Cause : Type} (text : Cause → String) (f : Fault Cause) : Document :=
  .object [("error", .text "BehaviorFault"), ("node", .text f.node),
    ("text", .text (text f.cause)), ("message", .text (f.message text))]

end Menagerie
