import Menagerie.Number.Notation

/-!
# Values of expressions

An expression yields a boolean, a number or a text. Booleans and numbers stand in for each other;
a text stands for nothing but itself.
-/

namespace Menagerie

/-- Why an expression could not be read or has no value. -/
inductive EvalError where
  /-- The source is no expression; the offset counts bytes. -/
  | parse (offset : Nat) (message : String)
  | unknownPath (path : String)
  | typeMismatch (expected found : String)
  | divisionByZero
  /-- Variables that are expressions refer to one another in too long a chain. -/
  | recursionLimit (name : String)
  /-- The path is about an agent, and there is none. -/
  | noEntity (path : String)
  deriving DecidableEq, Repr

def EvalError.message : EvalError → String
  | .parse offset message => s!"parse error at offset {offset}: {message}"
  | .unknownPath path => s!"unknown path `{path}`"
  | .typeMismatch expected found => s!"expected {expected}, found {found}"
  | .divisionByZero => "division by zero"
  | .recursionLimit name => s!"config variable `{name}` nests too deeply"
  | .noEntity path => s!"`{path}` needs an entity but none is bound"

/-- What an expression yields. -/
inductive Value where
  | bool (b : Bool)
  | number (x : Float)
  | text (s : String)
  deriving DecidableEq, Repr

namespace Value

def typeName : Value → String
  | .bool _ => "boolean"
  | .number _ => "number"
  | .text _ => "text"

/-- Every number but zero is true. -/
def asBool : Value → Except EvalError Bool
  | .bool b => .ok b
  | .number x => .ok (x != 0.0)
  | .text _ => .error (.typeMismatch "boolean" "text")

/-- True is one and false is zero. -/
def asNumber : Value → Except EvalError Float
  | .number x => .ok x
  | .bool b => .ok (if b then 1.0 else 0.0)
  | .text _ => .error (.typeMismatch "number" "text")

def asText : Value → Except EvalError String
  | .text s => .ok s
  | v => .error (.typeMismatch "text" v.typeName)

/-- How a value is shown. -/
def describe : Value → String
  | .bool b => if b then "true" else "false"
  | .number x => Number.Notation.plain.render x
  | .text s => s

/-- Expression source that stands for the value. A text is put into single quotes and loses its
own. -/
def source : Value → String
  | .text s => "'" ++ String.ofList (s.toList.filter (· != '\'')) ++ "'"
  | v => v.describe

/-- Whether two values are the same as numbers are compared: the two zeros are, and what is not a
number differs from itself. -/
def same : Value → Value → Bool
  | .bool a, .bool b => a == b
  | .number x, .number y => x == y
  | .text s, .text t => s == t
  | _, _ => false

/-- Equality inside expressions: a text equals the same text only, and booleans compare as
numbers. -/
def looselyEqual (a b : Value) : Bool :=
  match a, b with
  | .text s, .text t => s == t
  | .text _, _ => false
  | _, .text _ => false
  | a, b =>
    match a.asNumber, b.asNumber with
    | .ok x, .ok y => x == y
    | _, _ => false

end Value

end Menagerie
