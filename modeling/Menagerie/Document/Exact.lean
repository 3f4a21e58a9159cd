import Menagerie.Document.Json

/-!
# Numbers to the last bit

Runs are compared by documents in which every number is exact. `exact` writes each double as the
sixteen hexadecimal digits of its bits, the sign first, and every double that is not a number as one
word. `finite` leaves out what JSON has no notation for.

Where a document is written by hand, doubles that JSON has no notation for are read from words
(`numberInWords?`).
-/

namespace Menagerie.Document

/-- The bits of a double in hexadecimal digits. -/
def bitsText (x : Float) : String :=
  if x.isNaN then "nan"
  else String.ofList ((List.range 16).map fun i =>
    Json.hexChar (x.toBits.toNat >>> (4 * (15 - i)) % 16))

mutual

/-- The document with its doubles written by their bits. -/
def exact : Document → Document
  | float x => text (bitsText x)
  | list items => list (exactItems items)
  | object fields => object (exactFields fields)
  | null => null
  | bool b => bool b
  | int n => int n
  | text s => text s

def exactItems : List Document → List Document
  | [] => []
  | d :: rest => d.exact :: exactItems rest

def exactFields : List (String × Document) → List (String × Document)
  | [] => []
  | (name, d) :: rest => (name, d.exact) :: exactFields rest

end

mutual

/-- The document with nothing in place of doubles that are not finite. -/
def finite : Document → Document
  | float x => if x.isFinite then float x else null
  | list items => list (finiteItems items)
  | object fields => object (finiteFields fields)
  | null => null
  | bool b => bool b
  | int n => int n
  | text s => text s

def finiteItems : List Document → List Document
  | [] => []
  | d :: rest => d.finite :: finiteItems rest

def finiteFields : List (String × Document) → List (String × Document)
  | [] => []
  | (name, d) :: rest => (name, d.finite) :: finiteFields rest

end

/-- The double that a word stands for. -/
def ofWord? : String → Option Float
  | "nan" => some Number.nan
  | "inf" => some Number.infinity
  | "-inf" => some (-Number.infinity)
  | "-0" => some (-0.0)
  | "max" => some (Float.ofBits 0x7fefffffffffffff)
  | "eps" => some Number.epsilon
  | _ => none

/-- A number, or a word that stands for one. -/
def numberInWords? : Document → Option Float
  | text s => ofWord? s
  | d => d.number?

end Menagerie.Document
