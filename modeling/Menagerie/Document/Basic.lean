import Menagerie.Number.Binary
import Menagerie.SortedMap

/-!
# Documents

A `Document` is a tree of plain data: what a content file holds before anything is made of it, and
what a report is before it is printed. Whole numbers and doubles are kept apart, because a field
that counts takes whole numbers only.

An object that was read has its fields in key order with no key twice (`Document.ofFields`). A
written object keeps the order in which its fields were listed.
-/

namespace Menagerie

/-- A tree of plain data. -/
inductive Document where
  | null
  | bool (b : Bool)
  | int (n : Int)
  | float (x : Float)
  | text (s : String)
  | list (items : List Document)
  | object (fields : List (String × Document))
  deriving Inhabited, Repr

namespace Document

/-- An object from its fields as they were read: ordered by key, the last of a repeated key. -/
def ofFields (fields : List (String × Document)) : Document :=
  .object (SortedMap.ofList fields).toList

mutual

/-- How many lists and objects lie inside one another. -/
def depth : Document → Nat
  | .list items => depthItems items + 1
  | .object fields => depthFields fields + 1
  | _ => 0

def depthItems : List Document → Nat
  | [] => 0
  | d :: rest => max d.depth (depthItems rest)

def depthFields : List (String × Document) → Nat
  | [] => 0
  | (_, d) :: rest => max d.depth (depthFields rest)

end

/-- The field of an object with the given name. -/
def field? (name : String) : Document → Option Document
  | .object fields => fields.lookup name
  | _ => none

/-- The text, if the document is one. -/
def text? : Document → Option String
  | .text s => some s
  | _ => none

/-- The number that a document stands for, a whole number as the nearest double. -/
def number? : Document → Option Float
  | .int n => some (Number.ofInt n)
  | .float x => some x
  | _ => none

end Document

end Menagerie
