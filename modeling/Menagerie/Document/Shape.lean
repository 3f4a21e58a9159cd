import Menagerie.Named
import Menagerie.Number.Notation

/-!
# Reading data out of documents

A kind of document is `Shaped` when it shows the shapes that typed data is read from: switches,
numbers, texts, lists, maps, optional values and records. What is read is then independent of the
notation it is written in.

A record is found as a list of its fields. Whether a field may be missing is up to the reader:
`Fields.required` fails without it and `Fields.orElse` puts a value in its place.
-/

namespace Menagerie

/-- The fields found in a record. -/
abbrev Fields (δ : Type) := List (String × δ)

namespace Fields

variable {δ α : Type}

/-- A field that has to be there. -/
def required (fields : Fields δ) (name : String) (read : δ → Option α) : Option α :=
  (fields.lookup name).bind read

/-- A field with a value for when it is missing. -/
def orElse (fields : Fields δ) (name : String) (missing : α) (read : δ → Option α) : Option α :=
  match fields.lookup name with
  | some d => read d
  | none => some missing

end Fields

/-- A kind of document that typed data is read from. Each reader fails on any other shape. -/
class Shaped (δ : Type) where
  bool? : δ → Option Bool
  natural? : δ → Option Nat
  /-- A number, a whole one as the nearest double. -/
  number? : δ → Option Float
  text? : δ → Option String
  /-- The name of a member of a closed set. -/
  memberName? : δ → Option String
  /-- An optional value: nothing, or a document. -/
  option? : δ → Option (Option δ)
  list? : δ → Option (List δ)
  /-- A map from texts, in the order of its entries. -/
  entries? : δ → Option (List (String × δ))
  /-- The fields of a record of the given type, which has the given field names. -/
  record? : String → List String → δ → Option (Fields δ)
  /-- The document as plain data, for readers that go by its shape. -/
  plain? : δ → Option Document

namespace Shaped

variable {δ α : Type} [Shaped δ]

def uint32? (d : δ) : Option UInt32 := do
  let n ← natural? d
  if n < UInt32.size then some n.toUInt32 else none

def uint64? (d : δ) : Option UInt64 := do
  let n ← natural? d
  if n < UInt64.size then some n.toUInt64 else none

/-- An optional value read by `read`. -/
def optionOf? (read : δ → Option α) (d : δ) : Option (Option α) := do
  match ← option? d with
  | none => some none
  | some d => (read d).map some

/-- A list whose items are all read by `read`. -/
def listOf? (read : δ → Option α) (d : δ) : Option (List α) := do
  (← list? d).mapM read

/-- A map from texts whose values are all read by `read`; the last value of a repeated key. -/
def mapOf? (read : δ → Option α) (d : δ) : Option (SortedMap String α) := do
  let entries ← (← entries? d).mapM fun (key, d) => (read d).map fun a => (key, a)
  some (SortedMap.ofList entries)

/-- A member of a closed set, by its name. -/
def member? [Named α] (d : δ) : Option α := (memberName? d).bind Named.ofName?

end Shaped

namespace Document

/-- The fields of a record: an object with any fields, or a list of the first so many fields. -/
def record? (names : List String) : Document → Option (Fields Document)
  | .object fields => some fields
  | .list items => if items.length ≤ names.length then some (names.zip items) else none
  | _ => none

/-- The fields of a record that has no fields but the named ones. -/
def strictRecord? (names : List String) (d : Document) : Option (Fields Document) := do
  let fields ← d.record? names
  if fields.all fun f => names.contains f.1 then some fields else none

instance : Shaped Document where
  bool?
    | .bool b => some b
    | _ => none
  natural?
    | .int n => if 0 ≤ n then some n.toNat else none
    | _ => none
  number? := number?
  text? := text?
  memberName?
    | .text s => some s
    | .object [(s, .null)] => some s
    | _ => none
  option?
    | .null => some none
    | d => some (some d)
  list?
    | .list items => some items
    | _ => none
  entries?
    | .object fields => some fields
    | _ => none
  record? _ names d := d.record? names
  plain? := some

/-- A number as plain data. -/
def ofUInt32 (n : UInt32) : Document := .int n.toNat

def ofUInt64 (n : UInt64) : Document := .int n.toNat

def ofOption {α : Type} (write : α → Document) : Option α → Document
  | some a => write a
  | none => .null

def ofList {α : Type} (write : α → Document) (items : List α) : Document := .list (items.map write)

/-- A member of a closed set, as its name. -/
def ofMember {α : Type} [Named α] (a : α) : Document := .text (Named.name a)

/-- A map from texts, in key order. -/
def ofMap {α : Type} (write : α → Document) (m : SortedMap String α) : Document :=
  .object (m.toList.map fun (key, a) => (key, write a))

end Document

end Menagerie
