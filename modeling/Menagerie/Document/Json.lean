import Menagerie.Document.Basic
import Menagerie.Number.Notation

/-!
# JSON

Reading and writing documents as JSON text. A number with neither point nor exponent is whole if
it fits a 64-bit word; any other number is a double, and one beyond the largest double is refused.
The last of a repeated key stays, and lists and objects may lie 127 deep.

`compact` writes no blanks; `pretty` writes each item on a line of its own, indented by two for
each level.
-/

namespace Menagerie.Document.Json

/-! ## Reading -/

def isSpace (c : Char) : Bool := c == ' ' || c == '\n' || c == '\t' || c == '\r'

def skipSpace (cs : List Char) : List Char := cs.dropWhile isSpace

/-- How deep lists and objects may lie. -/
def depthLimit : Nat := 127

/-- The text after `word`, if it begins with it. -/
def dropPrefix? (word cs : List Char) : Option (List Char) :=
  match word, cs with
  | [], rest => some rest
  | w :: ws, c :: rest => if w = c then dropPrefix? ws rest else none
  | _ :: _, [] => none

/-! ### Numbers -/

/-- The digits, and the text after them; a number of several digits has no leading zero. -/
def wholeDigits : List Char → Option (List Char × List Char)
  | '0' :: c :: rest => if Number.isDigit c then none else some (['0'], c :: rest)
  | cs =>
    let ds := cs.takeWhile Number.isDigit
    if ds = [] then none else some (ds, cs.dropWhile Number.isDigit)

/-- The digits after a point, none when there is no point. -/
def fractionDigits : List Char → Option (List Char × List Char)
  | '.' :: cs =>
    let ds := cs.takeWhile Number.isDigit
    if ds = [] then none else some (ds, cs.dropWhile Number.isDigit)
  | cs => some ([], cs)

/-- The exponent, nothing when there is none. -/
def exponentPart : List Char → Option (Option Int × List Char)
  | e :: cs =>
    if e = 'e' ∨ e = 'E' then
      let (negative, body) := Number.splitSign cs
      let ds := body.takeWhile Number.isDigit
      if ds = [] then none
      else
        let n : Int := Number.ofDigits ds
        some (some (if negative then -n else n), body.dropWhile Number.isDigit)
    else some (none, e :: cs)
  | [] => some (none, [])

/-- A number without point and exponent: whole where a 64-bit word holds it. Minus zero is a
double. -/
def ofWhole (negative : Bool) (n : Nat) : Option Document :=
  if negative then
    if n ≠ 0 ∧ Number.leastSigned ≤ -n then some (.int (-n)) else finite (Number.Decimal.toFloat true ⟨n, 0⟩)
  else if n < UInt64.size then some (.int n) else finite (Number.Decimal.toFloat false ⟨n, 0⟩)
where
  finite (x : Float) : Option Document := if x.isFinite then some (.float x) else none

def number (cs : List Char) : Option (Document × List Char) := do
  let (negative, body) := match cs with
    | '-' :: rest => (true, rest)
    | rest => (false, rest)
  let (whole, afterWhole) ← wholeDigits body
  let (fraction, afterFraction) ← fractionDigits afterWhole
  let (exponent, rest) ← exponentPart afterFraction
  if fraction = [] ∧ exponent = none then
    let d ← ofWhole negative (Number.ofDigits whole)
    return (d, rest)
  let x := Number.Decimal.toFloat negative
    ⟨Number.ofDigits (whole ++ fraction), exponent.getD 0 - fraction.length⟩
  if x.isFinite then return (.float x, rest) else none

/-! ### Texts -/

def hexDigit (c : Char) : Option Nat :=
  if '0' ≤ c ∧ c ≤ '9' then some (c.toNat - '0'.toNat)
  else if 'a' ≤ c ∧ c ≤ 'f' then some (c.toNat - 'a'.toNat + 10)
  else if 'A' ≤ c ∧ c ≤ 'F' then some (c.toNat - 'A'.toNat + 10)
  else none

/-- The number that four hexadecimal digits write. -/
def hexUnit : List Char → Option (Nat × List Char)
  | a :: b :: c :: d :: rest => do
    let a ← hexDigit a
    let b ← hexDigit b
    let c ← hexDigit c
    let d ← hexDigit d
    return (((a * 16 + b) * 16 + c) * 16 + d, rest)
  | _ => none

/-- The character behind a `u` escape. Characters beyond the first plane take two units, and a
unit of such a pair does not stand alone. -/
def unicodeEscape (cs : List Char) : Option (Char × List Char) := do
  let (u, rest) ← hexUnit cs
  if u < 0xd800 ∨ 0xdfff < u then return (Char.ofNat u, rest)
  if 0xdc00 ≤ u then none
  match rest with
  | '\\' :: 'u' :: more =>
    let (v, rest) ← hexUnit more
    if 0xdc00 ≤ v ∧ v ≤ 0xdfff then
      return (Char.ofNat (0x10000 + (u - 0xd800) * 0x400 + (v - 0xdc00)), rest)
    else none
  | _ => none

/-- The character that an escape stands for, without the `u` escape. -/
def simpleEscape : Char → Option Char
  | '"' => some '"'
  | '\\' => some '\\'
  | '/' => some '/'
  | 'b' => some '\x08'
  | 'f' => some '\x0c'
  | 'n' => some '\n'
  | 'r' => some '\r'
  | 't' => some '\t'
  | _ => none

/-- The text up to the closing quote. Each step takes at least one character, so the length of the
input is fuel enough. -/
def textBody : Nat → List Char → List Char → Option (String × List Char)
  | 0, _, _ => none
  | fuel + 1, read, cs =>
    match cs with
    | '"' :: rest => some (String.ofList read.reverse, rest)
    | '\\' :: 'u' :: rest =>
      match unicodeEscape rest with
      | some (c, rest) => textBody fuel (c :: read) rest
      | none => none
    | '\\' :: e :: rest =>
      match simpleEscape e with
      | some c => textBody fuel (c :: read) rest
      | none => none
    | c :: rest => if c.toNat < 0x20 then none else textBody fuel (c :: read) rest
    | [] => none

def textAfterQuote (cs : List Char) : Option (String × List Char) := textBody (cs.length + 1) [] cs

/-! ### Documents -/

mutual

/-- A document and the text after it. Every call takes a character or is the last one before such a
call, so twice the length of the input is fuel enough. -/
def value : Nat → Nat → List Char → Option (Document × List Char)
  | 0, _, _ => none
  | fuel + 1, depth, cs =>
    match skipSpace cs with
    | '"' :: rest => (textAfterQuote rest).map fun (s, rest) => (.text s, rest)
    | '[' :: rest =>
      match depth with
      | 0 => none
      | depth + 1 =>
        match skipSpace rest with
        | ']' :: rest => some (.list [], rest)
        | rest => (items fuel depth [] rest).map fun (ds, rest) => (.list ds, rest)
    | '{' :: rest =>
      match depth with
      | 0 => none
      | depth + 1 =>
        match skipSpace rest with
        | '}' :: rest => some (.object [], rest)
        | rest => (fields fuel depth [] rest).map fun (fs, rest) => (ofFields fs, rest)
    | 't' :: rest => (dropPrefix? "rue".toList rest).map fun rest => (.bool true, rest)
    | 'f' :: rest => (dropPrefix? "alse".toList rest).map fun rest => (.bool false, rest)
    | 'n' :: rest => (dropPrefix? "ull".toList rest).map fun rest => (.null, rest)
    | rest => number rest

/-- The items of a list up to its closing bracket. -/
def items : Nat → Nat → List Document → List Char → Option (List Document × List Char)
  | 0, _, _, _ => none
  | fuel + 1, depth, read, cs =>
    match value fuel depth cs with
    | none => none
    | some (d, rest) =>
      match skipSpace rest with
      | ',' :: rest => items fuel depth (d :: read) rest
      | ']' :: rest => some ((d :: read).reverse, rest)
      | _ => none

/-- The fields of an object up to its closing brace. -/
def fields : Nat → Nat → List (String × Document) → List Char →
    Option (List (String × Document) × List Char)
  | 0, _, _, _ => none
  | fuel + 1, depth, read, cs =>
    match skipSpace cs with
    | '"' :: rest =>
      match textAfterQuote rest with
      | none => none
      | some (name, rest) =>
        match skipSpace rest with
        | ':' :: rest =>
          match value fuel depth rest with
          | none => none
          | some (d, rest) =>
            match skipSpace rest with
            | ',' :: rest => fields fuel depth ((name, d) :: read) rest
            | '}' :: rest => some (((name, d) :: read).reverse, rest)
            | _ => none
        | _ => none
    | _ => none

end

/-- The document that a whole text writes. -/
def read? (text : String) : Option Document :=
  let cs := text.toList
  match value (2 * cs.length + 2) depthLimit cs with
  | some (d, rest) => if skipSpace rest = [] then some d else none
  | none => none

/-! ## Writing -/

def hexChar (n : Nat) : Char := Char.ofNat (if n < 10 then '0'.toNat + n else 'a'.toNat + (n - 10))

/-- A character as it stands inside quotes. -/
def quoteChar (c : Char) : List Char :=
  if c = '"' then ['\\', '"']
  else if c = '\\' then ['\\', '\\']
  else if c = '\n' then ['\\', 'n']
  else if c = '\r' then ['\\', 'r']
  else if c = '\t' then ['\\', 't']
  else if c.toNat = 8 then ['\\', 'b']
  else if c.toNat = 12 then ['\\', 'f']
  else if c.toNat < 0x20 then
    ['\\', 'u', '0', '0', hexChar (c.toNat / 16), hexChar (c.toNat % 16)]
  else [c]

def quote (s : String) : String := String.ofList ('"' :: s.toList.flatMap quoteChar ++ ['"'])

mutual

/-- A document on one line, without blanks. -/
def compact : Document → String
  | .null => "null"
  | .bool b => if b then "true" else "false"
  | .int n => toString n
  | .float x => Number.Notation.document.render x
  | .text s => quote s
  | .list ds => "[" ++ ",".intercalate (compactItems ds) ++ "]"
  | .object fs => "\x7b" ++ ",".intercalate (compactFields fs) ++ "\x7d"

def compactItems : List Document → List String
  | [] => []
  | d :: rest => compact d :: compactItems rest

def compactFields : List (String × Document) → List String
  | [] => []
  | (name, d) :: rest => (quote name ++ ":" ++ compact d) :: compactFields rest

end

/-- The start of a line at a level. -/
def indent (level : Nat) : String := "\n" ++ String.ofList (List.replicate (2 * level) ' ')

mutual

/-- A document over several lines, at a level. -/
def prettyAt (level : Nat) : Document → String
  | .list [] => "[]"
  | .list ds => "[" ++ ",".intercalate (prettyItems (level + 1) ds) ++ indent level ++ "]"
  | .object [] => "\x7b\x7d"
  | .object fs => "\x7b" ++ ",".intercalate (prettyFields (level + 1) fs) ++ indent level ++ "\x7d"
  | .null => "null"
  | .bool b => if b then "true" else "false"
  | .int n => toString n
  | .float x => Number.Notation.document.render x
  | .text s => quote s

def prettyItems (level : Nat) : List Document → List String
  | [] => []
  | d :: rest => (indent level ++ prettyAt level d) :: prettyItems level rest

def prettyFields (level : Nat) : List (String × Document) → List String
  | [] => []
  | (name, d) :: rest =>
    (indent level ++ quote name ++ ": " ++ prettyAt level d) :: prettyFields level rest

end

def pretty (d : Document) : String := prettyAt 0 d

end Menagerie.Document.Json
