import Menagerie.Document.Json

/-!
# TOML

Reading settings files. A file is a list of lines that give values to keys, and of headers that open
the table for the keys after them. Keys are dotted paths, and a table that was written down in one
way is not opened in another (`Entries.assign`, `Entries.openTable`).

Texts stand on one line, and there are no dates. Whole numbers have 64 bits.
-/

namespace Menagerie.Document.Toml

/-! ## Tables -/

/-- How a table came to be. -/
inductive TableKind where
  /-- By a header for a table inside it. -/
  | implied
  /-- By its own header. -/
  | headed
  /-- By a dotted key. -/
  | dotted
  deriving DecidableEq, Repr

/-- What a key stands for while a file is read. -/
inductive Item where
  | value (d : Document)
  | table (kind : TableKind) (entries : List (String × Item))
  /-- A list of tables, of which the last one is open. -/
  | tables (closed : List (List (String × Item))) (last : List (String × Item))

/-- The keys of a table. -/
abbrev Entries := List (String × Item)

namespace Entries

/-- Changes what a key stands for. -/
def update (name : String) (f : Option Item → Option Item) : Entries → Option Entries
  | [] => (f none).map fun item => [(name, item)]
  | (key, item) :: rest =>
    if key = name then (f (some item)).map fun item => (key, item) :: rest
    else (update name f rest).map ((key, item) :: ·)

/-- Gives a value to a dotted key. No key gets a second value, and the tables on the way are none
that have a header of their own. -/
def assign (d : Document) : List String → Entries → Option Entries
  | [], _ => none
  | [name], entries => update name
      (fun
        | none => some (.value d)
        | some _ => none) entries
  | name :: rest, entries => update name
      (fun
        | none => (assign d rest []).map (.table .dotted)
        | some (.table .headed _) => none
        | some (.table kind inner) => (assign d rest inner).map (.table kind)
        | some _ => none) entries

/-- Opens the tables on the way to a header and changes the entries there by `f`. -/
def descend (f : String → Entries → Option Entries) : List String → Entries → Option Entries
  | [], _ => none
  | [name], entries => f name entries
  | name :: rest, entries => update name
      (fun
        | none => (descend f rest []).map (.table .implied)
        | some (.table kind inner) => (descend f rest inner).map (.table kind)
        | some (.tables closed last) => (descend f rest last).map (.tables closed)
        | some (.value _) => none) entries

/-- Opens a table by its header, which no table has twice. -/
def openTable : List String → Entries → Option Entries :=
  descend fun name => update name fun
    | none => some (.table .headed [])
    | some (.table .implied inner) => some (.table .headed inner)
    | some _ => none

/-- Opens a further table of a list of tables. -/
def openFurther : List String → Entries → Option Entries :=
  descend fun name => update name fun
    | none => some (.tables [] [])
    | some (.tables closed last) => some (.tables (closed ++ [last]) [])
    | some _ => none

/-- Gives a value to a dotted key of the table that a header opened. -/
def assignUnder (d : Document) (key : List String) : List String → Entries → Option Entries
  | [], entries => assign d key entries
  | name :: rest, entries => update name
      (fun
        | some (.table kind inner) => (assignUnder d key rest inner).map (.table kind)
        | some (.tables closed last) => (assignUnder d key rest last).map (.tables closed)
        | _ => none) entries

end Entries

mutual

def Item.toDocument : Item → Document
  | .value d => d
  | .table _ entries => ofFields (entriesToFields entries)
  | .tables closed last => .list (tablesToDocuments closed ++ [ofFields (entriesToFields last)])

def entriesToFields : List (String × Item) → List (String × Document)
  | [] => []
  | (name, item) :: rest => (name, item.toDocument) :: entriesToFields rest

def tablesToDocuments : List (List (String × Item)) → List Document
  | [] => []
  | entries :: rest => ofFields (entriesToFields entries) :: tablesToDocuments rest

end

/-! ## Blanks -/

def isBlank (c : Char) : Bool := c == ' ' || c == '\t'

def skipBlank (cs : List Char) : List Char := cs.dropWhile isBlank

/-- Whether a character may stand in a comment or a text. -/
def isPrintable (c : Char) : Bool := c == '\t' || (c.toNat ≥ 0x20 && c.toNat != 0x7f)

/-- The text after a comment, if there is one. -/
def skipComment : List Char → List Char
  | '#' :: rest => rest.dropWhile isPrintable
  | cs => cs

/-- The text after the end of a line, or the end of the text itself. -/
def lineEnd : List Char → Option (List Char)
  | [] => some []
  | '\n' :: rest | '\r' :: '\n' :: rest => some rest
  | _ => none

/-- The text after blanks, comments and ends of lines. -/
def skipLines : Nat → List Char → List Char
  | 0, cs => cs
  | fuel + 1, cs =>
    match skipComment (skipBlank cs) with
    | '\n' :: rest | '\r' :: '\n' :: rest => skipLines fuel rest
    | rest => rest

/-! ## Numbers -/

/-- The digits without the underscores that may stand between two of them. -/
def plainDigits (ok : Char → Bool) (cs : List Char) : Option (List Char) :=
  if separated cs then some (cs.filter (· ≠ '_')) else none
where
  separated : List Char → Bool
    | [] => false
    | [c] => ok c
    | c :: '_' :: rest => ok c && separated rest
    | c :: rest => ok c && separated rest

def digitValue (c : Char) : Nat := (Json.hexDigit c).getD 0

/-- The number that digits of a base write. -/
def ofBase (base : Nat) (cs : List Char) : Option Nat :=
  (plainDigits (fun c => (Json.hexDigit c).any (· < base)) cs).map fun ds =>
    ds.foldl (fun n c => n * base + digitValue c) 0

/-- A whole number that fits 64 bits, signed or not. -/
def fit (n : Int) : Option Document :=
  if Number.leastSigned ≤ n ∧ n < UInt64.size then some (.int n) else none

/-- Decimal digits with no zero before others. -/
def decimalDigits (cs : List Char) : Option (List Char) := do
  let ds ← plainDigits Number.isDigit cs
  match ds with
  | '0' :: _ :: _ => none
  | ds => some ds

/-- A number with a point or an exponent, correctly rounded. One that is too large is refused. -/
def fractional (negative : Bool) (body : List Char) : Option Document := do
  let isExponent (c : Char) := c == 'e' || c == 'E'
  let mantissa := body.takeWhile (!isExponent ·)
  let whole ← decimalDigits (mantissa.takeWhile (· ≠ '.'))
  let fraction ← match mantissa.dropWhile (· ≠ '.') with
    | [] => some []
    | _ :: ds => plainDigits Number.isDigit ds
  let exponent ← match body.dropWhile (!isExponent ·) with
    | [] => if fraction = [] then none else some 0
    | _ :: cs =>
      let (down, ds) := Number.splitSign cs
      (plainDigits Number.isDigit ds).map fun ds =>
        if down then -(Number.ofDigits ds : Int) else Number.ofDigits ds
  let x := Number.Decimal.toFloat negative
    ⟨Number.ofDigits (whole ++ fraction), exponent - fraction.length⟩
  if x.isFinite then some (.float x) else none

/-- A value that is one word: a boolean or a number. -/
def word (cs : List Char) : Option Document :=
  match cs with
  | '0' :: 'x' :: ds => (ofBase 16 ds).bind fun n => fit n
  | '0' :: 'o' :: ds => (ofBase 8 ds).bind fun n => fit n
  | '0' :: 'b' :: ds => (ofBase 2 ds).bind fun n => fit n
  | cs =>
    let (negative, body) := Number.splitSign cs
    if cs = "true".toList then some (.bool true)
    else if cs = "false".toList then some (.bool false)
    else if body = "inf".toList then
      some (.float (if negative then -Number.infinity else Number.infinity))
    else if body = "nan".toList then some (.float Number.nan)
    else
      match decimalDigits body with
      | some ds =>
        let n : Int := Number.ofDigits ds
        fit (if negative then -n else n)
      | none => fractional negative body

def isWordChar (c : Char) : Bool :=
  c.isAlphanum || c == '_' || c == '+' || c == '-' || c == '.' || c == ':'

/-! ## Texts and keys -/

/-- The character that an escape of so many hexadecimal digits stands for. -/
def escapedChar (digits : Nat) (cs : List Char) : Option (Char × List Char) := do
  let ds := cs.take digits
  if ds.length < digits ∨ ds.any (fun c => (Json.hexDigit c).isNone) then none
  let n := ds.foldl (fun n c => n * 16 + digitValue c) 0
  if n < 0xd800 ∨ (0xdfff < n ∧ n < 0x110000) then some (Char.ofNat n, cs.drop digits) else none

/-- The character behind a backslash, and the text after it. -/
def escape : List Char → Option (Char × List Char)
  | 'u' :: rest => escapedChar 4 rest
  | 'U' :: rest => escapedChar 8 rest
  | 'x' :: rest => escapedChar 2 rest
  | 'e' :: rest => some ('\x1b', rest)
  | '/' :: _ => none
  | c :: rest => (Json.simpleEscape c).map fun c => (c, rest)
  | [] => none

/-- The text up to the closing double quote. The length of the input is fuel enough. -/
def quoted : Nat → List Char → List Char → Option (String × List Char)
  | 0, _, _ => none
  | fuel + 1, read, cs =>
    match cs with
    | '"' :: rest => some (String.ofList read.reverse, rest)
    | '\\' :: rest => (escape rest).bind fun (c, rest) => quoted fuel (c :: read) rest
    | c :: rest => if isPrintable c then quoted fuel (c :: read) rest else none
    | [] => none

/-- The text up to the closing single quote, in which there are no escapes. -/
def verbatim (cs : List Char) : Option (String × List Char) :=
  let isInside (c : Char) := isPrintable c && c != '\''
  match cs.dropWhile isInside with
  | '\'' :: rest => some (String.ofList (cs.takeWhile isInside), rest)
  | _ => none

def isKeyChar (c : Char) : Bool := c.isAlphanum || c == '_' || c == '-'

/-- One name of a key. -/
def keyPart : List Char → Option (String × List Char)
  | '"' :: rest => quoted (rest.length + 1) [] rest
  | '\'' :: rest => verbatim rest
  | cs =>
    let name := cs.takeWhile isKeyChar
    if name = [] then none else some (String.ofList name, cs.dropWhile isKeyChar)

/-- A dotted key, and the text after it and its blanks. -/
def key : Nat → List Char → Option (List String × List Char)
  | 0, _ => none
  | fuel + 1, cs => do
    let (name, rest) ← keyPart (skipBlank cs)
    match skipBlank rest with
    | '.' :: rest =>
      let (names, rest) ← key fuel rest
      return (name :: names, rest)
    | rest => return ([name], rest)

/-! ## Values -/

mutual

/-- A value and the text after it. Every call takes a character or is the last one before such a
call, so twice the length of the input is fuel enough. -/
def value : Nat → List Char → Option (Document × List Char)
  | 0, _ => none
  | fuel + 1, cs =>
    match cs with
    | '"' :: rest => (quoted (rest.length + 1) [] rest).map fun (s, rest) => (.text s, rest)
    | '\'' :: rest => (verbatim rest).map fun (s, rest) => (.text s, rest)
    | '[' :: rest => (items fuel [] rest).map fun (ds, rest) => (.list ds, rest)
    | '{' :: rest =>
      (pairs fuel [] rest).map fun (entries, rest) => (ofFields (entriesToFields entries), rest)
    | cs => (word (cs.takeWhile isWordChar)).map fun d => (d, cs.dropWhile isWordChar)

/-- The items of a list up to its closing bracket. -/
def items : Nat → List Document → List Char → Option (List Document × List Char)
  | 0, _, _ => none
  | fuel + 1, read, cs =>
    match skipLines cs.length cs with
    | ']' :: rest => some (read.reverse, rest)
    | cs =>
      match value fuel cs with
      | none => none
      | some (d, rest) =>
        match skipLines rest.length rest with
        | ',' :: rest => items fuel (d :: read) rest
        | ']' :: rest => some ((d :: read).reverse, rest)
        | _ => none

/-- The entries of a table in braces up to the closing one. -/
def pairs : Nat → Entries → List Char → Option (Entries × List Char)
  | 0, _, _ => none
  | fuel + 1, entries, cs =>
    match skipLines cs.length cs with
    | '}' :: rest => some (entries, rest)
    | cs =>
      match key cs.length cs with
      | some (names, '=' :: rest) =>
        match value fuel (skipBlank rest) with
        | none => none
        | some (d, rest) =>
          match Entries.assign d names entries, skipLines rest.length rest with
          | some entries, ',' :: rest => pairs fuel entries rest
          | some entries, '}' :: rest => some (entries, rest)
          | _, _ => none
      | _ => none

end

/-! ## Files -/

/-- A file as far as it was read: its entries, and the header that is open. -/
structure Progress where
  entries : Entries := []
  header : List String := []

/-- Reads a header or a key with its value, and the text after it. -/
def statement (p : Progress) (cs : List Char) : Option (Progress × List Char) :=
  match cs with
  | '[' :: '[' :: rest => do
    let (names, rest) ← key (rest.length + 1) rest
    let ']' :: ']' :: rest := rest | none
    return (⟨← Entries.openFurther names p.entries, names⟩, rest)
  | '[' :: rest => do
    let (names, rest) ← key (rest.length + 1) rest
    let ']' :: rest := rest | none
    return (⟨← Entries.openTable names p.entries, names⟩, rest)
  | cs => do
    let (names, '=' :: rest) ← key (cs.length + 1) cs | none
    let (d, rest) ← value (2 * rest.length + 2) (skipBlank rest)
    return ({ p with entries := ← Entries.assignUnder d names p.header p.entries }, rest)

/-- Reads statements to the end of the text, each on a line of its own. -/
def statements : Nat → Progress → List Char → Option Progress
  | 0, _, _ => none
  | fuel + 1, p, cs =>
    match skipLines cs.length cs with
    | [] => some p
    | cs => do
      let (p, rest) ← statement p cs
      statements fuel p (← lineEnd (skipComment (skipBlank rest)))

/-- A text without the byte order mark that may stand before it. -/
def withoutMark : List Char → List Char
  | '\uFEFF' :: cs => cs
  | cs => cs

/-- The document that a whole file writes. -/
def read? (text : String) : Option Document :=
  let cs := withoutMark text.toList
  (statements (cs.length + 1) {} cs).map fun p => ofFields (entriesToFields p.entries)

end Menagerie.Document.Toml
