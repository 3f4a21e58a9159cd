import Menagerie.Document.Json
import Menagerie.Document.Shape

/-!
# RON

Reading scenario files. A value is a literal, a bare word, a list in brackets, a map in braces, or a
group in parentheses: a record where its entries have names, a tuple where they have none. A group
may carry the name of its type. Optional values are written out as `Some(..)` and `None`.

What a literal means depends on the type that is asked for, so numbers are kept as they are written.
A number that is asked for may be written without a point; a whole number may not have one.
-/

namespace Menagerie

/-- A value as it is written. -/
inductive Ron where
  | number (literal : String)
  | text (s : String)
  | character (c : Char)
  | word (name : String)
  /-- An optional value that is there. -/
  | some (r : Ron)
  | list (items : List Ron)
  | map (entries : List (Ron × Ron))
  | record (name : Option String) (fields : List (String × Ron))
  | tuple (name : Option String) (items : List Ron)
  deriving Inhabited

namespace Ron

/-! ## Blanks and comments -/

def isBlank (c : Char) : Bool :=
  let n := c.toNat
  c == ' ' || (0x09 ≤ n && n ≤ 0x0d) || n == 0x85 || n == 0x200e || n == 0x200f || n == 0x2028 ||
  n == 0x2029

/-- The text after a comment that is `depth + 1` comments deep. Comments nest. -/
def skipNested : Nat → List Char → Option (List Char)
  | depth, '/' :: '*' :: rest => skipNested (depth + 1) rest
  | 0, '*' :: '/' :: rest => Option.some rest
  | depth + 1, '*' :: '/' :: rest => skipNested depth rest
  | depth, _ :: rest => skipNested depth rest
  | _, [] => none

/-- The text after blanks and comments. The length of the input is fuel enough. -/
def skipSpaceWithin : Nat → List Char → Option (List Char)
  | 0, cs => Option.some cs
  | fuel + 1, cs =>
    match cs.dropWhile isBlank with
    | '/' :: '/' :: rest => skipSpaceWithin fuel (rest.dropWhile (· ≠ '\n'))
    | '/' :: '*' :: rest => (skipNested 0 rest).bind (skipSpaceWithin fuel)
    | rest => Option.some rest

def skipSpace (cs : List Char) : Option (List Char) := skipSpaceWithin cs.length cs

/-! ## Words and texts -/

def startsWord (c : Char) : Bool := c.isAlpha || c == '_'

def isWordChar (c : Char) : Bool := c.isAlphanum || c == '_'

/-- A word, if the text begins with one. -/
def word? (cs : List Char) : Option (String × List Char) :=
  match cs with
  | c :: _ =>
    if startsWord c then
      Option.some (String.ofList (cs.takeWhile isWordChar), cs.dropWhile isWordChar)
    else none
  | [] => none

def startsNumber (c : Char) : Bool := Number.isDigit c || c == '+' || c == '-' || c == '.'

def isNumberChar (c : Char) : Bool := isWordChar c || c == '+' || c == '-' || c == '.'

/-- The character that the digits of a `u` escape stand for, and the text after the brace that
closes them. -/
def bracedEscape (cs : List Char) : Option (Char × List Char) :=
  let ds := cs.takeWhile fun c => (Document.Json.hexDigit c).isSome
  match cs.dropWhile fun c => (Document.Json.hexDigit c).isSome with
  | '}' :: rest =>
    let n := ds.foldl (fun n c => n * 16 + (Document.Json.hexDigit c).getD 0) 0
    if ds = [] ∨ 6 < ds.length ∨ (0xd800 ≤ n ∧ n ≤ 0xdfff) ∨ 0x10ffff < n then none
    else Option.some (Char.ofNat n, rest)
  | _ => none

/-- The character behind a backslash, and the text after it. -/
def escape : List Char → Option (Char × List Char)
  | 'n' :: rest => Option.some ('\n', rest)
  | 'r' :: rest => Option.some ('\r', rest)
  | 't' :: rest => Option.some ('\t', rest)
  | '0' :: rest => Option.some ('\x00', rest)
  | '\\' :: rest => Option.some ('\\', rest)
  | '"' :: rest => Option.some ('"', rest)
  | '\'' :: rest => Option.some ('\'', rest)
  | 'x' :: a :: b :: rest => do
    let a ← Document.Json.hexDigit a
    let b ← Document.Json.hexDigit b
    return (Char.ofNat (a * 16 + b), rest)
  | 'u' :: '{' :: rest => bracedEscape rest
  | _ => none

/-- The text up to the closing quote. The length of the input is fuel enough. -/
def quoted : Nat → List Char → List Char → Option (String × List Char)
  | 0, _, _ => none
  | fuel + 1, read, cs =>
    match cs with
    | '"' :: rest => Option.some (String.ofList read.reverse, rest)
    | '\\' :: rest => (escape rest).bind fun (c, rest) => quoted fuel (c :: read) rest
    | c :: rest => quoted fuel (c :: read) rest
    | [] => none

/-- The text up to a closing quote with so many hash signs behind it. There are no escapes. -/
def verbatim (hashes : Nat) (read : List Char) : List Char → Option (String × List Char)
  | '"' :: rest =>
    if rest.take hashes = List.replicate hashes '#' then
      Option.some (String.ofList read.reverse, rest.drop hashes)
    else verbatim hashes ('"' :: read) rest
  | c :: rest => verbatim hashes (c :: read) rest
  | [] => none

/-- The text of an `r` literal, from its hash signs on. -/
def hashed (cs : List Char) : Option (String × List Char) :=
  let hashes := (cs.takeWhile (· = '#')).length
  match cs.drop hashes with
  | '"' :: rest => verbatim hashes [] rest
  | _ => none

/-- A character up to its closing quote. -/
def characterAfterQuote : List Char → Option (Char × List Char)
  | '\\' :: rest =>
    match escape rest with
    | Option.some (c, '\'' :: rest) => Option.some (c, rest)
    | _ => none
  | c :: '\'' :: rest => Option.some (c, rest)
  | _ => none

/-! ## Values -/

/-- The text behind a colon that comes next. -/
def afterColon? (cs : List Char) : Option (List Char) :=
  match skipSpace cs with
  | Option.some (':' :: rest) => Option.some rest
  | _ => none

/-- Whether the entries of a group have names: a word and a colon come first. -/
def isNamed (cs : List Char) : Bool :=
  match word? cs with
  | Option.some (_, rest) => (afterColon? rest).isSome
  | none => false

mutual

/-- A value and the text after it. Every call takes a character or is the last one before such a
call, so three times the length of the input is fuel enough. -/
def value : Nat → List Char → Option (Ron × List Char)
  | 0, _ => none
  | fuel + 1, cs =>
    match skipSpace cs with
    | none | Option.some [] => none
    | Option.some ('"' :: rest) =>
      (quoted (rest.length + 1) [] rest).map fun (s, rest) => (.text s, rest)
    | Option.some ('\'' :: rest) =>
      (characterAfterQuote rest).map fun (c, rest) => (.character c, rest)
    | Option.some ('[' :: rest) => (items fuel ']' [] rest).map fun (rs, rest) => (.list rs, rest)
    | Option.some ('{' :: rest) => (entries fuel [] rest).map fun (es, rest) => (.map es, rest)
    | Option.some ('(' :: rest) => group fuel none rest
    | Option.some (c :: rest) =>
      if startsNumber c then
        let literal := (c :: rest).takeWhile isNumberChar
        Option.some (.number (String.ofList literal), (c :: rest).dropWhile isNumberChar)
      else
        match c :: rest, word? (c :: rest) with
        | 'r' :: '"' :: rest, _ => (hashed ('"' :: rest)).map fun (s, rest) => (.text s, rest)
        | 'r' :: '#' :: rest, _ => (hashed ('#' :: rest)).map fun (s, rest) => (.text s, rest)
        | _, Option.some (name, rest) =>
          match skipSpace rest with
          | Option.some ('(' :: inner) =>
            if name = "Some" then optional fuel inner else group fuel (Option.some name) inner
          | _ => Option.some (.word name, rest)
        | _, none => none

/-- The value inside `Some(..)`. -/
def optional : Nat → List Char → Option (Ron × List Char)
  | 0, _ => none
  | fuel + 1, cs =>
    match value fuel cs with
    | none => none
    | Option.some (r, rest) =>
      match skipSpace rest with
      | Option.some (')' :: rest) => Option.some (.some r, rest)
      | _ => none

/-- A group up to its closing parenthesis. -/
def group : Nat → Option String → List Char → Option (Ron × List Char)
  | 0, _, _ => none
  | fuel + 1, name, cs =>
    match skipSpace cs with
    | none => none
    | Option.some (')' :: rest) => Option.some (.record name [], rest)
    | Option.some cs =>
      if isNamed cs then (fields fuel [] cs).map fun (fs, rest) => (.record name fs, rest)
      else (items fuel ')' [] cs).map fun (rs, rest) => (.tuple name rs, rest)

/-- The named entries of a group up to its closing parenthesis. -/
def fields : Nat → List (String × Ron) → List Char → Option (List (String × Ron) × List Char)
  | 0, _, _ => none
  | fuel + 1, read, cs =>
    match skipSpace cs with
    | none => none
    | Option.some (')' :: rest) => Option.some (read.reverse, rest)
    | Option.some cs =>
      match word? cs with
      | none => none
      | Option.some (name, rest) =>
        match afterColon? rest with
        | none => none
        | Option.some rest =>
          match value fuel rest with
          | none => none
          | Option.some (r, rest) =>
            match skipSpace rest with
            | Option.some (',' :: rest) => fields fuel ((name, r) :: read) rest
            | Option.some (')' :: rest) => Option.some (((name, r) :: read).reverse, rest)
            | _ => none

/-- Values up to a closing character. -/
def items : Nat → Char → List Ron → List Char → Option (List Ron × List Char)
  | 0, _, _, _ => none
  | fuel + 1, closing, read, cs =>
    match skipSpace cs with
    | none | Option.some [] => none
    | Option.some (c :: rest) =>
      if c = closing then Option.some (read.reverse, rest)
      else
        match value fuel (c :: rest) with
        | none => none
        | Option.some (r, rest) =>
          match skipSpace rest with
          | Option.some (',' :: rest) => items fuel closing (r :: read) rest
          | Option.some (c :: rest) =>
            if c = closing then Option.some ((r :: read).reverse, rest) else none
          | _ => none

/-- The entries of a map up to its closing brace. -/
def entries : Nat → List (Ron × Ron) → List Char → Option (List (Ron × Ron) × List Char)
  | 0, _, _ => none
  | fuel + 1, read, cs =>
    match skipSpace cs with
    | none => none
    | Option.some ('}' :: rest) => Option.some (read.reverse, rest)
    | Option.some cs =>
      match value fuel cs with
      | none => none
      | Option.some (key, rest) =>
        match afterColon? rest with
        | none => none
        | Option.some rest =>
          match value fuel rest with
          | none => none
          | Option.some (r, rest) =>
            match skipSpace rest with
            | Option.some (',' :: rest) => entries fuel ((key, r) :: read) rest
            | Option.some ('}' :: rest) => Option.some (((key, r) :: read).reverse, rest)
            | _ => none

end

/-- The value that a whole text writes. -/
def read? (text : String) : Option Ron :=
  let cs := text.toList
  match value (3 * cs.length + 3) cs with
  | Option.some (r, rest) => if skipSpace rest = Option.some [] then Option.some r else none
  | none => none

/-! ## Numbers -/

/-- Digits of a base, with underscores anywhere behind the first. -/
def digitsOf (base : Nat) (cs : List Char) : Option Nat :=
  let ds := cs.filter (· ≠ '_')
  if cs.head? = Option.some '_' ∨ ds = [] then none
  else ds.foldlM (fun n c => do
    let d ← Document.Json.hexDigit c
    if d < base then Option.some (n * base + d) else none) 0

/-- The whole number that a literal writes. -/
def whole? (literal : String) : Option Int :=
  let (negative, body) := Number.splitSign literal.toList
  let magnitude := match body with
    | '0' :: 'x' :: ds => digitsOf 16 ds
    | '0' :: 'o' :: ds => digitsOf 8 ds
    | '0' :: 'b' :: ds => digitsOf 2 ds
    | ds => digitsOf 10 ds
  magnitude.map fun n => if negative then -(n : Int) else n

/-- A literal without its underscores, each of which has to follow a digit, the letter of the
exponent, or another underscore. -/
def withoutUnderscores (allowed : Bool) : List Char → Option (List Char)
  | [] => Option.some []
  | '_' :: rest => if allowed then withoutUnderscores true rest else none
  | c :: rest => (withoutUnderscores (c.isDigit || c == 'e' || c == 'E') rest).map (c :: ·)

/-- The double that a literal writes. -/
def double? (literal : String) : Option Float :=
  let isWord := literal.toList.any fun c => c.isAlpha && c != 'e' && c != 'E'
  if isWord && !(["-inf", "+inf", "-NaN", "+NaN"].contains literal) then none
  else (withoutUnderscores false literal.toList).bind Number.read?

/-- The number that a literal writes where any number will do. A whole number beyond 64 bits is a
double. -/
def anyNumber? (literal : String) : Option Document :=
  match whole? literal with
  | Option.some n =>
    if Number.leastSigned ≤ n ∧ n < UInt64.size then Option.some (.int n)
    else (double? literal).map .float
  | none => (double? literal).map .float

/-! ## Typed data -/

/-- The double that a value writes. -/
def double : Ron → Option Float
  | number literal => double? literal
  | word "inf" => Option.some Number.infinity
  | word "NaN" => Option.some Number.nan
  | _ => none

/-- The fields of a record in which none of the named ones is there twice. -/
def distinct? (names : List String) (fields : List (String × Ron)) : Option (Fields Ron) :=
  let found := (fields.map Prod.fst).filter names.contains
  if found.eraseDups = found then Option.some fields else none

mutual

/-- The value as plain data. A bare word is its text, and a group with a name is a map from that name
to what is inside. -/
def plain? : Ron → Option Document
  | number literal => anyNumber? literal
  | text s => Option.some (.text s)
  | word "true" => Option.some (.bool true)
  | word "false" => Option.some (.bool false)
  | word "inf" => Option.some (.float Number.infinity)
  | word "NaN" => Option.some (.float Number.nan)
  | word "None" => none
  | word name => Option.some (.text name)
  | list items | tuple none items => (plainItems? items).map .list
  | tuple (Option.some name) [item] => item.plain?.map fun d => .object [(name, d)]
  | tuple (Option.some name) items => (plainItems? items).map fun ds => .object [(name, .list ds)]
  | record none fields => (plainFields? fields).map .object
  | record (Option.some name) fields =>
    (plainFields? fields).map fun fs => .object [(name, .object fs)]
  | map entries => (plainEntries? entries).map .object
  | character _ | some _ => none

def plainItems? : List Ron → Option (List Document)
  | [] => Option.some []
  | r :: rest => do return (← r.plain?) :: (← plainItems? rest)

def plainFields? : List (String × Ron) → Option (List (String × Document))
  | [] => Option.some []
  | (name, r) :: rest => do return (name, ← r.plain?) :: (← plainFields? rest)

def plainEntries? : List (Ron × Ron) → Option (List (String × Document))
  | [] => Option.some []
  | (text name, r) :: rest => do return (name, ← r.plain?) :: (← plainEntries? rest)
  | _ => none

end

/-- The entry of a map whose key is a text. -/
def textEntry? (entry : Ron × Ron) : Option (String × Ron) :=
  match entry.1 with
  | text name => Option.some (name, entry.2)
  | _ => none

instance : Shaped Ron where
  bool?
    | word "true" => Option.some true
    | word "false" => Option.some false
    | _ => none
  natural?
    | number literal => (whole? literal).bind fun n => if 0 ≤ n then Option.some n.toNat else none
    | _ => none
  number? := double
  text?
    | text s => Option.some s
    | _ => none
  memberName?
    | word name => Option.some name
    | _ => none
  option?
    | word "None" => Option.some none
    | some r => Option.some (Option.some r)
    | _ => none
  list?
    | list items => Option.some items
    | _ => none
  entries?
    | map entries => entries.mapM textEntry?
    | _ => none
  record? type names
    | record name fields => if name.getD type = type then distinct? names fields else none
    | _ => none
  plain? := plain?

end Ron

end Menagerie
