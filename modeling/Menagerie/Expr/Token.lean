import Menagerie.Expr.Syntax
import Menagerie.Text.Blank

/-!
# Tokens of expressions

`tokenize` cuts a source into tokens and notes for each the byte offset it starts at. Blanks
separate tokens and belong to none. A number is a run of digits and points that begins with a digit
or with a point before one; a text stands between two like quotes and has no escapes.
-/

namespace Menagerie.Expr

inductive Token where
  | number (x : Float)
  | text (s : String)
  | ident (name : String)
  | dot
  | leftParen
  | rightParen
  | question
  | colon
  | bang
  | operator (op : BinaryOp)
  deriving DecidableEq, Repr

/-- The name of an operator in messages. -/
def operatorName : BinaryOp → String
  | .mul => "Mul"
  | .div => "Div"
  | .rem => "Rem"
  | .add => "Add"
  | .sub => "Sub"
  | .lt => "Lt"
  | .le => "Le"
  | .gt => "Gt"
  | .ge => "Ge"
  | .eq => "Eq"
  | .ne => "Ne"
  | .and => "And"
  | .or => "Or"

/-- How a token is named in messages. -/
def Token.describe : Token → String
  | .number x => s!"Number({Number.Notation.plain.render x})"
  | .text s => s!"Text({s})"
  | .ident name => s!"Ident({name})"
  | .dot => "Dot"
  | .leftParen => "LParen"
  | .rightParen => "RParen"
  | .question => "Question"
  | .colon => "Colon"
  | .bang => "Bang"
  | .operator op => s!"Op({operatorName op})"

/-- A token and the byte offset it starts at. -/
abbrev Spot := Nat × Token

def isLetter (c : Char) : Bool := ('a' ≤ c && c ≤ 'z') || ('A' ≤ c && c ≤ 'Z')

/-- Characters that begin a name. -/
def isNameStart (c : Char) : Bool := isLetter c || c == '_'

/-- Characters that continue a name. -/
def isNamePart (c : Char) : Bool := isNameStart c || Number.isDigit c

/-- Characters that continue a number. -/
def isNumberPart (c : Char) : Bool := Number.isDigit c || c == '.'

/-- Whether a number begins here. -/
def startsNumber : List Char → Bool
  | '.' :: c :: _ => Number.isDigit c
  | c :: _ => Number.isDigit c
  | [] => false

/-- The token made of one or two signs that the text begins with, and the text after it. -/
def symbol? : List Char → Option (Token × List Char)
  | '.' :: rest => some (.dot, rest)
  | '(' :: rest => some (.leftParen, rest)
  | ')' :: rest => some (.rightParen, rest)
  | '?' :: rest => some (.question, rest)
  | ':' :: rest => some (.colon, rest)
  | '*' :: rest => some (.operator .mul, rest)
  | '/' :: rest => some (.operator .div, rest)
  | '%' :: rest => some (.operator .rem, rest)
  | '+' :: rest => some (.operator .add, rest)
  | '-' :: rest => some (.operator .sub, rest)
  | '<' :: '=' :: rest => some (.operator .le, rest)
  | '<' :: rest => some (.operator .lt, rest)
  | '>' :: '=' :: rest => some (.operator .ge, rest)
  | '>' :: rest => some (.operator .gt, rest)
  | '=' :: '=' :: rest => some (.operator .eq, rest)
  | '!' :: '=' :: rest => some (.operator .ne, rest)
  | '!' :: rest => some (.bang, rest)
  | '&' :: '&' :: rest => some (.operator .and, rest)
  | '|' :: '|' :: rest => some (.operator .or, rest)
  | _ => none

/-- What is read at the start of a text that does not begin with a blank: a token, the characters
it takes, and the text after them; or the number of bytes up to the place of the complaint, and the
complaint. -/
def readToken : List Char → Except (Nat × String) (Token × List Char × List Char)
  | [] => .error (0, "unexpected end of input")
  | c :: rest =>
    if startsNumber (c :: rest) then
      let run := (c :: rest).takeWhile isNumberPart
      match Number.read? run with
      | some x => .ok (.number x, run, (c :: rest).dropWhile isNumberPart)
      | none => .error (Text.byteLength run, s!"bad number `{String.ofList run}`")
    else if c = '\'' ∨ c = '"' then
      let body := rest.takeWhile (· ≠ c)
      match rest.dropWhile (· ≠ c) with
      | close :: after => .ok (.text (String.ofList body), c :: body ++ [close], after)
      | [] => .error (Text.byteLength (c :: rest), "unterminated text literal")
    else if isNameStart c then
      let name := (c :: rest).takeWhile isNamePart
      .ok (.ident (String.ofList name), name, (c :: rest).dropWhile isNamePart)
    else
      match symbol? (c :: rest) with
      | some (token, after) =>
        .ok (token, (c :: rest).take ((c :: rest).length - after.length), after)
      | none => .error (0, s!"unexpected character `{c}`")

/-- The tokens of a text that starts at a byte offset. Each step takes a character at least, so the
length of the text is fuel enough. -/
def tokensFrom : Nat → Nat → List Char → Except EvalError (List Spot)
  | _, _, [] => .ok []
  | 0, offset, _ => .error (.parse offset "unexpected end of input")
  | fuel + 1, offset, c :: rest =>
    if Text.isBlank c then tokensFrom fuel (offset + c.utf8Size) rest
    else
      match readToken (c :: rest) with
      | .ok (token, taken, after) =>
        match tokensFrom fuel (offset + Text.byteLength taken) after with
        | .ok spots => .ok ((offset, token) :: spots)
        | .error e => .error e
      | .error (bytes, message) => .error (.parse (offset + bytes) message)

/-- The tokens of a source, with their offsets. -/
def tokenize (source : List Char) : Except EvalError (List Spot) :=
  tokensFrom source.length 0 source

end Menagerie.Expr
