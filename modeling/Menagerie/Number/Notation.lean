import Menagerie.Number.Decimal
import Menagerie.Text.Blank

/-!
# How numbers are written and read

A `Notation` fixes what the digits of a decimal leave open: how far the positional form reaches and
what ends a whole number. Two notations are in use. `plain` never writes an exponent and ends a
whole number with its last digit. `document` is the one of JSON documents: a whole number ends
with `.0`, and very large and very small numbers carry an exponent.

Reading takes an optional sign, digits with at most one point, and an optional exponent, or one of
the words for infinity and for what is not a number.
-/

namespace Menagerie.Number

/-- What a decimal's digits leave open about its written form. -/
structure Notation where
  /-- The positions of the point, counted from before the first digit, that are written without an
  exponent; every position when there is no range. -/
  positional : Option (Int × Int)
  /-- What ends a whole number. -/
  wholeSuffix : String
  nanText : String
  infinityText : String

/-- Numbers as an expression writes them. -/
def Notation.plain : Notation := ⟨none, "", "NaN", "inf"⟩

/-- Numbers as a JSON document writes them. What is not finite has no number there. -/
def Notation.document : Notation := ⟨some (-4, 16), ".0", "null", "null"⟩

/-- The digits with a point after the first `point` of them, filled up with zeros. -/
def Notation.positionalText (n : Notation) (digits : List Char) (point : Int) : String :=
  if point ≤ 0 then
    "0." ++ String.ofList (List.replicate (-point).toNat '0' ++ digits)
  else
    let whole := point.toNat
    if digits.length ≤ whole then
      String.ofList (digits ++ List.replicate (whole - digits.length) '0') ++ n.wholeSuffix
    else String.ofList (digits.take whole ++ '.' :: digits.drop whole)

/-- The digits with a point after the first and the power of ten that makes up for it, with its
sign also where that is a plus. -/
def exponentText (digits : List Char) (point : Int) : String :=
  let mantissa := match digits with
    | first :: second :: rest => first :: '.' :: second :: rest
    | short => short
  let power := point - 1
  let sign := if power < 0 then "-" else "+"
  String.ofList mantissa ++ "e" ++ sign ++ toString power.natAbs

/-- A double in its shortest decimal form. -/
def Notation.render (n : Notation) (x : Float) : String :=
  match Reading.of x with
  | .nan => n.nanText
  | .infinite negative => (if negative then "-" else "") ++ n.infinityText
  | .finite negative significand exponent =>
    let sign := if negative then "-" else ""
    if significand = 0 then sign ++ "0" ++ n.wholeSuffix
    else
      let d := Decimal.shortest significand exponent
      let point : Int := d.digits.length + d.exponent
      let positional := match n.positional with
        | none => true
        | some (low, high) => low ≤ point && point ≤ high
      sign ++ if positional then n.positionalText d.digits point else exponentText d.digits point

/-- A double with one decimal place. -/
def renderTenths (x : Float) : String :=
  match Reading.of x with
  | .nan => "NaN"
  | .infinite negative => if negative then "-inf" else "inf"
  | .finite negative significand exponent =>
    let t := Decimal.tenths significand exponent
    (if negative then "-" else "") ++ toString (t / 10) ++ "." ++ toString (t % 10)

/-! ## Reading -/

def isDigit (c : Char) : Bool := '0' ≤ c && c ≤ '9'

/-- The number that decimal digits write. -/
def ofDigits (cs : List Char) : Nat :=
  cs.foldl (fun n c => n * 10 + (c.toNat - '0'.toNat)) 0

/-- The whole number that decimal digits write, if there is a digit and nothing else. -/
def natural? (cs : List Char) : Option Nat :=
  if cs ≠ [] ∧ cs.all isDigit then some (ofDigits cs) else none

/-- A sign and the text after it. -/
def splitSign : List Char → Bool × List Char
  | '-' :: rest => (true, rest)
  | '+' :: rest => (false, rest)
  | cs => (false, cs)

/-- The exponent written after the digits: none is zero. -/
def readExponent : List Char → Option Int
  | [] => some 0
  | e :: rest =>
    if e = 'e' ∨ e = 'E' then
      let (negative, ds) := splitSign rest
      (natural? ds).map fun n => if negative then -(n : Int) else n
    else none

/-- The decimal that digits, a point and an exponent write. -/
def readDecimal (cs : List Char) : Option Decimal :=
  let whole := cs.takeWhile isDigit
  let afterWhole := cs.dropWhile isDigit
  let (fraction, rest) := match afterWhole with
    | '.' :: more => (more.takeWhile isDigit, more.dropWhile isDigit)
    | more => ([], more)
  if whole = [] ∧ fraction = [] then none
  else (readExponent rest).map fun e => ⟨ofDigits (whole ++ fraction), e - fraction.length⟩

/-- The double a text writes, correctly rounded. -/
def read? (text : List Char) : Option Float :=
  let (negative, body) := splitSign text
  let word := Text.lower body
  let signed (x : Float) := if negative then -x else x
  if word = "inf".toList ∨ word = "infinity".toList then some (signed infinity)
  else if word = "nan".toList then some nan
  else (readDecimal body).map (Decimal.toFloat negative)

end Menagerie.Number
