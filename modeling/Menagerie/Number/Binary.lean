/-!
# Doubles as exact numbers

A finite double is a whole significand times a power of two. `Reading.of` takes a double apart and
`compose` puts one together, so that the operations below work in exact arithmetic: the order on
all doubles, the whole part, the remainder.
-/

namespace Menagerie.Number

/-- What a double stands for. A finite one is its sign and `significand * 2 ^ exponent`. -/
inductive Reading where
  | nan
  | infinite (negative : Bool)
  | finite (negative : Bool) (significand : Nat) (exponent : Int)
  deriving DecidableEq, Repr

/-- Bits of the significand that are written out. -/
def fractionBits : Nat := 52

/-- The leading bit of a significand, which is not written out: `2 ^ 52`. -/
def hiddenBit : Nat := 0x10000000000000

/-- The bit that holds the sign: `2 ^ 63`. -/
def signBit : Nat := 0x8000000000000000

/-- The exponent of the least positive double. -/
def leastExponent : Int := -1074

/-- The least number of a signed 64-bit word. -/
def leastSigned : Int := -0x8000000000000000

/-- The greatest number of a signed 64-bit word. -/
def greatestSigned : Int := 0x7fffffffffffffff

/-- Takes a double apart. -/
def Reading.of (x : Float) : Reading :=
  let bits := x.toBits.toNat
  let negative : Bool := signBit ≤ bits
  let exponent := bits / hiddenBit % 2048
  let fraction := bits % hiddenBit
  if exponent = 2047 then
    if fraction = 0 then .infinite negative else .nan
  else if exponent = 0 then .finite negative fraction leastExponent
  else .finite negative (fraction + hiddenBit) (leastExponent + (exponent - 1 : Nat))

/-- A double from its sign bit and the bits below it. -/
def ofMagnitude (negative : Bool) (magnitude : Nat) : Float :=
  Float.ofBits (UInt64.ofNat (magnitude + if negative then signBit else 0))

/-- The double that is `significand * 2 ^ exponent` with the given sign. The product is meant to be
a double; bits that do not fit are dropped. -/
def compose (negative : Bool) (significand : Nat) (exponent : Int) : Float :=
  if significand = 0 then ofMagnitude negative 0
  else
    let width := significand.log2 + 1
    let scaled : Int := max (exponent + width - (fractionBits + 1)) leastExponent
    let shift := exponent - scaled
    let whole := if 0 ≤ shift then significand <<< shift.toNat else significand >>> (-shift).toNat
    if whole < hiddenBit then ofMagnitude negative whole
    else ofMagnitude negative
      ((scaled - leastExponent + 1).toNat * hiddenBit + (whole - hiddenBit))

/-- Not a number. -/
def nan : Float := Float.ofBits 0x7ff8000000000000

/-- Positive infinity. -/
def infinity : Float := Float.ofBits 0x7ff0000000000000

/-- The gap between one and the next double, `2 ^ -52`. -/
def epsilon : Float := Float.ofBits 0x3cb0000000000000

/-- Places every double on one line: the negative ones by falling magnitude, the two zeros apart,
the positive ones, infinity, and last what is not a number. -/
def orderKey (x : Float) : Int :=
  let bits := x.toBits.toNat
  if bits < signBit then bits else -(bits - signBit : Nat) - 1

/-- A place on that line before every double. -/
def beforeAll : Int := -0x10000000000000000

/-- The whole part of a double, toward zero, held within a signed 64-bit word. What is not a number
has the whole part zero. -/
def wholePart (x : Float) : Int :=
  match Reading.of x with
  | .nan => 0
  | .infinite negative => if negative then leastSigned else greatestSigned
  | .finite negative significand exponent =>
    let magnitude : Nat :=
      if 0 ≤ exponent then significand <<< exponent.toNat else significand >>> (-exponent).toNat
    if negative then max (-magnitude) leastSigned else min magnitude greatestSigned

/-- The remainder of a division that rounds toward zero. It is exact and has the sign of `x`. -/
def remainder (x y : Float) : Float :=
  match Reading.of x, Reading.of y with
  | .finite negative m q, .finite _ n r =>
    if n = 0 then nan
    else
      let base := min q r
      compose negative (m <<< (q - base).toNat % n <<< (r - base).toNat) base
  | .finite _ _ _, .infinite _ => x
  | _, _ => nan

/-- The larger of `x` and `floor`; `floor` also when `x` is not a number. -/
def atLeast (floor x : Float) : Float := if x > floor then x else floor

/-- The smaller of `x` and `ceiling`; `ceiling` also when `x` is not a number. -/
def atMost (ceiling x : Float) : Float :=
  if x.isNaN then ceiling else if ceiling < x then ceiling else x

/-- `x` held between two bounds. What is not a number passes. -/
def clamp (low high x : Float) : Float :=
  let raised := if x < low then low else x
  if raised > high then high else raised

/-- The nearest double to a whole number. -/
def ofInt (n : Int) : Float := if n < 0 then -Float.ofNat n.natAbs else Float.ofNat n.natAbs

end Menagerie.Number
