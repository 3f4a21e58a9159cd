import Menagerie.Number.Binary

/-!
# The shortest decimal of a double

The decimal written for a finite double is the one with the fewest digits among those that read
back as that double, and the nearest to it among those. `shortest` tries one digit, then two, and
so on: of each count of digits only the two neighbours of the exact value can lie close enough, and
both are tried in exact arithmetic.
-/

namespace Menagerie.Number

/-- The number `coefficient * 10 ^ exponent`. -/
structure Decimal where
  coefficient : Nat
  exponent : Int
  deriving DecidableEq, Repr

namespace Decimal

/-- The digits of the coefficient, most significant first; zero has one digit. -/
def digits (d : Decimal) : List Char := (Nat.toDigits 10 d.coefficient)

/-- The digits of a number counted without its trailing zeros, each of which adds one to the
exponent. The fuel bounds how many zeros are dropped. -/
def normalize : Nat → Decimal → Decimal
  | 0, d => d
  | fuel + 1, d =>
    if d.coefficient ≠ 0 ∧ d.coefficient % 10 = 0 then
      normalize fuel ⟨d.coefficient / 10, d.exponent + 1⟩
    else d

/-- A positive fraction together with the half-width of the interval of numbers that round to it. -/
structure Interval where
  /-- The value, the lower end and the upper end, over the common denominator. -/
  value : Nat
  lower : Nat
  upper : Nat
  denominator : Nat
  /-- Whether the two ends round to the value too. -/
  closed : Bool

/-- The numbers that round to `significand * 2 ^ exponent`. Below a power of two the doubles lie
twice as close; the ends belong to the value with the even significand. -/
def Interval.around (significand : Nat) (exponent : Int) : Interval :=
  let powerOfTwo := significand = hiddenBit ∧ leastExponent < exponent
  let scale := 1 <<< exponent.toNat
  { value := 4 * significand * scale
    lower := (4 * significand - if powerOfTwo then 1 else 2) * scale
    upper := (4 * significand + 2) * scale
    denominator := 4 <<< (-exponent).toNat
    closed := significand % 2 = 0 }

/-- Whether `coefficient * 10 ^ exponent` rounds to the value of the interval. -/
def Interval.contains (i : Interval) (d : Decimal) : Bool :=
  let numerator := d.coefficient * Nat.pow 10 d.exponent.toNat
  let denominator := Nat.pow 10 (-d.exponent).toNat
  let scaled := numerator * i.denominator
  if i.closed then i.lower * denominator ≤ scaled && scaled ≤ i.upper * denominator
  else i.lower * denominator < scaled && scaled < i.upper * denominator

/-- The two decimals next to the value that are multiples of `10 ^ exponent`, the nearer first and
of two as near the even one. -/
def Interval.neighbours (i : Interval) (exponent : Int) : List Decimal :=
  let numerator := i.value * Nat.pow 10 (-exponent).toNat
  let denominator := i.denominator * Nat.pow 10 exponent.toNat
  let below := numerator / denominator
  let twice := 2 * (numerator % denominator)
  let down : Decimal := ⟨below, exponent⟩
  let up : Decimal := ⟨below + 1, exponent⟩
  if twice < denominator ∨ (twice = denominator ∧ below % 2 = 0) then [down, up] else [up, down]

/-- How many powers of ten a fraction below one has to be raised by to reach one, up to a bound. -/
def leadingZeros : Nat → Nat → Nat → Nat
  | 0, _, _ => 0
  | fuel + 1, numerator, denominator =>
    if denominator ≤ numerator * 10 then 0
    else leadingZeros fuel (numerator * 10) denominator + 1

/-- The exponent `k` with `10 ^ (k - 1) ≤ value < 10 ^ k`. -/
def Interval.magnitude (i : Interval) : Int :=
  let whole := i.value / i.denominator
  if whole ≠ 0 then (Nat.toDigits 10 whole).length
  else -(leadingZeros 400 i.value i.denominator : Int)

/-- Tries ever more digits. Seventeen digits always suffice. -/
def search (i : Interval) (magnitude : Int) : Nat → Nat → Decimal
  | 0, _ => ⟨i.value / i.denominator, 0⟩
  | fuel + 1, count =>
    match (i.neighbours (magnitude - count)).find? i.contains with
    | some d => d
    | none => search i magnitude fuel (count + 1)

/-- The shortest decimal that reads back as `significand * 2 ^ exponent`. -/
def shortest (significand : Nat) (exponent : Int) : Decimal :=
  if significand = 0 then ⟨0, 0⟩
  else
    let i := Interval.around significand exponent
    normalize 20 (search i i.magnitude 17 1)

/-- `significand * 2 ^ exponent` in tenths, rounded to nearest with a half going to the even
neighbour. -/
def tenths (significand : Nat) (exponent : Int) : Nat :=
  let numerator := (10 * significand) <<< exponent.toNat
  let denominator := 1 <<< (-exponent).toNat
  let below := numerator / denominator
  let twice := 2 * (numerator % denominator)
  if twice < denominator ∨ (twice = denominator ∧ below % 2 = 0) then below else below + 1

/-- The nearest double to a decimal; infinity beyond the largest. The bounds on the magnitude keep
absurd exponents from being expanded. -/
def toFloat (negative : Bool) (d : Decimal) : Float :=
  let magnitude : Int := d.exponent + d.digits.length
  let x : Float :=
    if d.coefficient = 0 ∨ magnitude < -400 then 0.0
    else if 400 < magnitude then infinity
    else Float.ofScientific d.coefficient (d.exponent < 0) d.exponent.natAbs
  if negative then -x else x

end Decimal

end Menagerie.Number
