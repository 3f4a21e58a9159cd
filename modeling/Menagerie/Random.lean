import Menagerie.Number.Binary

/-!
# The seeded generator

All chance in a simulation comes from one generator whose state is four 64-bit words. The state is
a plain value: a draw returns the number together with the next state, so that a run is a function
of its seed.
-/

namespace Menagerie

/-- The state of the generator. -/
structure Random where
  a : UInt64
  b : UInt64
  c : UInt64
  d : UInt64
  deriving DecidableEq, Repr

namespace Random

def rotateLeft (x : UInt64) (n : UInt64) : UInt64 := (x <<< n) ||| (x >>> (64 - n))

def rotateRight32 (x : UInt32) (n : UInt32) : UInt32 :=
  if n = 0 then x else (x >>> n) ||| (x <<< (32 - n))

/-! ## Seeding -/

/-- One step of the congruential sequence that spreads a seed. -/
def spreadStep (s : UInt64) : UInt64 := s * 6364136223846793005 + 11634580027462260723

/-- The 32-bit word that a state of the spreading sequence gives off. -/
def spreadWord (s : UInt64) : UInt64 :=
  let mixed := (((s >>> 18) ^^^ s) >>> 27).toUInt32
  (rotateRight32 mixed (s >>> 59).toUInt32).toUInt64

/-- Two words of the spreading sequence as one, the first in the low half, and the state after
them. -/
def spreadPair (s : UInt64) : UInt64 × UInt64 :=
  let s₁ := spreadStep s
  let s₂ := spreadStep s₁
  (spreadWord s₁ ||| (spreadWord s₂ <<< 32), s₂)

def ofSeed (seed : UInt64) : Random :=
  let (a, s₁) := spreadPair seed
  let (b, s₂) := spreadPair s₁
  let (c, s₃) := spreadPair s₂
  let (d, _) := spreadPair s₃
  ⟨a, b, c, d⟩

/-! ## Drawing -/

/-- The next 64-bit word. -/
def next (r : Random) : UInt64 × Random :=
  let word := rotateLeft (r.a + r.d) 23 + r.a
  let c := r.c ^^^ r.a
  let d := r.d ^^^ r.b
  (word, ⟨r.a ^^^ d, r.b ^^^ c, c ^^^ (r.b <<< 17), rotateLeft d 45⟩)

/-- A number in `[0, 1)`: the top 53 bits of a word, as a fraction. -/
def unit (r : Random) : Float × Random :=
  let (word, r') := r.next
  ((word >>> 11).toFloat * Float.ofBits 0x3ca0000000000000, r')

/-- Lowers `scale` by one place at a time until the largest draw stays within `high`. The fuel
bounds the number of places; one or two are the most that rounding asks for. -/
def fitScale (low high largest : Float) : Nat → Float → Float
  | 0, scale => scale
  | fuel + 1, scale =>
    if scale * largest + low > high then
      fitScale low high largest fuel (Float.ofBits (scale.toBits - 1))
    else scale

/-- A number in `[-range, range]`, from the top 52 bits of a word. -/
def symmetric (r : Random) (range : Float) : Float × Random :=
  let low := -range
  let largest := 1.0 - Number.epsilon
  let scale := fitScale low range largest 64 ((range - low) / largest)
  let (word, r') := r.next
  let fraction := (word >>> 12).toFloat * Number.epsilon
  (fraction * scale + low, r')

end Random

end Menagerie
