import Menagerie.Document.Shape
import Menagerie.Expr.Value

/-!
# Ticks and the day

Time is counted in ticks from zero. The count is a 64-bit word that stays at its largest value once
it gets there, in sums (`toNat_after`) as in steps. A clock knows the length of a day; the second
half of each day is night.
-/

namespace Menagerie

open Std

/-- A point in time. -/
structure Tick where
  count : UInt64
  deriving DecidableEq, Repr, Inhabited

namespace Tick

instance : Ord Tick := ⟨fun a b => compare a.count b.count⟩

instance : TransOrd Tick := transOrd_of_rank count fun _ _ => rfl

instance : LawfulEqOrd Tick :=
  lawfulEqOrd_of_rank count (fun _ _ => rfl) fun ⟨_⟩ ⟨_⟩ h => congrArg Tick.mk h

instance : LE Tick := ⟨fun a b => a.count ≤ b.count⟩

instance (a b : Tick) : Decidable (a ≤ b) := inferInstanceAs (Decidable (a.count ≤ b.count))

def zero : Tick := ⟨0⟩

/-- The last tick that is counted. -/
def last : Tick := ⟨0xffffffffffffffff⟩

/-- The tick `n` ticks later, or the last one. -/
def after (t : Tick) (n : UInt64) : Tick :=
  if t.count + n < t.count then last else ⟨t.count + n⟩

def next (t : Tick) : Tick := t.after 1

/-- How many ticks `t` is later than `earlier`; zero if it is not. -/
def since (t earlier : Tick) : UInt64 :=
  if t.count < earlier.count then 0 else t.count - earlier.count

/-- Whether an interval divides the tick; an interval of zero divides none. -/
def isMultipleOf (t : Tick) (interval : UInt64) : Bool :=
  interval != 0 && t.count % interval == 0

def describe (t : Tick) : String := s!"t{t.count}"

def read? {δ : Type} [Shaped δ] (d : δ) : Option Tick := (Shaped.uint64? d).map mk

def toDocument (t : Tick) : Document := Document.ofUInt64 t.count

theorem toNat_after (t : Tick) (n : UInt64) :
    (t.after n).count.toNat = min (t.count.toNat + n.toNat) (UInt64.size - 1) := by
  have size : UInt64.size = 18446744073709551616 := rfl
  have ht := t.count.toNat_lt
  have hn := n.toNat_lt
  unfold after
  split
  · next h =>
    rw [UInt64.lt_iff_toNat_lt, UInt64.toNat_add] at h
    have : last.count.toNat = UInt64.size - 1 := rfl
    omega
  · next h =>
    rw [UInt64.lt_iff_toNat_lt, UInt64.toNat_add] at h
    simp only [UInt64.toNat_add]
    omega

protected theorem le_refl (t : Tick) : t ≤ t := UInt64.le_refl t.count

protected theorem le_trans {t t' t'' : Tick} (h : t ≤ t') (h' : t' ≤ t'') : t ≤ t'' :=
  UInt64.le_trans h h'

theorem le_after (t : Tick) (n : UInt64) : t ≤ t.after n := by
  have ht := t.count.toNat_lt
  have size : UInt64.size = 18446744073709551616 := rfl
  refine UInt64.le_iff_toNat_le.mpr ?_
  rw [toNat_after]
  omega

theorem toNat_since (t earlier : Tick) :
    (t.since earlier).toNat = t.count.toNat - earlier.count.toNat := by
  unfold since
  split
  · next h =>
    rw [UInt64.lt_iff_toNat_lt] at h
    have : (0 : UInt64).toNat = 0 := rfl
    omega
  · next h =>
    exact UInt64.toNat_sub_of_le _ _ (UInt64.not_lt.mp h)

end Tick

/-- The time, and how long a day is. -/
structure Clock where
  now : Tick
  dayLength : UInt64
  deriving DecidableEq, Repr

namespace Clock

/-- How many ticks a day has unless it is said otherwise. -/
def defaultDayLength : UInt64 := 24000

def timeOfDay (c : Clock) : UInt64 := if c.dayLength = 0 then 0 else c.now.count % c.dayLength

/-- Night is the second half of each day. -/
def isNight (c : Clock) : Bool := c.dayLength > 0 && c.timeOfDay ≥ c.dayLength / 2

/-- What expressions may read of the world. -/
def query (c : Clock) : String → Option Value
  | "time" => some (.number c.now.count.toFloat)
  | "time_of_day" => some (.number c.timeOfDay.toFloat)
  | "day_length" => some (.number c.dayLength.toFloat)
  | "is_night" => some (.bool c.isNight)
  | "is_day" => some (.bool !c.isNight)
  | _ => none

end Clock

end Menagerie
