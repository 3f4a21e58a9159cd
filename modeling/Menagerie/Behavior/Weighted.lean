import Menagerie.Number.Binary

/-!
# Weighted choice

One draw picks an entry from a table of weights. The entries that count are those whose weight is
finite and positive; the entry picked is the first at which the running total exceeds the draw's
share of the whole.
-/

namespace Menagerie

/-- A weight that counts is itself; any other is zero. -/
def usableWeight (w : Float) : Float := if w.isFinite && w > 0.0 then w else 0.0

/-- The first position whose running total exceeds `target`, or else the last one that counts.
`index` is the position of the list's first weight and `last` the last position before it that
counts. -/
def pickFrom (target : Float) : List Float → Nat → Float → Option Nat → Option Nat
  | [], _, _, last => last
  | w :: rest, index, total, last =>
    let weight := usableWeight w
    if weight ≤ 0.0 then pickFrom target rest (index + 1) total last
    else
      let total := total + weight
      if total > target then some index else pickFrom target rest (index + 1) total (some index)

/-- The sum of the weights that count. -/
def totalWeight (weights : List Float) : Float := (weights.map usableWeight).foldl (· + ·) 0.0

/-- The position that a draw between zero and one picks; none where no weight counts. -/
def pickWeighted (weights : List Float) (draw : Float) : Option Nat :=
  let whole := totalWeight weights
  if whole ≤ 0.0 then none
  else pickFrom (Number.clamp 0.0 1.0 draw * whole) weights 0 0.0 none

end Menagerie
