import Menagerie.Document.Shape

/-!
# Positions

Points of the world in three coordinates, `y` being the height. Every operation fixes the order in
which its sums and products are taken, so that two runs agree to the last bit.
-/

namespace Menagerie

/-- A point of the world. -/
structure Position where
  x : Float
  y : Float
  z : Float
  deriving DecidableEq, Repr

namespace Position

def origin : Position := ⟨0.0, 0.0, 0.0⟩

instance : Inhabited Position := ⟨origin⟩

/-- Whether two points are the same as numbers are compared. -/
def same (p q : Position) : Bool := p.x == q.x && p.y == q.y && p.z == q.z

def distance (p q : Position) : Float :=
  let dx := q.x - p.x
  let dy := q.y - p.y
  let dz := q.z - p.z
  (dx * dx + dy * dy + dz * dz).sqrt

/-- The distance without regard to height. -/
def horizontalDistance (p q : Position) : Float :=
  let dx := q.x - p.x
  let dz := q.z - p.z
  (dx * dx + dz * dz).sqrt

def offset (p : Position) (dx dy dz : Float) : Position := ⟨p.x + dx, p.y + dy, p.z + dz⟩

/-- The point reached from `p` by a step of at most `maxStep` toward `target`; the target itself
where the step reaches it. -/
def stepToward (p target : Position) (maxStep : Float) : Position :=
  let d := p.distance target
  if d ≤ maxStep ∨ d ≤ Number.epsilon then target
  else
    let t := maxStep / d
    ⟨p.x + (target.x - p.x) * t, p.y + (target.y - p.y) * t, p.z + (target.z - p.z) * t⟩

/-- The point at a distance from `p` on the side that faces away from `threat`, at the height of
`p`. Where the two points lie above one another it is in the direction of `x`. -/
def awayFrom (p threat : Position) (distance : Float) : Position :=
  let dx := p.x - threat.x
  let dz := p.z - threat.z
  let length := (dx * dx + dz * dz).sqrt
  if length ≤ Number.epsilon then p.offset distance 0.0 0.0
  else p.offset (dx / length * distance) 0.0 (dz / length * distance)

/-- A point as it is shown: each coordinate to one decimal place. -/
def describe (p : Position) : String :=
  s!"({Number.renderTenths p.x}, {Number.renderTenths p.y}, {Number.renderTenths p.z})"

def read? {δ : Type} [Shaped δ] (d : δ) : Option Position := do
  let fields ← Shaped.record? "Position" ["x", "y", "z"] d
  return ⟨← fields.required "x" Shaped.number?, ← fields.required "y" Shaped.number?,
    ← fields.required "z" Shaped.number?⟩

def toDocument (p : Position) : Document :=
  .object [("x", .float p.x), ("y", .float p.y), ("z", .float p.z)]

end Position

/-- Where to walk and how. -/
structure WalkTarget where
  position : Position
  /-- A multiple of the movement speed of the world. -/
  speed : Float
  /-- The distance within which the target counts as reached. -/
  completionRange : Float
  deriving DecidableEq, Repr

namespace WalkTarget

/-- The least distance at which a target counts as reached. -/
def leastRange : Float := 0.5

def isReachedFrom (t : WalkTarget) (p : Position) : Bool :=
  p.distance t.position ≤ Number.atLeast leastRange t.completionRange

end WalkTarget

end Menagerie
