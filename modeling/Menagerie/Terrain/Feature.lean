import Menagerie.Space

/-!
# Terrain and its features

The ground is a flat square around the origin. Features are points on it that agents look for.
-/

namespace Menagerie

inductive FeatureKind where
  | restSpot
  | flower
  | water
  | lava
  deriving DecidableEq, Repr

namespace FeatureKind

instance : Named FeatureKind where
  all := [.restSpot, .flower, .water, .lava]
  name
    | .restSpot => "rest_spot"
    | .flower => "flower"
    | .water => "water"
    | .lava => "lava"

/-- Whether agents can be in it. -/
def isFluid : FeatureKind → Bool
  | water | lava => true
  | restSpot | flower => false

end FeatureKind

/-- A feature at a point. -/
structure Feature where
  kind : FeatureKind
  position : Position
  deriving DecidableEq, Repr

namespace Feature

def read? {δ : Type} [Shaped δ] (d : δ) : Option Feature := do
  let fields ← Shaped.record? "FeatureSpec" ["kind", "position"] d
  return ⟨← fields.required "kind" Shaped.member?, ← fields.required "position" Position.read?⟩

def toDocument (f : Feature) : Document :=
  .object [("kind", Document.ofMember f.kind), ("position", f.position.toDocument)]

end Feature

/-- Flat ground at a height, as far as an extent from the origin on both horizontal axes. -/
structure Terrain where
  groundLevel : Float := 64.0
  halfExtent : Float := 64.0
  deriving DecidableEq, Repr

namespace Terrain

/-- The point of the ground at or under a candidate, unless it lies outside. -/
def walkable? (t : Terrain) (candidate : Position) : Option Position :=
  if candidate.x.abs > t.halfExtent ∨ candidate.z.abs > t.halfExtent then none
  else some ⟨candidate.x, t.groundLevel, candidate.z⟩

def read? {δ : Type} [Shaped δ] (d : δ) : Option Terrain := do
  let fields ← Shaped.record? "TerrainSpec" ["ground_level", "half_extent"] d
  let missing : Terrain := {}
  return ⟨← fields.orElse "ground_level" missing.groundLevel Shaped.number?,
    ← fields.orElse "half_extent" missing.halfExtent Shaped.number?⟩

def toDocument (t : Terrain) : Document :=
  .object [("ground_level", .float t.groundLevel), ("half_extent", .float t.halfExtent)]

end Terrain

end Menagerie
