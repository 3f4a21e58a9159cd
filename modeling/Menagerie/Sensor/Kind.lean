import Menagerie.Memory.Key

/-!
# Kinds of sensors

A sensor perceives one thing and keeps the memories about it up to date.
-/

namespace Menagerie

open Std

inductive SensorKind where
  | nearestVisible
  | hurtBy
  | drowsy
  | nearbyFlower
  | wantedItem
  deriving DecidableEq, Repr

namespace SensorKind

instance : Named SensorKind where
  all := [.nearestVisible, .hurtBy, .drowsy, .nearbyFlower, .wantedItem]
  name
    | .nearestVisible => "nearest_visible"
    | .hurtBy => "hurt_by"
    | .drowsy => "drowsy"
    | .nearbyFlower => "nearby_flower"
    | .wantedItem => "wanted_item"

instance : Ord SensorKind := ⟨fun a b => compare a.ctorIdx b.ctorIdx⟩

instance : TransOrd SensorKind := transOrd_of_rank SensorKind.ctorIdx fun _ _ => rfl

instance : LawfulEqOrd SensorKind :=
  lawfulEqOrd_of_rank SensorKind.ctorIdx (fun _ _ => rfl) fun a b h => by
    rw [← SensorKind.ofNat_ctorIdx a, h, SensorKind.ofNat_ctorIdx]

/-- The memories that a sensor writes. -/
def memories : SensorKind → List MemoryKey
  | nearestVisible => [.nearestVisibleAgents]
  | hurtBy => [.hurtBy, .hurtByEntity]
  | drowsy => [.drowsy]
  | nearbyFlower => [.nearbyFlower]
  | wantedItem => [.wantedItem]

end SensorKind

end Menagerie
