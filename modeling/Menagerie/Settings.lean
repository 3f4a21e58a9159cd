import Menagerie.Clock
import Menagerie.Document.Shape

/-!
# Settings

What a run is tuned by. Every setting has a value for when nothing is said about it, and a name that
is no setting is refused.
-/

namespace Menagerie

/-- Ranges and intervals of the sensors. -/
structure SensorSettings where
  visibleRange : Float := 16.0
  visibleInterval : UInt64 := 1
  /-- For how many ticks a hit is remembered. -/
  hurtMemoryTicks : UInt64 := 100
  flowerRange : Float := 8.0
  flowerInterval : UInt64 := 20
  itemRange : Float := 8.0
  itemInterval : UInt64 := 5
  drowsyInterval : UInt64 := 20
  deriving DecidableEq, Repr

namespace SensorSettings

def read? (d : Document) : Option SensorSettings := do
  let fields ← d.strictRecord? ["visible_range", "visible_interval", "hurt_memory_ticks",
    "flower_range", "flower_interval", "item_range", "item_interval", "drowsy_interval"]
  let missing : SensorSettings := {}
  return {
    visibleRange := ← fields.orElse "visible_range" missing.visibleRange Shaped.number?
    visibleInterval := ← fields.orElse "visible_interval" missing.visibleInterval Shaped.uint64?
    hurtMemoryTicks := ← fields.orElse "hurt_memory_ticks" missing.hurtMemoryTicks Shaped.uint64?
    flowerRange := ← fields.orElse "flower_range" missing.flowerRange Shaped.number?
    flowerInterval := ← fields.orElse "flower_interval" missing.flowerInterval Shaped.uint64?
    itemRange := ← fields.orElse "item_range" missing.itemRange Shaped.number?
    itemInterval := ← fields.orElse "item_interval" missing.itemInterval Shaped.uint64?
    drowsyInterval := ← fields.orElse "drowsy_interval" missing.drowsyInterval Shaped.uint64? }

def toDocument (s : SensorSettings) : Document :=
  .object [("visible_range", .float s.visibleRange),
    ("visible_interval", Document.ofUInt64 s.visibleInterval),
    ("hurt_memory_ticks", Document.ofUInt64 s.hurtMemoryTicks),
    ("flower_range", .float s.flowerRange), ("flower_interval", Document.ofUInt64 s.flowerInterval),
    ("item_range", .float s.itemRange), ("item_interval", Document.ofUInt64 s.itemInterval),
    ("drowsy_interval", Document.ofUInt64 s.drowsyInterval)]

end SensorSettings

/-- What a run is tuned by. -/
structure Settings where
  /-- Runs from one seed are alike. -/
  seed : UInt64 := 0x5eed
  /-- For how many ticks a run goes on. -/
  ticks : UInt64 := 1200
  dayLength : UInt64 := Clock.defaultDayLength
  /-- How far agents walk in a tick at a speed of one. -/
  movementSpeed : Float := 1.0
  sensors : SensorSettings := {}
  deriving DecidableEq, Repr

namespace Settings

instance : Inhabited Settings := ⟨{}⟩

def read? (d : Document) : Option Settings := do
  let fields ← d.strictRecord? ["seed", "ticks", "day_length", "movement_speed", "sensors"]
  let missing : Settings := {}
  return {
    seed := ← fields.orElse "seed" missing.seed Shaped.uint64?
    ticks := ← fields.orElse "ticks" missing.ticks Shaped.uint64?
    dayLength := ← fields.orElse "day_length" missing.dayLength Shaped.uint64?
    movementSpeed := ← fields.orElse "movement_speed" missing.movementSpeed Shaped.number?
    sensors := ← fields.orElse "sensors" missing.sensors SensorSettings.read? }

def toDocument (s : Settings) : Document :=
  .object [("seed", Document.ofUInt64 s.seed), ("ticks", Document.ofUInt64 s.ticks),
    ("day_length", Document.ofUInt64 s.dayLength), ("movement_speed", .float s.movementSpeed),
    ("sensors", s.sensors.toDocument)]

end Settings

end Menagerie
