import Menagerie.World.Basic

/-!
# What happens in the world

The clock advances, damage is dealt, intents are carried out and bodies move. None of these fails:
what concerns an agent or an item that is not there does nothing.
-/

namespace Menagerie.World

/-- The damage of one attack. -/
def attackDamage : Float := 2.0

/-- How far attacks and hands reach. -/
def reach : Float := 1.5

/-- How close to its point an agent is in a fluid. -/
def fluidRange : Float := 1.5

/-- Moves the clock on by a tick and drops the memories that have run out. -/
def advance (w : World) : World :=
  let now := w.now.next
  let forget (_ : AgentId) (b : Body) (dropped : Nat) : Body × Nat :=
    let (n, memory) := b.memory.advance now
    ({ b with memory }, dropped + n)
  let (bodies, dropped) := w.bodies.mapWithState forget 0
  { w with
    clock := { w.clock with now }
    bodies
    tally := { w.tally with expiredMemories := w.tally.expiredMemories + dropped } }

/-- Deals damage and notes who dealt it; nothing where the victim is unknown or dead. -/
def damage? (w : World) (attacker victim : AgentId) (amount : Float) : Option World :=
  match w.body? victim with
  | none => none
  | some b =>
    if b.view.isAlive then
      let view := { b.view with health := Number.atLeast 0.0 (b.view.health - amount) }
      let hit := { w with
        bodies := w.bodies.insert victim { b with view, lastHit := some (attacker, w.now) } }
      if view.isAlive then some hit
      else some { hit with tally := { w.tally with deaths := w.tally.deaths + 1 } }
    else none

/-- Deals damage where it can be dealt. -/
def damage (w : World) (attacker victim : AgentId) (amount : Float) : World :=
  (w.damage? attacker victim amount).getD w

/-- Notes which fluids an agent is in. -/
def refreshFluids (w : World) (id : AgentId) : World :=
  w.updateBody id fun b =>
    let near (kind : FeatureKind) := w.features.any fun f =>
      f.kind == kind && f.position.distance b.view.position ≤ fluidRange
    { b with view := { b.view with inWater := near .water, inLava := near .lava } }

/-- Puts an agent somewhere else, if there is such an agent. -/
def place? (w : World) (id : AgentId) (p : Position) : Option World :=
  if w.contains id then
    let moved := w.updateBody id fun b => { b with view := { b.view with position := p } }
    some (moved.refreshFluids id)
  else none

/-! ## Intents -/

/-- Attacks a victim within reach. -/
def attack (w : World) (id victim : AgentId) : World :=
  match w.position? id, w.position? victim with
  | some p, some q =>
    if p.distance q ≤ reach then
      match w.damage? id victim attackDamage with
      | some hit => { hit with tally := { hit.tally with attacks := hit.tally.attacks + 1 } }
      | none => w
    else w
  | _, _ => w

/-- Picks up an item within reach. -/
def pickUp (w : World) (id : AgentId) (item : ItemId) : World :=
  match w.position? id, w.itemPosition? item with
  | some p, some q =>
    if p.distance q > reach then w
    else
      let held := w.updateBody id fun b => { b with inventory := b.inventory ++ [item] }
      { held with
        items := held.items.erase item
        tally := { held.tally with pickups := held.tally.pickups + 1 } }
  | _, _ => w

/-- Carries out one intent of an agent. -/
def carryOut (w : World) (id : AgentId) : Intent → World
  | .walk target => w.updateBody id fun b => { b with heading := some target }
  | .lookAt p => w.updateBody id fun b => { b with lookAt := some p }
  | .stopMoving => w.updateBody id Body.halted
  | .attack victim => w.attack id victim
  | .pickUp item => w.pickUp id item
  | .setPose pose => w.updateBody id fun b => { b with pose }
  | .setAspect name enabled => w.updateBody id fun b =>
    { b with aspects := if enabled then b.aspects.add name else b.aspects.erase name }
  | .playSound _ => w

/-- Carries out all intents that wait, in the order in which they were issued. -/
def settle (w : World) : World :=
  w.intents.foldl (fun w (id, intent) => w.carryOut id intent) { w with intents := [] }

/-! ## Movement -/

/-- The body after a step toward its target, without the target once it is reached. -/
def stepBody (speed : Float) (target : WalkTarget) (b : Body) : Body :=
  let start := b.view.position
  let position :=
    if target.isReachedFrom start then start
    else start.stepToward target.position (speed * Number.atLeast 0.0 target.speed)
  let moved := { b with view := { b.view with position } }
  if target.isReachedFrom position then moved.halted else moved

/-- Moves one agent, if it is alive, awake and walking. -/
def moveAgent (w : World) (id : AgentId) : World :=
  match w.body? id with
  | none => w
  | some b =>
    if !b.view.isAlive || b.pose == .sleeping then w
    else
      match b.walkTarget? with
      | none => w
      | some target => (w.updateBody id (stepBody w.movementSpeed target)).refreshFluids id

/-- Moves every agent, in the order of their numbers. -/
def move (w : World) : World := w.bodies.keys.foldl moveAgent w

end Menagerie.World
