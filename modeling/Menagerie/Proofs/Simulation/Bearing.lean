import Menagerie.Proofs.Simulation.Course

/-!
# How bodies bear themselves

The pose of a body, its aspects and what it carries are changed by intents alone. Between intents a
world is `Calm`: all of these are the same for every body, and so are the items that lie on the ground
and the number that was picked up. The clock, damage, sensing, movement and whatever agents do while
they think leave the world calm.
-/

namespace Menagerie

/-- Whether a body bears itself as another and carries the same. -/
structure Body.Calm (b b' : Body) : Prop where
  pose : b'.pose = b.pose
  aspects : b'.aspects = b.aspects
  inventory : b'.inventory = b.inventory

theorem Body.Calm.refl (b : Body) : Calm b b := ⟨rfl, rfl, rfl⟩

theorem Body.Calm.trans {b b' b'' : Body} (h : Calm b b') (h' : Calm b' b'') : Calm b b'' :=
  ⟨h'.pose.trans h.pose, h'.aspects.trans h.aspects, h'.inventory.trans h.inventory⟩

namespace World

/-- Whether the bodies of a world bear themselves as those of another, and nothing was picked up. -/
structure Calm (w w' : World) : Prop where
  bodies : w.Each Body.Calm w'
  items : w'.items = w.items
  pickups : w'.tally.pickups = w.tally.pickups

variable {w w' w'' : World} {id me : AgentId} {may : Tick → MemoryKey → MemorySlot → Prop}

theorem Calm.refl (w : World) : Calm w w := ⟨.refl Body.Calm.refl w, rfl, rfl⟩

theorem Calm.trans (h : Calm w w') (h' : Calm w' w'') : Calm w w'' :=
  ⟨h.bodies.trans Body.Calm.trans h'.bodies, h'.items.trans h.items, h'.pickups.trans h.pickups⟩

theorem Calm.foldl {α : Type} {f : World → α → World} (l : List α) (h : ∀ a w, Calm w (f w a))
    (w : World) : Calm w (l.foldl f w) := by
  induction l generalizing w with
  | nil => exact .refl w
  | cons a rest ih => exact (h a w).trans (ih (f w a))

theorem calm_updateBody {f : Body → Body} (h : ∀ b, Body.Calm b (f b)) :
    w.Calm (w.updateBody id f) :=
  ⟨each_updateBody Body.Calm.refl fun b _ => h b, rfl, rfl⟩

theorem calm_damage? {attacker victim : AgentId} {amount : Float}
    (h : w.damage? attacker victim amount = some w') : w.Calm w' := by
  unfold damage? at h
  cases hb : w.body? victim with
  | none =>
    rw [hb] at h
    cases h
  | some b =>
    rw [hb] at h
    dsimp only at h
    split at h
    · have hcalm : w.Calm { w with bodies := w.bodies.insert victim { b with
          view := { b.view with health := Number.atLeast 0.0 (b.view.health - amount) }
          lastHit := some (attacker, w.now) } } :=
        ⟨each_insert Body.Calm.refl hb ⟨rfl, rfl, rfl⟩, rfl, rfl⟩
      split at h
      · cases h
        exact hcalm
      · cases h
        exact ⟨hcalm.bodies, rfl, rfl⟩
    · cases h

theorem calm_damage (w : World) (attacker victim : AgentId) (amount : Float) :
    w.Calm (w.damage attacker victim amount) := by
  unfold damage
  cases h : w.damage? attacker victim amount with
  | none => exact .refl w
  | some hit => exact calm_damage? h

theorem calm_attack (w : World) (id victim : AgentId) : w.Calm (w.attack id victim) := by
  unfold attack
  split
  · split
    · split
      · next hit hhit =>
        have hcalm := calm_damage? hhit
        exact ⟨hcalm.bodies, hcalm.items, hcalm.pickups⟩
      · exact .refl w
    · exact .refl w
  · exact .refl w

theorem calm_refreshFluids (w : World) (id : AgentId) : w.Calm (w.refreshFluids id) :=
  calm_updateBody fun _ => ⟨rfl, rfl, rfl⟩

theorem calm_stepBody (speed : Float) (target : WalkTarget) (b : Body) :
    b.Calm (stepBody speed target b) := by
  unfold stepBody
  dsimp only
  generalize (if target.isReachedFrom b.view.position = true then _ else _) = position
  split
  · exact ⟨rfl, rfl, rfl⟩
  · exact ⟨rfl, rfl, rfl⟩

theorem calm_moveAgent (w : World) (id : AgentId) : w.Calm (w.moveAgent id) := by
  unfold moveAgent
  split
  · exact .refl w
  · split
    · exact .refl w
    · split
      · exact .refl w
      · next target _ =>
        exact (calm_updateBody (calm_stepBody _ target)).trans (calm_refreshFluids _ id)

theorem calm_move (w : World) : w.Calm w.move := .foldl _ (fun id w => calm_moveAgent w id) w

theorem calm_advance (w : World) : w.Calm w.advance := by
  refine ⟨fun id => ?_, rfl, rfl⟩
  rw [body?_advance]
  cases w.body? id with
  | none => exact .none
  | some b => exact .some ⟨rfl, rfl, rfl⟩

theorem calm_updateMemories (w : World) (id : AgentId) (us : List MemoryUpdate) :
    w.Calm (w.updateMemories id us).2 := by
  induction us generalizing w with
  | nil => exact .refl w
  | cons u rest ih =>
    rw [updateMemories]
    unfold updateMemory
    cases w.memory? id with
    | none => exact ih w
    | some memory =>
      dsimp only
      cases memory.update u with
      | error e => exact .refl w
      | ok m =>
        have hupdated : w.Calm (w.updateBody id fun b => { b with memory := m }) :=
          calm_updateBody fun _ => ⟨rfl, rfl, rfl⟩
        exact hupdated.trans (ih _)

end World

namespace Simulation

variable {s : Simulation}

theorem calm_dealHits (s : Simulation) : s.world.Calm s.dealHits.world :=
  .foldl _ (fun (hit : ScriptedHit) w => w.calm_damage hit.attacker hit.victim hit.damage) _

theorem calm_senseFor (e : Engine) (entry : AgentId × Brain) (w : World) :
    w.Calm (senseFor e w entry) := by
  have hkind : ∀ kind w, World.Calm w (senseKind e entry.1 w kind) := by
    intro kind w
    unfold senseKind
    split
    · exact .refl w
    · next sensor _ =>
      split
      · exact w.calm_updateMemories entry.1 _
      · exact .refl w
  unfold senseFor
  split
  · exact .foldl _ hkind w
  · exact .refl w

theorem calm_sense (s : Simulation) : s.world.Calm s.sense.world :=
  .foldl _ (fun entry w => calm_senseFor s.engine entry w) _

/-- Up to when brains think, a tick leaves the world calm. -/
theorem calm_whenThinking (s : Simulation) : s.world.Calm s.whenThinking.world := by
  have hhit : s.world.advance.Calm s.whenSensing.world :=
    calm_dealHits { s with world := s.world.advance }
  exact s.world.calm_advance.trans (hhit.trans s.whenSensing.calm_sense)

end Simulation

end Menagerie
