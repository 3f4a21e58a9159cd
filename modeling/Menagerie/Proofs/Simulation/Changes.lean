import Menagerie.Proofs.Simulation.Inward
import Menagerie.Proofs.World.Intents

/-!
# What becomes of bodies

In a tick a body is given other memories, its agent makes activities active, it obeys its agent's intents,
it is wounded by hits that are due and by attacks, and it moves. A relation that holds between bodies
wherever one of these is done to them holds between the bodies before a tick and those after it
(`Simulation.Orderly.each_step`).
-/

namespace Menagerie

/-- Whether all that differs of a body is what comes of moving. -/
def Body.Moves (b b' : Body) : Prop :=
  b' = { b with
    view := { b.view with
      position := b'.view.position, inWater := b'.view.inWater, inLava := b'.view.inLava }
    memory := b'.memory, heading := b'.heading }

theorem World.moves_stepBody (speed : Float) (target : WalkTarget) (b : Body) :
    b.Moves (World.stepBody speed target b) := by
  unfold stepBody
  dsimp only
  generalize (if target.isReachedFrom b.view.position = true then _ else _) = position
  split
  · rfl
  · rfl

/-- Whether a relation holds between a body and what becomes of it: as its agent remembers or schedules
something else, obeys, moves, or is wounded by as much as `deals` says. -/
structure Body.Covers (deals : Float → Prop) (rel : Body → Body → Prop) : Prop where
  refl : ∀ b, rel b b
  trans : ∀ {b b' b''}, rel b b' → rel b' b'' → rel b b''
  thinks : ∀ b memory schedule, b.schedule.Switches schedule → rel b { b with memory, schedule }
  obeys : ∀ {b b'}, Body.Obeys b b' → rel b b'
  moves : ∀ {b b'}, Body.Moves b b' → rel b b'
  wounds : ∀ b attacker amount now, b.view.isAlive → deals amount → rel b (b.wounded attacker amount now)

variable {deals : Float → Prop} {rel : Body → Body → Prop}

theorem Body.Covers.remembers (h : Body.Covers deals rel) (b : Body) (memory : Blackboard) :
    rel b { b with memory } := h.thinks b memory b.schedule (.refl _)

namespace World

variable {w w' : World} {me : AgentId} {may : Tick → MemoryKey → MemorySlot → Prop}

theorem Touched.covered (touched : w.Touched may me w') (h : Body.Covers deals rel) : w.Each rel w' := by
  intro id
  by_cases hid : id = me
  · subst hid
    refine optionRel_imp (fun hown => ?_) touched.own
    rw [hown.rest]
    exact h.thinks _ _ _ hown.schedule
  · refine optionRel_imp (fun halike => ?_) (touched.others id hid)
    rw [halike.rest]
    exact h.remembers _ _

theorem covered_damage (h : Body.Covers deals rel) {amount : Float} (hdeals : deals amount) (w : World)
    (attacker victim : AgentId) : w.Each rel (w.damage attacker victim amount) :=
  w.each_damage h.refl attacker victim amount fun b halive => h.wounds b attacker amount _ halive hdeals

theorem covered_settle (h : Body.Covers deals rel) (hattack : deals attackDamage) (w : World) :
    w.Each rel w.settle := by
  have hidle : w.Each rel { w with intents := [] } := .refl h.refl w
  refine hidle.trans h.trans (.foldl h.refl h.trans _ (fun entry _ w => ?_) _)
  exact w.each_carryOut h.obeys entry.1 entry.2
    fun b halive => h.wounds b entry.1 attackDamage _ halive hattack

theorem covered_move (h : Body.Covers deals rel) (w : World) : w.Each rel w.move :=
  w.each_move h.refl h.trans (fun speed target b => h.moves (moves_stepBody speed target b))
    fun _ _ _ => h.moves rfl

end World

namespace Simulation

variable {s s' : Simulation}

/-- Up to when brains think bodies are wounded by hits that are due, and get other memories. -/
theorem each_whenThinking (h : Body.Covers deals rel) (hhits : ∀ hit ∈ s.hits, deals hit.damage) :
    s.world.Each rel s.whenThinking.world := by
  have hadvanced : s.world.Each rel s.world.advance := s.world.each_advance h.remembers
  have hhit : s.world.advance.Each rel s.whenSensing.world := by
    refine .foldl h.refl h.trans _ (fun hit hdue w => ?_) _
    exact w.covered_damage h (hhits hit (List.takeWhile_subset _ hdue)) hit.attacker hit.victim
  exact hadvanced.trans h.trans <| hhit.trans h.trans <| s.each_sense h.refl h.trans h.remembers

/-- What holds between bodies and what becomes of them holds between the bodies before a tick and those after
it, where the damage that is waiting and that of attacks is such as is dealt. -/
theorem Orderly.each_step (horderly : s.Orderly) (h : Body.Covers deals rel)
    (hattack : deals World.attackDamage) (hhits : ∀ hit ∈ s.hits, deals hit.damage) :
    s.world.Each rel s.step.world := by
  have hthought : s.whenThinking.world.Each rel s.whenSettling.world :=
    (horderly.rel_think (World.Each rel) (.refl h.refl) (World.Each.trans h.trans)
      fun r _ hr _ => (r.touched hr.indexed).covered h).2
  have hsettled : s.whenSettling.world.Each rel s.whenSettling.world.settle :=
    s.whenSettling.world.covered_settle h hattack
  have hmoved : s.whenSettling.world.settle.Each rel s.step.world :=
    s.whenSettling.world.settle.covered_move h
  exact (each_whenThinking h hhits).trans h.trans <| hthought.trans h.trans <|
    hsettled.trans h.trans hmoved

theorem each_hit (h : Body.Covers deals rel) {attacker victim : AgentId} {damage : Float}
    (hdeals : deals damage) (hs' : s.hit attacker victim damage = .ok s') : s.world.Each rel s'.world := by
  rw [eq_of_hit hs']
  exact s.world.covered_damage h hdeals attacker victim

end Simulation

end Menagerie
