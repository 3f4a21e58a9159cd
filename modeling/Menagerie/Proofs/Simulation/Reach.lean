import Menagerie.Proofs.Number.Order
import Menagerie.Proofs.Simulation.Walking

/-!
# What agents reach

Nobody moves between the time when agents think and the time when their intents are carried out. So an
item that an agent asked to pick up is within reach by then, and the agent takes it unless another one
did before. This is not so of attacks: a task attacks what is not out of its own range, and such an
attack lands if the victim is within reach of the world (`Reachable.reach_of_issued`). With a range beyond
that it may be dropped each time (`attack_dropped_wolf`).
-/

namespace Menagerie

namespace World

/-- Whether all that differs of a world is what agents remember and do, and intents that came to wait. -/
structure Stays (w w' : World) : Prop where
  view : ∀ id, w'.view? id = w.view? id
  items : w'.items = w.items
  intents : w.intents <+: w'.intents

variable {w w' w'' : World} {id : AgentId}

theorem Stays.refl (w : World) : Stays w w := ⟨fun _ => rfl, rfl, List.prefix_rfl⟩

theorem Stays.trans (h : Stays w w') (h' : Stays w' w'') : Stays w w'' :=
  ⟨fun id => (h'.view id).trans (h.view id), h'.items.trans h.items, h.intents.trans h'.intents⟩

theorem Stays.position? (h : Stays w w') (id : AgentId) : w'.position? id = w.position? id := by
  unfold World.position?
  rw [h.view]

theorem Stays.isAlive (h : Stays w w') (id : AgentId) : w'.isAlive id = w.isAlive id := by
  unfold World.isAlive
  rw [h.view]

theorem Stays.itemPosition? (h : Stays w w') (item : ItemId) :
    w'.itemPosition? item = w.itemPosition? item := by
  unfold World.itemPosition?
  rw [h.items]

theorem Touched.stays {may : Tick → MemoryKey → MemorySlot → Prop} {me : AgentId}
    (h : w.Touched may me w') : w.Stays w' := by
  obtain ⟨issued, hintents⟩ := h.issued
  exact ⟨h.view?, by rw [h.rest], ⟨_, hintents.symm⟩⟩

end World

/-- What a run issues is a movement, or what its leaf may ask for. -/
theorem LeafRun.Able.of_mem_issued {r : LeafRun} {intent : Intent} (h : r.Able)
    (hissued : (r.env.agent, intent) ∈ r.issued) :
    r.leaf.Asks r.stage.world r.env.agent intent ∨ ¬ intent.Still := by
  obtain ⟨issued, hintents, hasks⟩ := h.asks.adds
  have hall : r.issued = issued.map fun intent => (r.env.agent, intent) := by
    unfold LeafRun.issued
    rw [hintents, List.drop_left]
  rw [hall] at hissued
  obtain ⟨_, hmem, ⟨⟩⟩ := List.mem_map.mp hissued
  exact hasks intent hmem

namespace Simulation

variable {engine : Engine} {scenario : Scenario} {s : Simulation} {r : LeafRun}

/-- What an agent has asked for waits when intents are carried out, and nobody has moved since. -/
theorem Reachable.stays_of_mem_runs (honest : engine.Honest) (h : Reachable engine scenario s)
    (hr : r ∈ s.runs) :
    r.stage.world.Stays s.whenSettling.world ∧
      ∀ entry ∈ r.issued, entry ∈ s.whenSettling.world.intents := by
  have able := h.able_of_mem_runs honest
  have here := (r.touched (able r hr).indexed).stays
  obtain ⟨rest, hrest, hleads⟩ := s.leads_think.exists_of_mem hr
  have hlater : r.after.world.Stays s.whenSettling.world :=
    hleads.rel World.Stays World.Stays.refl World.Stays.trans fun later hlater =>
      (later.touched (able later (hrest later hlater)).indexed).stays
  refine ⟨here.trans hlater, fun entry hentry => hlater.intents.subset ?_⟩
  rw [r.intents_after (able r hr).indexed]
  exact List.mem_append_right _ hentry

/-- The world in the next tick once the given intents have been carried out. -/
def settledBy (s : Simulation) (earlier : List (AgentId × Intent)) : World :=
  World.carryOutAll { s.whenSettling.world with intents := [] } earlier

theorem position?_settledBy (s : Simulation) (earlier : List (AgentId × Intent)) (id : AgentId) :
    (s.settledBy earlier).position? id = s.whenSettling.world.position? id :=
  World.position?_carryOutAll earlier { s.whenSettling.world with intents := [] } id

/-- What is close enough for a task to pick it up is within reach. -/
theorem pickupRange_le_reach : Task.pickupRange ≤ World.reach := by decide +kernel

/-- All that agents ask for waits when intents are carried out.

An attack is by a task on a victim that is alive, and not out of the range of the task. When it is carried
out it lands if the victim still lives and is within reach, and so it does if the range is no longer than
the reach.

An item that is to be picked up is taken when it comes to that, or another agent asked for it before. -/
theorem Reachable.reach_of_issued (honest : engine.Honest) (h : Reachable engine scenario s)
    (hr : r ∈ s.runs) {intent : Intent} (hissued : (r.env.agent, intent) ∈ r.issued) :
    (r.env.agent, intent) ∈ s.whenSettling.world.intents ∧
      ∀ earlier later, s.whenSettling.world.intents = earlier ++ (r.env.agent, intent) :: later →
        (∀ victim, intent = .attack victim →
          s.whenSettling.world.isAlive victim ∧
          ∃ range cooldown chaseSpeed near far,
            r.leaf = .meleeAttack range cooldown chaseSpeed ∧
            s.whenSettling.world.position? r.env.agent = some near ∧
            s.whenSettling.world.position? victim = some far ∧ ¬ near.distance far > range ∧
            ((s.settledBy earlier).isAlive victim →
              ((s.settledBy earlier).Lands r.env.agent victim ↔ near.distance far ≤ World.reach)) ∧
            (range ≤ World.reach → Number.IsNumber (near.distance far) →
              near.distance far ≤ World.reach)) ∧
        ∀ item, intent = .pickUp item →
          (∃ other, (other, .pickUp item) ∈ earlier) ∨ (s.settledBy earlier).Takes r.env.agent item := by
  obtain ⟨hstays, hwaits⟩ := h.stays_of_mem_runs honest hr
  have hasks := (h.able_of_mem_runs honest r hr).of_mem_issued hissued
  refine ⟨hwaits _ hissued, fun earlier later _ => ⟨?_, ?_⟩⟩
  · rintro victim rfl
    obtain ⟨range, cooldown, chaseSpeed, near, far, hleaf, halive, hme, hvictim, hrange⟩ :=
      (hasks.resolve_right fun hmoves => hmoves rfl).of_attack
    rw [← hstays.position?] at hme hvictim
    refine ⟨(hstays.isAlive victim).trans halive, range, cooldown, chaseSpeed, near, far, hleaf, hme,
      hvictim, hrange, fun hlives => ?_, fun hreach hnumber => ?_⟩
    · refine World.lands_iff hlives ?_ ?_
      · rw [position?_settledBy, hme]
      · rw [position?_settledBy, hvictim]
    · have hwithin := Number.le_of_not_lt hnumber (Number.le_iff.mp hreach).1 hrange
      exact Number.le_trans hwithin hreach
  · rintro item rfl
    obtain ⟨near, far, hme, hitem, hnear⟩ :=
      (hasks.resolve_right fun hmoves => hmoves rfl).of_pickUp
    rw [← hstays.position?] at hme
    rw [← hstays.itemPosition?] at hitem
    rcases World.itemPosition?_carryOutAll earlier { s.whenSettling.world with intents := [] } item with
      htaken | hleft
    · exact .inl htaken
    · have hme' : (s.settledBy earlier).position? r.env.agent = some near := by
        rw [position?_settledBy, hme]
      refine .inr (World.takes_of_near hme' (hleft.trans hitem) ?_)
      exact Number.not_lt_of_le (Number.le_trans hnear pickupRange_le_reach)

/-- A wolf that was hit strikes back at one that is a step away. -/
theorem Reachable.reach_of_issued_wolf :
    let wolf : Template :=
      { name := "wolf", species := "wolf", enabled := true, maxHealth := 20.0
        defaultActivity := .idle, overrides := .empty, declarations := [], herd := {}
        activities := [⟨.core, [⟨0, .leaf (.retaliate (.bool true))⟩,
            ⟨1, .leaf (.meleeAttack (.number 1.5) (.number 20.0) (.number 0.5))⟩]⟩,
          ⟨.idle, [⟨0, .leaf .doNothing⟩]⟩] }
    let engine : Engine := { templates := { templates := .ofList [("wolf", wolf)] } }
    let scenario : Scenario :=
      { agents := [{ template := "wolf", position := ⟨0, 0, 0⟩ },
          { template := "wolf", position := ⟨1, 0, 0⟩ }]
        hits := [⟨⟨1⟩, ⟨2⟩, ⟨1⟩, 3.0⟩] }
    let s := ofScenario engine scenario
    let earlier : List (AgentId × Intent) := [(⟨1⟩, .lookAt ⟨1, 0, 0⟩)]
    engine.Honest ∧ Reachable engine scenario s ∧
      (∃ r ∈ s.runs, r.env.agent = ⟨1⟩ ∧ (r.env.agent, .attack ⟨2⟩) ∈ r.issued) ∧
      s.whenSettling.world.intents = earlier ++ [(⟨1⟩, .attack ⟨2⟩)] ∧
      (s.settledBy earlier).Lands ⟨1⟩ ⟨2⟩ := by
  intro wolf engine scenario s earlier
  have honest : engine.Honest := by
    rintro kind _ ⟨⟩
    exact Sensor.honest_ofKind _ kind
  have reachable : Reachable engine scenario s := .start
  have hstrikes : s.runs.any fun r =>
      r.env.agent == ⟨1⟩ && r.issued.contains (⟨1⟩, .attack ⟨2⟩) := by decide +kernel
  obtain ⟨r, hr, hissued⟩ := List.any_eq_true.mp hstrikes
  rw [Bool.and_eq_true, beq_iff_eq, List.contains_iff_mem] at hissued
  obtain ⟨hagent, hissued⟩ := hissued
  rw [← hagent] at hissued
  have hintents : s.whenSettling.world.intents = earlier ++ [(⟨1⟩, .attack ⟨2⟩)] := by decide +kernel
  obtain ⟨_, hcarried⟩ := Reachable.reach_of_issued honest reachable hr hissued
  obtain ⟨_, range, _, _, near, far, _, hnear, hfar, _, hlands, _⟩ :=
    (hcarried earlier [] (by rw [hagent]; exact hintents)).1 ⟨2⟩ rfl
  refine ⟨honest, reachable, ⟨r, hr, hagent, hissued⟩, hintents, ?_⟩
  rw [hagent] at hnear hlands
  have hnear' : s.whenSettling.world.position? ⟨1⟩ = some ⟨0, 0, 0⟩ := by decide +kernel
  have hfar' : s.whenSettling.world.position? ⟨2⟩ = some ⟨1, 0, 0⟩ := by decide +kernel
  cases hnear.symm.trans hnear'
  cases hfar.symm.trans hfar'
  exact (hlands (by decide +kernel)).mpr (by decide +kernel)

/-- A wolf with the range that tasks have where none is given strikes at another one that is alive and out
of reach. The attack does nothing. -/
theorem attack_dropped_wolf :
    let wolf : Template :=
      { name := "wolf", species := "wolf", enabled := true, maxHealth := 20.0
        defaultActivity := .idle, overrides := .empty, declarations := [], herd := {}
        activities := [⟨.core, [⟨0, .leaf (.retaliate (.bool true))⟩,
            ⟨1, .leaf (.meleeAttack (.number 2.0) (.number 20.0) (.number 0.5))⟩]⟩,
          ⟨.idle, [⟨0, .leaf .doNothing⟩]⟩] }
    let engine : Engine := { templates := { templates := .ofList [("wolf", wolf)] } }
    let scenario : Scenario :=
      { agents := [{ template := "wolf", position := ⟨0, 0, 0⟩ },
          { template := "wolf", position := ⟨1.75, 0, 0⟩ }]
        hits := [⟨⟨1⟩, ⟨2⟩, ⟨1⟩, 3.0⟩] }
    let s := ofScenario engine scenario
    let earlier : List (AgentId × Intent) := [(⟨1⟩, .lookAt ⟨1.75, 0, 0⟩)]
    Reachable engine scenario s ∧
      (∃ r ∈ s.runs, r.env.agent = ⟨1⟩ ∧ r.leaf = .meleeAttack 2.0 20 0.5 ∧
        (⟨1⟩, .attack ⟨2⟩) ∈ r.issued) ∧
      s.whenSettling.world.intents = earlier ++ [(⟨1⟩, .attack ⟨2⟩)] ∧
      (s.settledBy earlier).isAlive ⟨2⟩ ∧ ¬ (s.settledBy earlier).Lands ⟨1⟩ ⟨2⟩ ∧
      (s.step.world.view? ⟨2⟩).map AgentView.health = some 20.0 := by
  intro wolf engine scenario s earlier
  have hstrikes : s.runs.any fun r => r.env.agent == ⟨1⟩ &&
      (r.leaf == .meleeAttack 2.0 20 0.5 && r.issued.contains (⟨1⟩, .attack ⟨2⟩)) := by decide +kernel
  obtain ⟨r, hr, hissued⟩ := List.any_eq_true.mp hstrikes
  rw [Bool.and_eq_true, Bool.and_eq_true, beq_iff_eq, beq_iff_eq, List.contains_iff_mem] at hissued
  have hdropped : ((s.settledBy earlier).carryOut ⟨1⟩ (.attack ⟨2⟩)).tally.attacks ≠
      (s.settledBy earlier).tally.attacks + 1 := by decide +kernel
  exact ⟨.start, ⟨r, hr, hissued⟩, by decide +kernel, by decide +kernel,
    fun hlands => hdropped hlands.counted, by decide +kernel⟩

end Simulation

end Menagerie
