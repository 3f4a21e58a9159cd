import Menagerie.Proofs.Simulation.Course

/-!
# Death is final

An agent that is dead stays dead, and nothing about it changes any more but that its memories run out
(`Body.Rests`): hits spare it, it neither senses nor thinks nor acts nor moves, and what others do
about it cannot be told. A death is counted once, when an agent dies (`World.Toll`).
-/

namespace Menagerie

variable {may : Tick → MemoryKey → MemorySlot → Prop} {acts : AgentId → Prop} {me id : AgentId}

namespace Body

variable {b b' b'' : Body}

/-- Whether a body is the same but for what time has made of its memory. -/
structure Rests (b b' : Body) : Prop where
  rest : b' = { b with memory := b'.memory }
  memory : b.memory.Lapses (fun _ => True) b'.memory

theorem Rests.refl (b : Body) : Rests b b := ⟨rfl, .refl b.memory⟩

theorem Rests.trans (h : Rests b b') (h' : Rests b' b'') : Rests b b'' :=
  ⟨h'.rest.trans (by rw [h.rest]), h.memory.trans h'.memory⟩

theorem Rests.view (h : Rests b b') : b'.view = b.view := by
  rw [h.rest]

end Body

namespace World

variable {w w' w'' : World}

/-! ## The rest of the dead -/

/-- Whether an agent rests from one world to another, if it is dead. -/
def Rests (id : AgentId) (w w' : World) : Prop :=
  ∀ b, w.body? id = some b → b.view.isAlive = false → ∃ b', w'.body? id = some b' ∧ b.Rests b'

theorem Rests.refl (w : World) : Rests id w w := fun b hb _ => ⟨b, hb, .refl b⟩

theorem Rests.trans (h : Rests id w w') (h' : Rests id w' w'') : Rests id w w'' := by
  intro b hb hdead
  obtain ⟨b', hb', hrests⟩ := h b hb hdead
  obtain ⟨b'', hb'', hrests'⟩ := h' b' hb' (hrests.view ▸ hdead)
  exact ⟨b'', hb'', hrests.trans hrests'⟩

theorem rests_advance (h : w.Orderly) : Rests id w w.advance := by
  intro b hb _
  have hearlier : b.memory.now ≤ w.now.next := by
    rw [h.clocks id b hb]
    exact Tick.le_after w.now 1
  refine ⟨{ b with memory := (b.memory.advance w.now.next).2 }, ?_, rfl,
    Blackboard.lapses_advance hearlier⟩
  rw [body?_advance, hb]
  rfl

/-- In a course of happenings in which the dead do not act, they rest. -/
theorem Unfolds.rests (h : w.Unfolds acts may w') (hacts : acts id → w.isAlive id) :
    Rests id w w' := by
  intro b hb hdead
  refine ⟨b, h.body?_of_dead ?_ hb (by simp [hdead]), .refl b⟩
  intro hacting
  have halive := hacts hacting
  rw [isAlive_of_body? hb, hdead] at halive
  cases halive

/-- While others act the dead rest. -/
theorem Touched.rests (h : w.Touched may me w') (hme : w.isAlive me) : Rests id w w' := by
  intro b hb hdead
  have hid : id ≠ me := by
    rintro rfl
    rw [isAlive_of_body? hb, hdead] at hme
    cases hme
  have hother := h.others id hid
  rw [hb] at hother
  obtain ⟨b', hb', halike⟩ := optionRel_some_left.mp hother
  exact ⟨b', hb', halike.rest, halike.memory.lapses⟩

/-! ## The toll of acting -/

/-- Nobody dies where agents act, before their intents are carried out. -/
theorem Touched.toll (h : w.Touched may me w') : w.Toll w' := by
  refine toll_of_isAlive (SortedMap.keys_congr fun id => ?_) h.isAlive
    (congrArg Tally.deaths h.tally)
  have hview := congrArg Option.isSome (h.view? id)
  unfold World.view? at hview
  rw [Option.isSome_map, Option.isSome_map] at hview
  exact hview

/-- Nobody comes back from the dead. -/
theorem Toll.dead (h : w.Toll w') (hdead : w.isAlive id = false) : w'.isAlive id = false := by
  by_contra halive
  rw [h.alive id (by simpa using halive)] at hdead
  cases hdead

end World

namespace Simulation

variable {engine : Engine} {scenario : Scenario} {s s' s'' : Simulation}

/-! ## A tick -/

/-- In a tick the dead rest. -/
theorem Orderly.rests_step (h : s.Orderly) : s.world.Rests id s.step.world :=
  h.rel_step (World.Rests id) .refl .trans (World.rests_advance h.world)
    (fun _ b hb _ => ⟨b, hb, .refl b⟩) (fun hunfolds hacts => hunfolds.rests (hacts id))
    fun r _ horderly halive => (r.touched horderly.indexed).rests halive

theorem Orderly.toll_step (h : s.Orderly) : s.world.Toll s.step.world :=
  h.rel_step World.Toll .refl .trans (World.toll_advance s.world)
    (fun _ => World.toll_of_isAlive rfl (fun _ => rfl) rfl) (fun hunfolds _ => hunfolds.toll)
    fun r _ horderly _ => (r.touched horderly.indexed).toll

/-- The brain of one who is dead does not think. -/
theorem Orderly.brains_step (h : s.Orderly) (hdead : s.world.isAlive id = false) :
    s.step.brains.get? id = s.brains.get? id := by
  have htoll : s.world.Toll s.whenThinking.world :=
    (World.toll_advance s.world).trans <|
      (unfolds_whenSensing World.Halting s).toll.trans s.unfolds_whenThinking.toll
  have hkept := (SortedMap.mapWithState_keeps s.whenThinking.brains
    (thinkFor s.whenThinking.engine.chainLimit)
    (fun stage => stage.world.Indexed ∧ stage.world.isAlive id = false)
    (fun other brain brain' => other = id → brain' = brain) ?_
    (s := ⟨s.whenThinking.world, s.whenThinking.random⟩)
    ⟨h.whenThinking.world.indexed, htoll.dead hdead⟩).2 id
  · generalize hbrain : s.whenThinking.brains.get? id = brain at hkept
    generalize hbrain' : (s.whenThinking.brains.mapWithState _ _).1.get? id = brain' at hkept
    refine (hbrain'.trans ?_).trans hbrain.symm
    cases hkept with
    | none => rfl
    | some hsame => exact congrArg some (hsame rfl)
  · rintro other brain stage - ⟨hindexed, hdead⟩
    unfold thinkFor
    split
    · next halive =>
      have htouched := brain.touched_tick s.whenThinking.engine.chainLimit hindexed
      refine ⟨⟨hindexed.of_touched htouched, (htouched.isAlive id).trans hdead⟩, ?_⟩
      rintro rfl
      rw [hdead] at halive
      cases halive
    · exact ⟨⟨hindexed, hdead⟩, fun _ => rfl⟩

/-! ## Any operations -/

/-- Whether the dead of a simulation rest in another, nobody comes back, and each death is counted. -/
structure Buries (s s' : Simulation) : Prop where
  rests : ∀ id, s.world.Rests id s'.world
  brains : ∀ id, s.world.isAlive id = false → s'.brains.get? id = s.brains.get? id
  toll : s.world.Toll s'.world

theorem Buries.refl (s : Simulation) : Buries s s :=
  ⟨fun _ => .refl s.world, fun _ _ => rfl, .refl s.world⟩

theorem Buries.trans (h : Buries s s') (h' : Buries s' s'') : Buries s s'' := by
  refine ⟨fun id => (h.rests id).trans (h'.rests id), ?_, h.toll.trans h'.toll⟩
  exact fun id hdead => (h'.brains id (h.toll.dead hdead)).trans (h.brains id hdead)

theorem Orderly.buries_perform (h : s.Orderly) (operation : Operation) :
    s.Buries (s.perform operation) := by
  cases operation with
  | hit attacker victim damage =>
    have hdealt : s.world.Unfolds (fun _ => False) World.Halting
        (s.world.damage attacker victim damage) := .single (.damage s.world attacker victim damage)
    rw [perform_hit]
    exact ⟨fun _ => hdealt.rests False.elim, fun _ _ => rfl, hdealt.toll⟩
  | step => exact ⟨fun _ => h.rests_step, fun _ hdead => h.brains_step hdead, h.toll_step⟩

theorem Reachable.buries_after (h : Reachable engine scenario s) (operations : List Operation) :
    s.Buries (s.after operations) := by
  induction operations generalizing s with
  | nil => exact .refl s
  | cons operation rest ih =>
    exact (h.orderly.buries_perform operation).trans (ih (h.perform operation))

theorem deaths_spawn (s : Simulation) (spawn : Spawn) :
    (s.spawn spawn).2.world.tally.deaths = s.world.tally.deaths := by
  obtain ⟨_, random, heq, _⟩ | ⟨id, t, brain, random, _, _, heq⟩ := s.spawn_cases spawn
  · rw [heq]
  · rw [heq]
    rfl

theorem deaths_despawn (h : s.despawn id = .ok s') :
    s'.world.tally.deaths = s.world.tally.deaths := by
  rw [eq_of_despawn h]
  rfl

/-- In every state that a run reaches, an agent that is dead stays dead whatever hits and ticks follow:
its brain and its body are the same ever after, and of its memory values are gone once they have run
out. One death is counted for each agent that dies, and none for anything else. -/
theorem Reachable.death_is_final (h : Reachable engine scenario s) (operations : List Operation) :
    (∀ id b, s.world.body? id = some b → b.view.isAlive = false →
      (s.after operations).brains.get? id = s.brains.get? id ∧
      ∃ b', (s.after operations).world.body? id = some b' ∧ b'.view.isAlive = false ∧
        b' = { b with memory := b'.memory } ∧
        ∀ key, b'.memory.state key = (b.memory.state key).lapsed (s.after operations).world.now) ∧
      (s.after operations).world.bodies.keys = s.world.bodies.keys ∧
      (s.after operations).world.tally.deaths =
        s.world.tally.deaths + (s.world.died (s.after operations).world).length ∧
      (∀ spawn, (s.spawn spawn).2.world.tally.deaths = s.world.tally.deaths) ∧
      ∀ id s', s.despawn id = .ok s' → s'.world.tally.deaths = s.world.tally.deaths := by
  have hburies := h.buries_after operations
  have hlater := (h.after operations).orderly
  refine ⟨?_, hburies.toll.keys, hburies.toll.deaths, s.deaths_spawn, fun id s' => deaths_despawn⟩
  intro id b hb hdead
  obtain ⟨b', hb', hrests⟩ := hburies.rests id b hb hdead
  have hbrain := hburies.brains id ((World.isAlive_of_body? hb).trans hdead)
  refine ⟨hbrain, b', hb', hrests.view ▸ hdead, hrests.rest, fun key => ?_⟩
  rw [hrests.memory.state key trivial, hlater.world.clocks id b' hb']

/-- A wolf that has walked is killed in the second tick, and no longer keeps from walking in the
third. -/
theorem Reachable.death_is_final_wolf :
    let wandering : LeafSpec :=
      .wander (.bool true) (.number 1.0) (.number 1.0) (.number 1.0) (.number 1.0) (.number 2.0)
    let wolf : Template :=
      { name := "wolf", species := "wolf", enabled := true, maxHealth := 20.0
        defaultActivity := .core, overrides := .empty, declarations := [], herd := {}
        activities := [⟨.core, [⟨0, .leaf wandering⟩]⟩] }
    let engine : Engine := { templates := { templates := .ofList [("wolf", wolf)] } }
    let scenario : Scenario :=
      { agents := [{ template := "wolf", position := ⟨0, 0, 0⟩ }]
        hits := [{ tick := ⟨2⟩, attacker := ⟨7⟩, victim := ⟨1⟩, damage := 20.0 }] }
    let s := (ofScenario engine scenario).step.step
    let s' := s.after [.hit ⟨7⟩ ⟨1⟩ 5.0, .step]
    ∃ b b', s.world.body? ⟨1⟩ = some b ∧ s'.world.body? ⟨1⟩ = some b' ∧
      b' = { b with memory := b'.memory } ∧
      b.memory.state .pathCooldown = .present .flag (some ⟨3⟩) ∧
      b'.memory.state .pathCooldown = .registered ∧ s'.world.tally.deaths = 1 := by
  intro wandering wolf engine scenario s s'
  have reachable : Reachable engine scenario s := .step (.step .start)
  have hbody : (s.world.body? ⟨1⟩).map (fun b => (b.view.isAlive, b.memory.state .pathCooldown)) =
      some (false, .present .flag (some ⟨3⟩)) := by decide +kernel
  obtain ⟨b, hb, hfacts⟩ := Option.map_eq_some_iff.mp hbody
  obtain ⟨hdead, hstate⟩ := Prod.mk.inj hfacts
  obtain ⟨hfinal, _, hdeaths, _⟩ := reachable.death_is_final [.hit ⟨7⟩ ⟨1⟩ 5.0, .step]
  obtain ⟨_, b', hb', _, hrest, hlapsed⟩ := hfinal ⟨1⟩ b hb hdead
  refine ⟨b, b', hb, hb', hrest, hstate, ?_, ?_⟩
  · rw [hlapsed, hstate]
    decide +kernel
  · rw [hdeaths]
    decide +kernel

end Simulation

end Menagerie
