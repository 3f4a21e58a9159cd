import Menagerie.Proofs.Task.Chance
import Menagerie.Simulation.Basic

/-!
# Agents come and go

What spawns, removals and hits make of a simulation: a spawn is refused, or puts in a body and the
brain that was compiled for it (`spawn_cases`). What spawns keep is so at the start of a scenario, as
all its agents are spawned (`ofScenario_of_spawn`).
-/

namespace Menagerie.Simulation

variable {s s' : Simulation}

/-- A spawn is refused, and some draws were made, or it puts in a body and the brain that was compiled
for it from the template that it names. -/
theorem spawn_outcomes (s : Simulation) (spawn : Spawn) :
    (∃ cause random, s.spawn spawn = (.error cause, { s with random }) ∧
      s.random.Precedes random) ∨
    ∃ id t brain random, s.engine.template spawn.template = .ok t ∧ s.idFor spawn = .ok id ∧
      s.engine.instantiate t spawn (Engine.newborn t spawn id) s.world.clock s.random =
        (.ok brain, random) ∧
      s.spawn spawn = (.ok id, { s with
        world := s.world.insertBody (bodyOf t (Engine.newborn t spawn id) brain s.world.now)
        random
        brains := s.brains.insert id brain }) := by
  unfold Simulation.spawn
  cases hid : s.idFor spawn with
  | error cause => exact .inl ⟨cause, s.random, rfl, .refl _⟩
  | ok id =>
    cases ht : s.engine.template spawn.template with
    | error cause => exact .inl ⟨cause, s.random, rfl, .refl _⟩
    | ok t =>
      have hdrawn := s.engine.precedes_instantiate t spawn (Engine.newborn t spawn id) s.world.clock
        s.random
      dsimp only
      split
      · next cause random hfailed =>
        rw [hfailed] at hdrawn
        exact .inl ⟨_, random, rfl, hdrawn⟩
      · next brain random hbrain => exact .inr ⟨id, t, brain, random, rfl, rfl, hbrain, rfl⟩

/-- A spawn is refused, and some draws were made, or it puts in a body and the brain that was compiled
for it. -/
theorem spawn_cases (s : Simulation) (spawn : Spawn) :
    (∃ cause random, s.spawn spawn = (.error cause, { s with random }) ∧
      s.random.Precedes random) ∨
    ∃ id t brain random, s.idFor spawn = .ok id ∧
      s.engine.instantiate t spawn (Engine.newborn t spawn id) s.world.clock s.random =
        (.ok brain, random) ∧
      s.spawn spawn = (.ok id, { s with
        world := s.world.insertBody (bodyOf t (Engine.newborn t spawn id) brain s.world.now)
        random
        brains := s.brains.insert id brain }) := by
  obtain hrefused | ⟨id, t, brain, random, _, hspawned⟩ := s.spawn_outcomes spawn
  · exact .inl hrefused
  · exact .inr ⟨id, t, brain, random, hspawned⟩

theorem engine_spawn (s : Simulation) (spawn : Spawn) : (s.spawn spawn).2.engine = s.engine := by
  obtain ⟨_, random, heq, _⟩ | ⟨id, t, brain, random, _, _, heq⟩ := s.spawn_cases spawn
  · rw [heq]
  · rw [heq]

theorem eq_of_despawn {id : AgentId} (h : s.despawn id = .ok s') :
    s' = { s with world := s.world.removeBody id, brains := s.brains.erase id } := by
  unfold Simulation.despawn at h
  split at h
  · cases h
    rfl
  · cases h

theorem eq_of_hit {attacker victim : AgentId} {damage : Float}
    (h : s.hit attacker victim damage = .ok s') :
    s' = { s with world := s.world.damage attacker victim damage } := by
  unfold Simulation.hit at h
  split at h
  · cases h
    rfl
  · cases h

/-- A refusal is noted, and that is all that is done about it. -/
theorem spawnOrNote_eq (s : Simulation) (spawn : Spawn) :
    ∃ failedSpawns, s.spawnOrNote spawn = { (s.spawn spawn).2 with failedSpawns } := by
  unfold spawnOrNote
  split
  · next heq =>
    rw [heq]
    exact ⟨_, rfl⟩
  · next heq =>
    rw [heq]
    exact ⟨_, rfl⟩

/-- What holds before agents spawn, and stays so as each of them spawns, holds when they have. It must not
be about the refusals that are noted. -/
theorem foldl_spawnOrNote {p : Simulation → Prop} {spawns : List Spawn}
    (hspawn : ∀ s, ∀ spawn ∈ spawns, p s → p (s.spawn spawn).2)
    (hnote : ∀ s failedSpawns, p s → p { s with failedSpawns }) (hs : p s) :
    p (spawns.foldl spawnOrNote s) := by
  refine List.foldlRecOn spawns spawnOrNote hs fun s hs spawn hmem => ?_
  obtain ⟨failedSpawns, heq⟩ := s.spawnOrNote_eq spawn
  rw [heq]
  exact hnote _ _ (hspawn s spawn hmem hs)

/-- What holds before any agents spawn, and stays so as the agents of a scenario spawn, holds at its start. -/
theorem ofScenario_of_agents (engine : Engine) (scenario : Scenario) {p : Simulation → Prop}
    (hempty : ∀ random hits,
      p { engine, world := emptyWorld engine.settings scenario, random, hits })
    (hspawn : ∀ s, ∀ spawn ∈ scenario.agents, p s → p (s.spawn spawn).2)
    (hnote : ∀ s failedSpawns, p s → p { s with failedSpawns }) : p (ofScenario engine scenario) :=
  foldl_spawnOrNote hspawn hnote (hempty _ _)

/-- What holds before any agents spawn, and stays so as agents spawn, holds at the start of a scenario. -/
theorem ofScenario_of_spawn (engine : Engine) (scenario : Scenario) {p : Simulation → Prop}
    (hempty : ∀ random hits,
      p { engine, world := emptyWorld engine.settings scenario, random, hits })
    (hspawn : ∀ s spawn, p s → p (s.spawn spawn).2)
    (hnote : ∀ s failedSpawns, p s → p { s with failedSpawns }) : p (ofScenario engine scenario) :=
  ofScenario_of_agents engine scenario hempty (fun s spawn _ => hspawn s spawn) hnote

end Menagerie.Simulation
