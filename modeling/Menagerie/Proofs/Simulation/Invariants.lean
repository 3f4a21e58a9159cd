import Menagerie.Proofs.Simulation.Changes
import Menagerie.Proofs.Simulation.Consistency
import Menagerie.Proofs.Simulation.Hits

/-!
# What holds of all bodies

A property that the bodies of newcomers have, and that bodies keep whatever becomes of them, holds of all
bodies in every state that a run reaches (`Sustains.attempts`). It may depend on who spawns in the run and
on what damage is dealt in it.
-/

namespace Menagerie

/-- Whether all bodies of a world have a property. -/
def World.Every (p : Body → Prop) (w : World) : Prop := ∀ id b, w.body? id = some b → p b

variable {p : Body → Prop}

theorem World.Every.of_each {w w' : World} (h : w.Every p) (each : w.Each (fun b b' => p b → p b') w') :
    w'.Every p := by
  intro id b' hb'
  obtain ⟨b, hb, hkeeps⟩ := each.exists_of_right hb'
  exact hkeeps (h id b hb)

namespace Simulation

variable {engine : Engine} {scenario : Scenario} {requests : List Request} {s : Simulation}

/-- Who spawns in a run: the agents of its scenario, and who is asked to. -/
inductive Spawns (scenario : Scenario) (requests : List Request) (newcomer : Spawn) : Prop
  | agent (h : newcomer ∈ scenario.agents)
  | request (h : .spawn newcomer ∈ requests)

/-- The damage that is dealt in a run: by the hits of its scenario, by those that are asked for, and by
attacks. -/
inductive Deals (scenario : Scenario) (requests : List Request) : Float → Prop
  | scripted {hit : ScriptedHit} : hit ∈ scenario.hits → Deals scenario requests hit.damage
  | request {attacker victim : AgentId} {damage : Float} :
    .hit attacker victim damage ∈ requests → Deals scenario requests damage
  | attack : Deals scenario requests World.attackDamage

/-- Whether the body of a newcomer has a property, whatever template it is made from. -/
def Bestows (engine : Engine) (p : Body → Prop) (newcomer : Spawn) : Prop :=
  ∀ t id brain now, engine.template newcomer.template = .ok t →
    p (bodyOf t (Engine.newborn t newcomer id) brain now)

theorem every_spawn (hengine : s.engine = engine) {newcomer : Spawn} (h : Bestows engine p newcomer)
    (hs : s.world.Every p) : (s.spawn newcomer).2.world.Every p := by
  subst hengine
  obtain ⟨_, random, heq, _⟩ | ⟨id, t, brain, random, ht, _, _, heq⟩ := s.spawn_outcomes newcomer
  · rw [heq]
    exact hs
  · rw [heq]
    intro other b hb
    have hbody := World.body?_insertBody s.world
      (bodyOf t (Engine.newborn t newcomer id) brain s.world.now) other
    rw [show World.body? _ other = some b from hb] at hbody
    split at hbody
    · cases hbody
      exact h t id brain _ ht
    · exact hs other b hbody.symm

theorem every_ofScenario (h : ∀ newcomer ∈ scenario.agents, Bestows engine p newcomer) :
    (ofScenario engine scenario).world.Every p := by
  have hstart := ofScenario_of_agents engine scenario
    (p := fun s => s.engine = engine ∧ s.world.Every p) (fun _ _ => ⟨rfl, fun _ _ hb => nomatch hb⟩)
    (fun s newcomer hmem hs =>
      ⟨(engine_spawn s newcomer).trans hs.1, every_spawn hs.1 (h newcomer hmem) hs.2⟩)
    fun _ _ hs => hs
  exact hstart.2

/-- Whether the bodies of newcomers have a property, and bodies keep it as they change. -/
structure Sustains (engine : Engine) (spawns : Spawn → Prop) (deals : Float → Prop) (p : Body → Prop) :
    Prop where
  newborn : ∀ newcomer, spawns newcomer → Bestows engine p newcomer
  covers : Body.Covers deals fun b b' => p b → p b'

/-- What is asked of a simulation leaves a property to all bodies that newcomers have and bodies keep. -/
theorem Reachable.every_attempt (hs : Reachable engine scenario s)
    (h : Sustains engine (Spawns scenario requests) (Deals scenario requests) p) {request : Request}
    (hrequest : request ∈ requests) (hevery : s.world.Every p) : (s.attempt request).2.world.Every p := by
  cases request with
  | spawn newcomer => exact every_spawn hs.paired.engine (h.newborn newcomer (.request hrequest)) hevery
  | despawn id =>
    have hdone : ∀ s', s.despawn id = .ok s' → s'.world.Every p := by
      intro s' hs'
      rw [eq_of_despawn hs']
      exact fun id b hb => hevery id b (World.body?_of_removeBody hb)
    exact attempt_of_outcome (p := fun s' => s'.world.Every p) hevery hdone
  | hit attacker victim damage =>
    have hdone : ∀ s', s.hit attacker victim damage = .ok s' → s'.world.Every p :=
      fun _ hs' => hevery.of_each (each_hit h.covers (.request hrequest) hs')
    exact attempt_of_outcome (p := fun s' => s'.world.Every p) hevery hdone
  | step =>
    have hhits : ∀ hit ∈ s.hits, Deals scenario requests hit.damage :=
      fun _ hwaits => .scripted (hs.onTime.subset hwaits)
    exact hevery.of_each (hs.orderly.each_step h.covers .attack hhits)

/-- A property that newcomers have and bodies keep holds of all bodies, whatever is asked. -/
theorem Sustains.attempts
    (h : Sustains engine (Spawns scenario requests) (Deals scenario requests) p) :
    ((ofScenario engine scenario).attempts requests).world.Every p := by
  have hstart : (ofScenario engine scenario).world.Every p :=
    every_ofScenario fun newcomer hmem => h.newborn newcomer (.agent hmem)
  have hrun := List.foldlRecOn (motive := fun s => Reachable engine scenario s ∧ s.world.Every p) requests
    (fun s request => (s.attempt request).2) ⟨.start, hstart⟩
    fun s hs request hrequest =>
      ⟨hs.1.attempt request, hs.1.every_attempt h hrequest hs.2⟩
  exact hrun.2

end Simulation

end Menagerie
