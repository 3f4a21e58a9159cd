import Menagerie.Proofs.Simulation.Coherence

/-!
# Leaders go in no circle

Whoever is taken as a leader follows nobody at that moment, so a chain of leaders never comes back to
where it started, whatever levels the agents have and whose numbers are used again.
-/

namespace Menagerie.Simulation

variable {engine : Engine} {scenario : Scenario} {s : Simulation}

/-- A leader that an agent remembers is one that it keeps. -/
theorem follows_of_leader? {id leader : AgentId} (h : s.leader? id = some leader) :
    s.world.Follows id leader := by
  obtain ⟨value, hvalue, hagent⟩ := Option.bind_eq_some_iff.mp h
  obtain ⟨memory, hmemory, hget⟩ := Option.bind_eq_some_iff.mp hvalue
  obtain ⟨b, hb, rfl⟩ := Option.map_eq_some_iff.mp hmemory
  obtain ⟨expiresAt, hslot⟩ := Blackboard.exists_get?_of_get? hget
  refine ⟨b, hb, expiresAt, ?_⟩
  cases value <;> cases hagent
  exact hslot

/-- In every state that a run reaches no agent is its own leader, and no chain of leaders returns to
its start. -/
theorem Reachable.leaders_acyclic (honest : engine.Honest) (h : Reachable engine scenario s)
    (id : AgentId) : ¬ Relation.TransGen (fun follower leader => s.leader? follower = some leader) id id :=
  fun hid => (h.sound honest).coherent.acyclic id
    (Relation.TransGen.mono (fun _ _ => follows_of_leader?) id id hid)

/-- Two wolves that would follow each other: the one that chooses first follows, and is followed by
nobody. -/
theorem Reachable.leaders_acyclic_wolves :
    let wolf : Template :=
      { name := "wolf", species := "wolf", enabled := true, maxHealth := 20.0
        defaultActivity := .core, overrides := .empty, declarations := []
        herd := { toleratedLeaders := [⟨"wolf", true⟩] }
        activities := [⟨.core, [⟨0, .leaf (.findHerdLeader (.number 1.0))⟩]⟩] }
    let engine : Engine := { templates := { templates := .ofList [("wolf", wolf)] } }
    let scenario : Scenario :=
      { agents := [{ template := "wolf", position := ⟨0, 0, 0⟩ },
          { template := "wolf", position := ⟨1, 0, 0⟩ }] }
    let s := (ofScenario engine scenario).step
    engine.Honest ∧ Reachable engine scenario s ∧ s.leader? ⟨1⟩ = some ⟨2⟩ ∧
      ∀ id, ¬ Relation.TransGen (fun follower leader => s.leader? follower = some leader) id id := by
  intro wolf engine scenario s
  have honest : engine.Honest := by
    rintro kind _ ⟨⟩
    exact Sensor.honest_ofKind _ kind
  have reachable : Reachable engine scenario s := .step .start
  exact ⟨honest, reachable, by decide +kernel, reachable.leaders_acyclic honest⟩

end Menagerie.Simulation
