import Menagerie.Proofs.Simulation.Cooldown
import Menagerie.Proofs.Simulation.Mirrors
import Menagerie.Proofs.Task.Pollination

/-!
# Nectar is collected once

An agent that has nectar recorded keeps it as long as it stays in the world, and each run in which it
completes a pollination takes it from having none to having some. So what it has recorded, counted as
none or one, grows with each such run (`Reachable.add_countP_runsThrough_le`), and there is one at most.
-/

namespace Menagerie

namespace World

variable {w w' : World} {id : AgentId}

/-- Whether an agent has it recorded for good that it has nectar. -/
def HasNectar (w : World) (id : AgentId) : Prop :=
  w.state? id .hasNectar = some (.present .flag none)

instance (w : World) (id : AgentId) : Decidable (w.HasNectar id) := inferInstanceAs (Decidable (_ = _))

theorem hasNectar_iff_exists :
    w.HasNectar id ↔ ∃ b, w.body? id = some b ∧ Trait.nectar.Recorded b.memory true :=
  ⟨exists_of_state?, fun ⟨_, hb, hrecorded⟩ => (state?_of_body? hb).trans (congrArg some hrecorded)⟩

/-- One if an agent has nectar recorded, and none if it has not. -/
def nectar (w : World) (id : AgentId) : Nat := if w.HasNectar id then 1 else 0

theorem nectar_le_one (w : World) (id : AgentId) : w.nectar id ≤ 1 := by
  unfold nectar
  split <;> omega

theorem nectar_le (h : w.HasNectar id → w'.HasNectar id) : w.nectar id ≤ w'.nectar id := by
  unfold nectar
  by_cases hw : w.HasNectar id
  · rw [if_pos hw, if_pos (h hw)]
  · rw [if_neg hw]
    exact Nat.zero_le _

theorem HasNectar.of_each (h : w.HasNectar id) (hbodies : w.Each (Body.Retains .nectar) w') :
    w'.HasNectar id := by
  obtain ⟨b, hb, hrecorded⟩ := hasNectar_iff_exists.mp h
  obtain ⟨b', hb', hretains⟩ := hbodies.exists_of_left hb
  exact hasNectar_iff_exists.mpr ⟨b', hb', hretains hrecorded⟩

/-- Time does not take nectar away. -/
theorem HasNectar.of_lapses (h : w.HasNectar id) (hlapses : w.Lapses (· = Trait.nectar.key) w') :
    w'.HasNectar id :=
  h.of_each (hlapses.bodies.imp fun hlapsed hrecorded => hrecorded.of_lapsed (hlapsed.state _ rfl))

end World

/-- A run takes no nectar away, and one in which a pollination is completed adds some. -/
theorem LeafRun.Able.nectar_le {r : LeafRun} (able : r.Able) (id : AgentId) :
    r.stage.world.nectar id + (if decide (r.Pollinates id) then 1 else 0) ≤ r.after.world.nectar id := by
  by_cases h : r.Pollinates id
  · have hbefore : ¬ r.stage.world.HasNectar id := by
      intro hnectar
      obtain ⟨b, hb, hrecorded⟩ := World.hasNectar_iff_exists.mp hnectar
      have hvalue := (h.recorded_before hb).hasValue
      rw [hrecorded.hasValue] at hvalue
      cases hvalue
    have hafter : r.after.world.HasNectar id :=
      World.hasNectar_iff_exists.mpr (h.recorded_after able)
    unfold World.nectar
    rw [if_neg hbefore, if_pos hafter, if_pos (decide_eq_true h)]
  · rw [if_neg (by simpa using h)]
    exact World.nectar_le fun hbefore => hbefore.of_each able.does.each_retains

namespace Simulation

variable {engine : Engine} {scenario : Scenario} {s s' : Simulation} {id : AgentId}

/-- The leaves that a request runs. -/
def runsOf (s : Simulation) : Request → List LeafRun
  | .step => s.runs
  | .spawn _ | .despawn _ | .hit .. => []

/-- The leaves that requests run, one request after the other. -/
def runsThrough (s : Simulation) : List Request → List LeafRun
  | [] => []
  | request :: rest => s.runsOf request ++ (s.attempt request).2.runsThrough rest

/-- Whether a request leaves an agent in its place: it neither takes it out nor puts another there. -/
def Request.Leaves (id : AgentId) (s : Simulation) : Request → Prop
  | .despawn other => other ≠ id
  | .spawn newcomer => s.world.contains id → ¬ (s.spawn newcomer).1.toOption = some id
  | .hit .. | .step => True

/-- Whether requests leave an agent in its place. -/
def Leaves (id : AgentId) (s : Simulation) : List Request → Prop
  | [] => True
  | request :: rest => request.Leaves id s ∧ (s.attempt request).2.Leaves id rest

theorem nectar_le_hit {attacker victim : AgentId} {damage : Float}
    (hs' : s.hit attacker victim damage = .ok s') : s.world.nectar id ≤ s'.world.nectar id := by
  rw [eq_of_hit hs']
  exact World.nectar_le fun h => h.of_lapses (lapses_damage Trait.nectar.leftToLeaves ..)

theorem nectar_le_despawn {other : AgentId} (hs' : s.despawn other = .ok s') (hne : other ≠ id) :
    s.world.nectar id ≤ s'.world.nectar id := by
  rw [eq_of_despawn hs']
  refine World.nectar_le fun h => ?_
  obtain ⟨b, hb, hrecorded⟩ := World.hasNectar_iff_exists.mp h
  refine World.hasNectar_iff_exists.mpr ⟨b, ?_, hrecorded⟩
  rw [World.body?_removeBody, if_neg hne.symm]
  exact hb

theorem nectar_le_spawn {newcomer : Spawn} (leaves : (Request.spawn newcomer).Leaves id s) :
    s.world.nectar id ≤ (s.spawn newcomer).2.world.nectar id := by
  refine World.nectar_le fun h => ?_
  obtain ⟨_, random, heq, _⟩ | ⟨other, t, brain, random, _, _, heq⟩ := s.spawn_cases newcomer
  · rw [heq]
    exact h
  · obtain ⟨b, hb, hrecorded⟩ := World.hasNectar_iff_exists.mp h
    have hother : id ≠ other := by
      rintro rfl
      exact leaves (World.contains_of_body? hb) (by rw [heq]; rfl)
    rw [heq]
    refine World.hasNectar_iff_exists.mpr ⟨b, ?_, hrecorded⟩
    show (s.world.insertBody _).body? id = some b
    rw [World.body?_insertBody]
    exact (if_neg hother).trans hb

/-- In a tick an agent completes as many pollinations at most as it comes to have nectar. -/
theorem Reachable.add_countP_runs_le (honest : engine.Honest) (h : Reachable engine scenario s)
    (id : AgentId) :
    s.world.nectar id + s.runs.countP (fun r => r.Pollinates id) ≤ s.step.world.nectar id := by
  have hkeys := Trait.nectar.leftToLeaves
  have hsensed : s.world.nectar id ≤ s.whenThinking.world.nectar id :=
    World.nectar_le fun hw => hw.of_lapses (h.lapses_whenThinking honest hkeys)
  have hthought : s.whenThinking.world.nectar id + s.runs.countP (fun r => r.Pollinates id) ≤
      s.whenSettling.world.nectar id :=
    s.leads_think.add_countP_le (fun w => w.nectar id) _
      fun r hr => (h.able_of_mem_runs honest r hr).nectar_le id
  have hsettled : s.whenSettling.world.nectar id ≤ s.whenSettling.world.settle.nectar id :=
    World.nectar_le fun hw => hw.of_lapses (lapses_settle hkeys _)
  have hmoved : s.whenSettling.world.settle.nectar id ≤ s.step.world.nectar id :=
    World.nectar_le fun hw => hw.of_lapses (lapses_move hkeys _)
  omega

theorem Reachable.add_countP_runsOf_le (honest : engine.Honest) (h : Reachable engine scenario s)
    {request : Request} (leaves : request.Leaves id s) :
    s.world.nectar id + (s.runsOf request).countP (fun r => r.Pollinates id) ≤
      (s.attempt request).2.world.nectar id := by
  cases request with
  | spawn newcomer => exact nectar_le_spawn leaves
  | despawn other =>
    exact attempt_of_outcome (p := fun s' => s.world.nectar id ≤ s'.world.nectar id) (Nat.le_refl _)
      fun _ hs' => nectar_le_despawn hs' leaves
  | hit attacker victim damage =>
    exact attempt_of_outcome (p := fun s' => s.world.nectar id ≤ s'.world.nectar id) (Nat.le_refl _)
      fun _ hs' => nectar_le_hit hs'
  | step => exact h.add_countP_runs_le honest id

/-- While an agent stays in its place, it completes as many pollinations at most as it comes to have
nectar. -/
theorem Reachable.add_countP_runsThrough_le (honest : engine.Honest)
    (h : Reachable engine scenario s) {requests : List Request} (leaves : s.Leaves id requests) :
    s.world.nectar id + (s.runsThrough requests).countP (fun r => r.Pollinates id) ≤
      (s.attempts requests).world.nectar id := by
  induction requests generalizing s with
  | nil => exact Nat.le_refl _
  | cons request rest ih =>
    have here := h.add_countP_runsOf_le honest leaves.1
    have later := ih (h.attempt request) leaves.2
    rw [runsThrough, List.countP_append]
    show _ ≤ ((s.attempt request).2.attempts rest).world.nectar id
    omega

/-- Between requests it is recorded for good what is remembered of nectar. -/
theorem Reachable.hasNectar_iff (honest : engine.Honest) (h : Reachable engine scenario s) :
    s.world.HasNectar id ↔ (s.world.remembered? id .hasNectar).isSome := by
  rw [World.hasNectar_iff_exists]
  unfold World.remembered? World.memory?
  cases hb : s.world.body? id with
  | none =>
    refine ⟨?_, nofun⟩
    rintro ⟨_, ⟨⟩, _⟩
  | some b =>
    have hrecorded := h.mirrors honest .nectar id b hb
    have hshown := hrecorded.hasValue
    change _ ↔ (b.memory.get? .hasNectar).isSome
    rw [Blackboard.isSome_get?]
    refine ⟨?_, fun hvalue => ⟨b, rfl, ?_⟩⟩
    · rintro ⟨_, ⟨⟩, htrue⟩
      exact htrue.hasValue
    · rw [← hshown] at hrecorded
      exact hvalue ▸ hrecorded

/-- Between requests what an agent remembers and what its body shows agree: it sleeps just when it
remembers that it does, and bears nectar just when it remembers that it has some. While the agent stays
in its place, through ticks and hits among others, it does not forget the nectar, so that it completes
one pollination at most. -/
theorem Reachable.memory_mirrors_body (honest : engine.Honest) (h : Reachable engine scenario s) :
    (∀ id b, s.world.body? id = some b →
      (b.pose = .sleeping ↔ b.memory.hasValue .sleeping) ∧
      (b.aspects.contains "has_nectar" ↔ b.memory.hasValue .hasNectar)) ∧
    ∀ id requests, s.Leaves id requests →
      ((s.world.remembered? id .hasNectar).isSome →
        ((s.attempts requests).world.remembered? id .hasNectar).isSome ∧
        (s.runsThrough requests).countP (fun r => r.Pollinates id) = 0) ∧
      (s.runsThrough requests).countP (fun r => r.Pollinates id) ≤ 1 := by
  constructor
  · intro id b hb
    have hpose : (b.pose == Pose.sleeping) = b.memory.hasValue .sleeping :=
      (h.mirrors honest .sleep id b hb).hasValue.symm
    have haspect : b.aspects.contains "has_nectar" = b.memory.hasValue .hasNectar :=
      (h.mirrors honest .nectar id b hb).hasValue.symm
    exact ⟨by rw [← hpose, beq_iff_eq], by rw [haspect]⟩
  · intro id requests leaves
    have hgained := h.add_countP_runsThrough_le honest leaves
    have hone := World.nectar_le_one (s.attempts requests).world id
    refine ⟨fun hnectar => ?_, by omega⟩
    have hbefore : s.world.nectar id = 1 := if_pos ((h.hasNectar_iff honest).mpr hnectar)
    have hafter : (s.attempts requests).world.HasNectar id := by
      by_contra hnone
      have hzero : (s.attempts requests).world.nectar id = 0 := if_neg hnone
      omega
    exact ⟨((h.attempts requests).hasNectar_iff honest).mp hafter, by omega⟩

/-- In one tick at night a bee completes a pollination and falls asleep, and a hit wakes it up. -/
theorem Reachable.memory_mirrors_body_bee :
    let pollinating : LeafSpec := .pollinateFlower (.number 1.0) (.number 1.0)
    let bee : Template :=
      { name := "bee", species := "bee", enabled := true, maxHealth := 20.0
        defaultActivity := .core, overrides := .empty, declarations := [], herd := {}
        activities := [⟨.core, [⟨0, .leaf pollinating⟩, ⟨1, .leaf (.goToSleep .core)⟩,
          ⟨2, .leaf (.wakeUp .core)⟩]⟩] }
    let engine : Engine :=
      { settings := { dayLength := 2, sensors := { flowerInterval := 1, drowsyInterval := 1 } }
        templates := { templates := .ofList [("bee", bee)] } }
    let scenario : Scenario :=
      { agents := [{ template := "bee", position := ⟨0, 0, 0⟩ }]
        features := [⟨.flower, ⟨0, 0, 0⟩⟩] }
    let start := ofScenario engine scenario
    let s := start.step
    let requests := [.hit ⟨9⟩ ⟨1⟩ 3.0, .step]
    (s.world.body? ⟨1⟩).any (fun b => b.pose == .sleeping && b.aspects.contains "has_nectar") ∧
      (start.runsThrough [.step]).countP (fun r => r.Pollinates ⟨1⟩) = 1 ∧ s.Leaves ⟨1⟩ requests ∧
      (∀ id b, s.world.body? id = some b →
        (b.pose = .sleeping ↔ b.memory.hasValue .sleeping) ∧
        (b.aspects.contains "has_nectar" ↔ b.memory.hasValue .hasNectar)) ∧
      ((s.attempts requests).world.remembered? ⟨1⟩ .hasNectar).isSome ∧
      (s.runsThrough requests).countP (fun r => r.Pollinates ⟨1⟩) = 0 ∧
      ((s.attempts requests).world.body? ⟨1⟩).map Body.pose = some .standing := by
  intro pollinating bee engine scenario start s requests
  have honest : engine.Honest := by
    rintro kind _ ⟨⟩
    exact Sensor.honest_ofKind _ kind
  have reachable : Reachable engine scenario s := Reachable.start.step
  have leaves : s.Leaves ⟨1⟩ requests := ⟨trivial, trivial, trivial⟩
  have hnectar : (s.world.remembered? ⟨1⟩ .hasNectar).isSome := by decide +kernel
  obtain ⟨hshown, hkept⟩ := Reachable.memory_mirrors_body honest reachable
  obtain ⟨hstays, hnone⟩ := (hkept ⟨1⟩ requests leaves).1 hnectar
  exact ⟨by decide +kernel, by decide +kernel, leaves, hshown, hstays, hnone, by decide +kernel⟩

end Simulation

end Menagerie
