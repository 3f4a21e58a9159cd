import Menagerie.Proofs.Simulation.Hurt
import Menagerie.Proofs.Simulation.Strikes
import Menagerie.Proofs.Simulation.Turns
import Menagerie.Proofs.Task.Waking

/-!
# Sleepers that are hit wake up

A hit is felt in the next tick, whichever way it was dealt. As an agent that feels for its wounds remembers the
hit then, a task for waking up that has a bucket of its own has its turn at a sleeper that was hurt, and wakes
it up (`Reachable.wakes_when_struck`).

Agents without the sensor feel no hits. The task does not bring the sensor along, so that one who has it from
no other task sleeps on while it is drowsy (`sleeps_on_wolf`).
-/

namespace Menagerie

variable {id : AgentId}

/-- Whether an agent remembers that it sleeps, and that it was hurt. -/
def World.Roused (w : World) (id : AgentId) : Prop := ∃ b, w.body? id = some b ∧ b.Roused

/-- Who was hurt in its sleep stays so in a run, or wakes up in it. -/
theorem LeafRun.roused_or_wakes {r : LeafRun} (hindexed : r.stage.world.Indexed)
    (h : r.stage.world.Roused id) : (r.env.agent = id ∧ r.Wakes) ∨ r.after.world.Roused id := by
  obtain ⟨b, hb, hroused⟩ := h
  have htouched := r.touched hindexed
  by_cases hid : id = r.env.agent
  · subst hid
    by_cases hwakes : ∃ activity, r.leaf = .wakeUp activity
    · obtain ⟨activity, hleaf⟩ := hwakes
      exact .inl ⟨rfl, r.wakes_of_hurt hleaf hb hroused⟩
    by_cases hsleeps : ∃ activity, r.leaf = .goToSleep activity
    · obtain ⟨activity, hleaf⟩ := hsleeps
      rw [r.after_eq_of_goToSleep hleaf hb hroused.asleep]
      exact .inr ⟨b, hb, hroused⟩
    have hown := htouched.own
    rw [hb] at hown
    obtain ⟨b', hb', hmine⟩ := optionRel_some_left.mp hown
    have hasleep : b'.memory.state .sleeping = b.memory.state .sleeping :=
      hmine.memory.state fun slot =>
        not_mayKeep_sleeping (not_exists.mp hwakes) (not_exists.mp hsleeps) _ slot
    have hhurt : b'.memory.state .hurtBy = b.memory.state .hurtBy :=
      hmine.memory.state fun slot => Simulation.not_mayKeep_of_hurtKeys r.leaf _ _ slot (.inl rfl)
    exact .inr ⟨b', hb', hasleep ▸ hroused.asleep, hhurt ▸ hroused.hurt⟩
  · have hother := htouched.others id hid
    rw [hb] at hother
    obtain ⟨b', hb', halike⟩ := optionRel_some_left.mp hother
    exact .inr ⟨b', hb', halike.memory.state .sleeping ▸ hroused.asleep,
      halike.memory.state .hurtBy ▸ hroused.hurt⟩

/-- Who was hurt in its sleep stays so until it wakes up. -/
theorem Stage.Reaches.roused {stage stage' : Stage} {runs : List LeafRun} (h : stage.Reaches runs stage')
    (hindexed : stage.world.Indexed) (hnone : ¬ ∃ r ∈ runs, r.env.agent = id ∧ r.Wakes)
    (hroused : stage.world.Roused id) : stage'.world.Roused id := by
  refine (Stage.Reaches.rel World.Indexed (fun w w' : World => w.Roused id → w'.Roused id) h
    (fun _ hw => hw) (fun h h' => h' ∘ h) (fun r hr hindexed => ⟨?_, fun hw => ?_⟩) hindexed).2 hroused
  · exact hindexed.of_touched (r.touched hindexed)
  · exact (r.roused_or_wakes hindexed hw).resolve_left fun hwakes => hnone ⟨r, hr, hwakes⟩

namespace Simulation

variable {engine : Engine} {settings : SensorSettings} {scenario : Scenario} {s : Simulation}
  {brain : Brain} {activity target : Activity} {b : Body}

theorem now_whenThinking (s : Simulation) : s.whenThinking.world.now = s.world.now.next := by
  have hclock : s.whenThinking.world.clock = s.world.advance.clock :=
    s.unfolds_whenThinking.steady.clock.trans (unfolds_whenSensing World.Halting s).steady.clock
  exact congrArg Clock.now hclock

/-- A sleeper that was struck remembers being hurt when sensors have sensed, and that it sleeps. -/
theorem Reachable.roused_whenThinking (honest : engine.Honest)
    (hsensor : engine.sensors .hurtBy = some (Sensor.ofKind settings .hurtBy))
    (hlasts : 2 ≤ settings.hurtMemoryTicks) (h : Reachable engine scenario s)
    (hcounted : s.world.now.count.toNat + 2 < UInt64.size) (hbrain : s.brains.get? id = some brain)
    (hfeels : .hurtBy ∈ brain.sensors.keys) (hasleep : (s.world.remembered? id .sleeping).isSome)
    (hstruck : Struck id s) (halive : s.whenThinking.world.isAlive id) :
    s.whenThinking.world.Roused id := by
  obtain ⟨b', hb', attacker, hitAt, hlast, hsince⟩ := h.hitSince_whenThinking hstruck halive
  have hlives : b'.view.isAlive := (World.isAlive_of_body? hb').symm.trans halive
  refine ⟨b', hb', ?_, ?_⟩
  · have hlapses := h.lapses_whenThinking honest Trait.sleep.leftToLeaves
    obtain ⟨b, hb, hlapsed⟩ := hlapses.bodies.exists_of_right hb'
    have hrecorded := h.mirrors honest .sleep id b hb
    have hvalue : b.memory.hasValue .sleeping := by
      rw [World.remembered?_of_body? hb, Blackboard.isSome_get?] at hasleep
      exact hasleep
    rw [hrecorded.hasValue.symm.trans hvalue] at hrecorded
    have hstate : b'.memory.state .sleeping = .present .flag none :=
      hrecorded.of_lapsed (hlapsed.state .sleeping rfl)
    rw [hstate]
    rfl
  · have hnow : s.whenThinking.world.now.count.toNat = s.world.now.count.toNat + 1 := by
      rw [now_whenThinking]
      refine (Tick.toNat_after _ 1).trans (Nat.min_eq_left ?_)
      exact Nat.le_sub_one_of_lt (Nat.lt_of_succ_lt hcounted)
    have hlater : s.world.now.count.toNat ≤ hitAt.count.toNat := UInt64.le_iff_toNat_le.mp hsince
    have hmemory : 2 ≤ settings.hurtMemoryTicks.toNat := UInt64.le_iff_toNat_le.mp hlasts
    obtain ⟨runsOut, _, hbears⟩ :=
      ((h.hurt_exact honest hsensor).2 id brain b' hbrain hfeels hb' hlives).1 attacker hitAt hlast
        (by omega)
    rw [hbears.hit]
    rfl

/-- A sleeper that is struck wakes up in the next tick, drowsy or not, if it feels for its wounds, has a task for
waking up that is alone in its bucket, and lives when it has its turn. The task is run then, and wakes it up,
unless a task like it has done so before in the same tick. -/
theorem Reachable.wakes_when_struck (honest : engine.Honest)
    (hsensor : engine.sensors .hurtBy = some (Sensor.ofKind settings .hurtBy))
    (hlasts : 2 ≤ settings.hurtMemoryTicks) (h : Reachable engine scenario s)
    (hcounted : s.world.now.count.toNat + 2 < UInt64.size) (hbrain : s.brains.get? id = some brain)
    (hfeels : .hurtBy ∈ brain.sensors.keys) (halone : brain.Alone activity (.wakeUp target))
    (hb : s.world.body? id = some b) (hactive : activity ∈ b.schedule.active)
    (hasleep : b.memory.hasValue .sleeping) (hstruck : Struck id s)
    (halive : s.whenThinking.world.isAlive id) :
    ∃ before r after, s.runs = before ++ r :: after ∧ r.env.agent = id ∧ r.leaf = .wakeUp target ∧
      (r.Wakes ∨ ∃ earlier ∈ before, earlier.env.agent = id ∧ earlier.Wakes) := by
  have hremembered : (s.world.remembered? id .sleeping).isSome := by
    rw [World.remembered?_of_body? hb, Blackboard.isSome_get?]
    exact hasleep
  have hroused := h.roused_whenThinking honest hsensor hlasts hcounted hbrain hfeels hremembered hstruck halive
  obtain ⟨r, hr, hagent, hleaf⟩ := h.orderly.exists_run_of_alone hbrain halive halone hb hactive
  obtain ⟨before, after, hruns⟩ := List.append_of_mem hr
  refine ⟨before, r, after, hruns, hagent, hleaf, ?_⟩
  by_cases hwoken : ∃ earlier ∈ before, earlier.env.agent = id ∧ earlier.Wakes
  · exact .inr hwoken
  -- Nothing woke it up before, so that the run finds it as it was when sensors had sensed.
  have hleads := s.leads_think
  rw [hruns] at hleads
  obtain ⟨stage, hbefore, hstage, _⟩ := hleads.exists_between
  have hfound : r.stage.world.Roused id := by
    rw [hstage]
    exact Stage.Reaches.roused hbefore h.orderly.whenThinking.world.indexed hwoken hroused
  obtain ⟨b', hb', hroused'⟩ := hfound
  rw [← hagent] at hb'
  exact .inl (r.wakes_of_hurt hleaf hb' hroused')

/-- A wolf fell asleep in the first tick. In the second it is still drowsy, but a hit that is on the script for
that tick wakes it up. -/
theorem Reachable.wakes_when_struck_wolf :
    let wolf : Template :=
      { name := "wolf", species := "wolf", enabled := true, maxHealth := 20.0
        defaultActivity := .core, overrides := .empty, declarations := [], herd := {}
        activities := [⟨.core, [⟨0, .leaf (.calmDown .core)⟩, ⟨1, .leaf (.goToSleep .core)⟩,
          ⟨2, .leaf (.wakeUp .core)⟩]⟩] }
    let engine : Engine :=
      { settings := { dayLength := 1, sensors := { drowsyInterval := 1 } }
        templates := { templates := .ofList [("wolf", wolf)] } }
    let scenario : Scenario :=
      { agents := [{ template := "wolf", position := ⟨0, 0, 0⟩ }]
        hits := [⟨⟨2⟩, ⟨9⟩, ⟨1⟩, 3.0⟩] }
    let s := (ofScenario engine scenario).step
    engine.Honest ∧ Reachable engine scenario s ∧ Struck ⟨1⟩ s ∧
      ((s.whenThinking.world.remembered? ⟨1⟩ .drowsy).isSome ∧ s.whenThinking.world.isAlive ⟨1⟩) ∧
      (∃ brain b, s.brains.get? ⟨1⟩ = some brain ∧ .hurtBy ∈ brain.sensors.keys ∧
        brain.Alone .core (.wakeUp .core) ∧ s.world.body? ⟨1⟩ = some b ∧ .core ∈ b.schedule.active ∧
        b.memory.hasValue .sleeping) ∧
      ∃ before r after, s.runs = before ++ r :: after ∧ r.env.agent = ⟨1⟩ ∧ r.leaf = .wakeUp .core ∧
        (r.Wakes ∨ ∃ earlier ∈ before, earlier.env.agent = ⟨1⟩ ∧ earlier.Wakes) := by
  intro wolf engine scenario s
  have honest : engine.Honest := by
    rintro kind _ ⟨⟩
    exact Sensor.honest_ofKind _ kind
  have reachable : Reachable engine scenario s := .step .start
  have hstruck : Struck ⟨1⟩ s := by
    have hhit : s.hits = [⟨⟨2⟩, ⟨9⟩, ⟨1⟩, 3.0⟩] := by decide +kernel
    refine .script (hhit ▸ List.mem_cons_self) ?_ rfl
    decide +kernel
  have hlives : (s.whenThinking.world.remembered? ⟨1⟩ .drowsy).isSome ∧
      s.whenThinking.world.isAlive ⟨1⟩ := by decide +kernel
  have hbrain : (s.brains.get? ⟨1⟩).any fun brain =>
      .hurtBy ∈ brain.sensors.keys ∧ brain.Alone .core (.wakeUp .core) := by decide +kernel
  have hbody : (s.world.body? ⟨1⟩).any fun b =>
      .core ∈ b.schedule.active ∧ b.memory.hasValue .sleeping := by decide +kernel
  obtain ⟨brain, hbrain, hfacts⟩ := (Option.any_eq_true _ _).mp hbrain
  obtain ⟨b, hb, hfacts'⟩ := (Option.any_eq_true _ _).mp hbody
  obtain ⟨hfeels, halone⟩ := of_decide_eq_true hfacts
  obtain ⟨hactive, hasleep⟩ := of_decide_eq_true hfacts'
  exact ⟨honest, reachable, hstruck, hlives, ⟨brain, b, hbrain, hfeels, halone, hb, hactive, hasleep⟩,
    Reachable.wakes_when_struck honest rfl (by decide) reachable (by decide +kernel) hbrain hfeels halone hb
      hactive hasleep hstruck hlives.2⟩

/-- A wolf that falls asleep and wakes up, and does nothing else, has no sensor for being hurt. It sleeps on
through a hit while it is drowsy, though the task for waking up has its turn. -/
theorem sleeps_on_wolf :
    let wolf : Template :=
      { name := "wolf", species := "wolf", enabled := true, maxHealth := 20.0
        defaultActivity := .core, overrides := .empty, declarations := [], herd := {}
        activities := [⟨.core, [⟨0, .leaf (.goToSleep .core)⟩, ⟨1, .leaf (.wakeUp .core)⟩]⟩] }
    let engine : Engine :=
      { settings := { dayLength := 1, sensors := { drowsyInterval := 1 } }
        templates := { templates := .ofList [("wolf", wolf)] } }
    let scenario : Scenario :=
      { agents := [{ template := "wolf", position := ⟨0, 0, 0⟩ }]
        hits := [⟨⟨2⟩, ⟨9⟩, ⟨1⟩, 3.0⟩] }
    let s := (ofScenario engine scenario).step
    2 ≤ engine.settings.sensors.hurtMemoryTicks ∧ Reachable engine scenario s ∧ Struck ⟨1⟩ s ∧
      (s.brains.get? ⟨1⟩).any (fun brain => brain.Alone .core (.wakeUp .core)) ∧
      (s.world.body? ⟨1⟩).any (fun b => .core ∈ b.schedule.active ∧ b.memory.hasValue .sleeping) ∧
      s.step.world.isAlive ⟨1⟩ ∧
      (∃ r ∈ s.runs, r.env.agent = ⟨1⟩ ∧ r.leaf = .wakeUp .core) ∧ (∀ r ∈ s.runs, ¬ r.Wakes) ∧
      (s.step.world.body? ⟨1⟩).any (fun b => b.pose == .sleeping && b.memory.hasValue .sleeping) := by
  intro wolf engine scenario s
  have hstruck : Struck ⟨1⟩ s := by
    have hhit : s.hits = [⟨⟨2⟩, ⟨9⟩, ⟨1⟩, 3.0⟩] := by decide +kernel
    refine .script (hhit ▸ List.mem_cons_self) ?_ rfl
    decide +kernel
  have hturn : s.runs.any fun r => r.env.agent == ⟨1⟩ && r.leaf == .wakeUp .core := by decide +kernel
  obtain ⟨r, hr, hfacts⟩ := List.any_eq_true.mp hturn
  rw [Bool.and_eq_true, beq_iff_eq, beq_iff_eq] at hfacts
  have hasleep : s.runs.all fun r =>
      (r.after.world.remembered? r.env.agent .sleeping).isSome := by decide +kernel
  refine ⟨by decide, .step .start, hstruck, by decide +kernel, by decide +kernel, by decide +kernel,
    ⟨r, hr, hfacts⟩, fun r hr hwakes => ?_, by decide +kernel⟩
  have hstill := List.all_eq_true.mp hasleep r hr
  rw [hwakes.forgets] at hstill
  cases hstill

end Simulation

end Menagerie
