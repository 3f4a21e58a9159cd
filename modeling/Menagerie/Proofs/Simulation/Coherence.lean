import Menagerie.Proofs.Agent.Brain
import Menagerie.Proofs.Sensor.Sense
import Menagerie.Proofs.Simulation.Population
import Menagerie.Proofs.Template.Provision
import Menagerie.Proofs.World.Happenings

/-!
# What holds of every simulation

`Coherent` is what holds between the world and the brains of a simulation: every brain has a body
whose memory has room for all that the brain writes and keeps values of the kinds of their keys, and
nobody follows anybody in a circle. It holds of every state that a run reaches (`Reachable.sound`),
whatever agents are spawned, taken out and hit between its ticks, if each sensor of the engine is
about the memories of its kind alone.
-/

namespace Menagerie

/-- What holds between a world and the brains of its agents. -/
structure Coherent (w : World) (brains : SortedMap AgentId Brain) : Prop where
  indexed : w.Indexed
  acyclic : w.Acyclic
  /-- Each brain is its agent's own, and its agent is able to act with all its memories. -/
  brains : ∀ id brain, brains.get? id = some brain →
    brain.agent = id ∧ brain.Manned ∧ w.Able id brain.memories.keys

namespace Coherent

variable {w w' : World} {brains : SortedMap AgentId Brain}

/-- What happens in the world of itself leaves it coherent. -/
theorem of_quiet (h : Coherent w brains) (quiet : w.Quiet w') : Coherent w' brains := by
  refine ⟨h.indexed.of_kept quiet.kept, h.acyclic.of_quiet quiet, ?_⟩
  intro id brain hbrain
  obtain ⟨hagent, hmanned, hable⟩ := h.brains id brain hbrain
  exact ⟨hagent, hmanned, hable.of_kept quiet.kept⟩

/-- A world without bodies is coherent. -/
theorem of_empty (hbodies : w.bodies = .empty) : Coherent w .empty := by
  have hnone : ∀ id, w.body? id = none := by
    intro id
    unfold World.body?
    rw [hbodies]
    rfl
  refine ⟨?_, ?_, ?_⟩
  · intro id b hb
    rw [hnone] at hb
    cases hb
  · intro id hid
    obtain ⟨_, ⟨b, hb, _⟩, _⟩ := Relation.TransGen.head'_iff.mp hid
    rw [hnone] at hb
    cases hb
  · intro id brain hbrain
    cases hbrain

/-- A body with a blank memory comes in together with its brain, be it in the place of another. -/
theorem insert (h : Coherent w brains) {b : Body} {brain : Brain} {id : AgentId}
    (hid : b.view.id = id) (hblank : b.memory.Blank)
    (hregistered : ∀ key ∈ brain.memories.keys, b.memory.isRegistered key)
    (hagent : brain.agent = id) (hmanned : brain.Manned) :
    Coherent (w.insertBody b) (brains.insert id brain) := by
  have hindexed : (w.insertBody b).Indexed := by
    intro other body hbody
    rw [World.body?_insertBody] at hbody
    split at hbody
    · next heq =>
      cases hbody
      exact heq.symm
    · exact h.indexed other body hbody
  refine ⟨hindexed, h.acyclic.of_imp ?_, ?_⟩
  · -- Agents may follow the number already; the newcomer itself follows nobody.
    rintro a leader ⟨body, hbody, hnames⟩
    rw [World.body?_insertBody] at hbody
    split at hbody
    · cases hbody
      exact absurd hnames (hblank.names leader)
    · exact ⟨body, hbody, hnames⟩
  · intro other brain' hbrain'
    rw [SortedMap.get?_insert] at hbrain'
    split at hbrain'
    · next heq =>
      cases hbrain'
      refine ⟨hagent.trans heq.symm, hmanned, hindexed, b, ?_, hblank.wellKinded, hregistered⟩
      rw [World.body?_insertBody, if_pos (heq.trans hid.symm)]
    · next hne =>
      obtain ⟨hagent', hmanned', hable⟩ := h.brains other brain' hbrain'
      refine ⟨hagent', hmanned', hindexed, ?_⟩
      rw [World.body?_insertBody, if_neg (hid ▸ hne)]
      exact hable.body

/-- A body goes out together with its brain. -/
theorem remove (h : Coherent w brains) (id : AgentId) :
    Coherent (w.removeBody id) (brains.erase id) := by
  have hindexed : (w.removeBody id).Indexed := fun other body hbody =>
    h.indexed other body (World.body?_of_removeBody hbody)
  refine ⟨hindexed, h.acyclic.of_imp ?_, ?_⟩
  · rintro a leader ⟨body, hbody, hnames⟩
    exact ⟨body, World.body?_of_removeBody hbody, hnames⟩
  · intro other brain hbrain
    rw [SortedMap.get?_erase] at hbrain
    split at hbrain
    · cases hbrain
    · next hne =>
      obtain ⟨hagent, hmanned, hable⟩ := h.brains other brain hbrain
      refine ⟨hagent, hmanned, hindexed, ?_⟩
      rw [World.body?_removeBody, if_neg hne]
      exact hable.body

end Coherent

namespace Engine

/-- Whether each sensor of an engine is about the memories of its kind alone. -/
def Honest (e : Engine) : Prop := ∀ kind sensor, e.sensors kind = some sensor → sensor.Honest kind

/-- Whether all sensors of an engine are built in. -/
def BuiltIn (e : Engine) : Prop :=
  ∀ kind sensor, e.sensors kind = some sensor → ∃ settings, sensor = Sensor.ofKind settings kind

theorem BuiltIn.honest {e : Engine} (h : e.BuiltIn) : e.Honest := by
  intro kind sensor hsensor
  obtain ⟨settings, rfl⟩ := h kind sensor hsensor
  exact Sensor.honest_ofKind settings kind

/-- A brain is made for its agent and is manned. -/
theorem of_instantiate {e : Engine} {t : Template} {spawn : Spawn} {agent : AgentView} {clock : Clock}
    {random random' : Random} {brain : Brain}
    (h : e.instantiate t spawn agent clock random = (.ok brain, random')) :
    brain.agent = agent.id ∧ brain.Manned := by
  have hgathered := gathered_of_instantiate h
  refine ⟨?agent, Brain.manned_of_has ?leaves ?sensors⟩
  case agent =>
    unfold instantiate at h
    split at h
    · cases h
    · dsimp only at h
      split at h
      · cases h
        rfl
      · cases h
  case leaves =>
    intro l hl key hkey
    exact (hgathered.memories key).mpr (.inr ⟨l, .inl hl, .inl hkey⟩)
  case sensors =>
    intro kind hkind key hkey
    obtain hnone | ⟨l, hl, hkind⟩ := (hgathered.sensors kind).mp hkind
    · cases hnone
    · exact (hgathered.memories key).mpr (.inr ⟨l, hl, .inr ⟨kind, hkind, hkey⟩⟩)

end Engine

namespace Simulation

/-! ## Spawning -/

/-- What holds of a simulation of an engine. -/
structure Sound (engine : Engine) (s : Simulation) : Prop where
  engine : s.engine = engine
  coherent : Coherent s.world s.brains

variable {engine : Engine} {s s' : Simulation}

theorem blank_bodyOf (t : Template) (agent : AgentView) (brain : Brain) (now : Tick) :
    (bodyOf t agent brain now).memory.Blank :=
  (Blackboard.blank_empty.registerAll _).advance now

theorem isRegistered_bodyOf (t : Template) (agent : AgentView) (brain : Brain) (now : Tick) :
    ∀ key ∈ brain.memories.keys, (bodyOf t agent brain now).memory.isRegistered key := by
  intro key hkey
  unfold bodyOf
  rw [(Blackboard.quiet_advance _ now).registered]
  exact (Blackboard.isRegistered_registerAll _ _ key).mpr (.inl hkey)

theorem Sound.spawn (h : Sound engine s) (spawn : Spawn) : Sound engine (s.spawn spawn).2 := by
  obtain ⟨_, random, heq, _⟩ | ⟨id, t, brain, random, _, hbrain, heq⟩ := s.spawn_cases spawn
  · rw [heq]
    exact ⟨h.engine, h.coherent⟩
  · rw [heq]
    obtain ⟨hagent, hmanned⟩ := Engine.of_instantiate hbrain
    exact ⟨h.engine, h.coherent.insert rfl (blank_bodyOf t _ brain _)
      (isRegistered_bodyOf t _ brain _) hagent hmanned⟩

theorem sound_ofScenario (engine : Engine) (scenario : Scenario) :
    Sound engine (ofScenario engine scenario) :=
  ofScenario_of_spawn engine scenario (fun _ _ => ⟨rfl, .of_empty rfl⟩)
    (fun _ spawn h => h.spawn spawn) fun _ _ h => ⟨h.engine, h.coherent⟩

theorem Sound.despawn {id : AgentId} (h : Sound engine s) (hs' : s.despawn id = .ok s') :
    Sound engine s' := by
  rw [eq_of_despawn hs']
  exact ⟨h.engine, h.coherent.remove id⟩

theorem Sound.hit {attacker victim : AgentId} {damage : Float} (h : Sound engine s)
    (hs' : s.hit attacker victim damage = .ok s') : Sound engine s' := by
  rw [eq_of_hit hs']
  exact ⟨h.engine, h.coherent.of_quiet (World.quiet_damage _ _ _ _)⟩

/-! ## Ticks -/

/-- The simulation when its sensors sense in a tick. -/
def whenSensing (s : Simulation) : Simulation := dealHits { s with world := s.world.advance }

/-- The simulation when its brains think in a tick. -/
def whenThinking (s : Simulation) : Simulation := s.whenSensing.sense

/-- What holds of a stage that agents of a world get to. -/
structure Staged (w : World) (stage : Stage) : Prop where
  kept : w.Kept stage.world
  acyclic : stage.world.Acyclic

theorem quiet_dealHits (s : Simulation) : s.world.Quiet s.dealHits.world :=
  World.Quiet.foldl _ (fun hit _ w => World.quiet_damage w hit.attacker hit.victim hit.damage) _

theorem quiet_senseKind (honest : engine.Honest)
    (id : AgentId) (w : World) (kind : SensorKind) : w.Quiet (senseKind engine id w kind) := by
  unfold senseKind
  split
  · exact .refl w
  · next sensor hsensor =>
    split
    · exact Sensor.quiet_sense (honest kind sensor hsensor) id w
    · exact .refl w

theorem quiet_senseFor (honest : engine.Honest)
    (entry : AgentId × Brain) (w : World) : w.Quiet (senseFor engine w entry) := by
  unfold senseFor
  split
  · exact .foldl _ (fun kind _ w => quiet_senseKind honest entry.1 w kind) w
  · exact .refl w

theorem Sound.whenSensing (h : Sound engine s) : Sound engine s.whenSensing := by
  have hadvanced : Coherent s.world.advance s.brains := h.coherent.of_quiet (World.quiet_advance _)
  exact ⟨h.engine, hadvanced.of_quiet (quiet_dealHits { s with world := s.world.advance })⟩

theorem Sound.whenThinking
    (honest : engine.Honest)
    (h : Sound engine s) : Sound engine s.whenThinking := by
  refine ⟨h.engine, h.whenSensing.coherent.of_quiet ?_⟩
  refine World.Quiet.foldl _ (fun entry _ w => quiet_senseFor ?_ entry w) _
  rw [show s.whenSensing.engine = engine from h.engine]
  exact honest

/-- A brain that thinks on a stage that agents of its world got to leaves such a stage. -/
theorem conducted_thinkFor {w : World} {brains : SortedMap AgentId Brain} {id : AgentId}
    {brain : Brain} {stage : Stage} (limit : Nat) (h : Coherent w brains)
    (hbrain : brains.get? id = some brain) (hstage : Staged w stage) :
    Staged w (thinkFor limit id brain stage).2 ∧ brain.Kept (thinkFor limit id brain stage).1 ∧
      (stage.world.isAlive id → ∀ fault ∈ brain.raised limit stage, fault.cause.OfValue) := by
  obtain ⟨rfl, hmanned, hable⟩ := h.brains id brain hbrain
  have hticked := Brain.conducted_tick limit (hable.of_kept hstage.kept) hmanned
  unfold thinkFor
  split
  · exact ⟨⟨World.Each.trans Body.Kept.trans hstage.kept hticked.does.kept,
      hticked.does.acyclic hstage.acyclic⟩, hticked.manned, fun _ => hticked.faults⟩
  · next halive => exact ⟨hstage, ⟨rfl, rfl, id⟩, fun h => absurd h halive⟩

theorem Sound.think (h : Sound engine s) : Sound engine s.think := by
  have hstart : Staged s.world ⟨s.world, s.random⟩ :=
    ⟨World.Each.refl Body.Kept.refl _, h.coherent.acyclic⟩
  obtain ⟨hstage, hbrains⟩ := SortedMap.mapWithState_keeps s.brains (thinkFor s.engine.chainLimit)
    (Staged s.world) (fun _ brain brain' => brain.Kept brain')
    (fun id brain stage hbrain hstage =>
      have hthought := conducted_thinkFor _ h.coherent hbrain hstage
      ⟨hthought.1, hthought.2.1⟩) hstart
  refine ⟨h.engine, h.coherent.indexed.of_kept hstage.kept, hstage.acyclic, ?_⟩
  intro id brain' hbrain'
  have hrel := hbrains id
  rw [show (s.brains.mapWithState _ _).1.get? id = some brain' from hbrain'] at hrel
  cases hget : s.brains.get? id with
  | none =>
    rw [hget] at hrel
    cases hrel
  | some brain =>
    rw [hget] at hrel
    have hkept : brain.Kept brain' := Option.rel_some_some.mp hrel
    obtain ⟨hagent, hmanned, hable⟩ := h.coherent.brains id brain hget
    refine ⟨hkept.agent.trans hagent, hkept.manned hmanned, ?_⟩
    rw [hkept.memories]
    exact hable.of_kept hstage.kept

theorem Sound.step (honest : engine.Honest)
    (h : Sound engine s) : Sound engine s.step := by
  have hthought := (h.whenThinking honest).think
  have hsettled : s.whenThinking.think.world.Quiet s.step.world :=
    (World.quiet_settle _).trans (World.quiet_move _)
  exact ⟨hthought.engine, hthought.coherent.of_quiet hsettled⟩

/-! ## Runs -/

/-- The states that a run of a scenario reaches: agents are spawned, taken out and hit between its
ticks. -/
inductive Reachable (engine : Engine) (scenario : Scenario) : Simulation → Prop
  | start : Reachable engine scenario (ofScenario engine scenario)
  | spawn {s : Simulation} (spawn : Spawn) : Reachable engine scenario s →
      Reachable engine scenario (s.spawn spawn).2
  | despawn {s s' : Simulation} {id : AgentId} : Reachable engine scenario s → s.despawn id = .ok s' →
      Reachable engine scenario s'
  | hit {s s' : Simulation} {attacker victim : AgentId} {damage : Float} : Reachable engine scenario s →
      s.hit attacker victim damage = .ok s' → Reachable engine scenario s'
  | step {s : Simulation} : Reachable engine scenario s → Reachable engine scenario s.step

theorem Reachable.sound {scenario : Scenario}
    (honest : engine.Honest)
    (h : Reachable engine scenario s) : Sound engine s := by
  induction h with
  | start => exact sound_ofScenario engine scenario
  | spawn spawn _ ih => exact ih.spawn spawn
  | despawn _ hs' ih => exact ih.despawn hs'
  | hit _ hs' ih => exact ih.hit hs'
  | step _ ih => exact ih.step honest

end Simulation

end Menagerie
