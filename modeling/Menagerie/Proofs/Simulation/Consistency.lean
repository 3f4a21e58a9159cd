import Menagerie.Proofs.Simulation.Course
import Menagerie.Proofs.Simulation.Requests

/-!
# Bodies and brains belong together

A simulation keeps for each agent a body and a brain. They come and go together, and the keys that
the memory of the body has are those that were collected when the brain was compiled (`Engine.Fits`).
No operation breaks the pairs (`Paired`), as nothing that happens in the world adds a key or takes one
away (`Body.Registers`), and no brain that thinks changes what it collected.
-/

namespace Menagerie

/-- Whether the memories of two bodies have the same keys. -/
def Body.Registers (b b' : Body) : Prop :=
  ∀ key, b'.memory.isRegistered key = b.memory.isRegistered key

theorem Body.Registers.refl (b : Body) : Registers b b := fun _ => rfl

theorem Body.Registers.trans {b b' b'' : Body} (h : Registers b b') (h' : Registers b' b'') :
    Registers b b'' := fun key => (h' key).trans (h key)

/-- Whether two brains have the same memories. -/
def Brain.SameMemories (brain brain' : Brain) : Prop := brain'.memories = brain.memories

theorem Brain.SameMemories.refl (brain : Brain) : SameMemories brain brain := rfl

namespace World

variable {w w' : World} {me : AgentId} {may : Tick → MemoryKey → MemorySlot → Prop}

theorem each_registers_advance (w : World) : w.Each Body.Registers w.advance := by
  intro id
  rw [body?_advance]
  cases w.body? id with
  | none => exact .none
  | some b => exact .some (Blackboard.quiet_advance b.memory _).registered

theorem Steady.each_registers (h : w.Steady may w') : w.Each Body.Registers w' :=
  h.bodies.imp fun hsteady => hsteady.memory.registered

theorem Touched.each_registers (h : w.Touched may me w') : w.Each Body.Registers w' := by
  intro id
  by_cases hid : id = me
  · subst hid
    exact optionRel_imp (fun htouched => htouched.memory.registered) h.own
  · refine optionRel_imp (fun halike key => ?_) (h.others id hid)
    rw [Bool.eq_iff_iff, Blackboard.isRegistered_iff, Blackboard.isRegistered_iff,
      halike.memory.state]

end World

namespace Engine

/-- Whether compiling an agent of a number collected these memories. -/
def Collects (e : Engine) (id : AgentId) (memories : SortedSet MemoryKey) : Prop :=
  ∃ t spawn clock random brain random',
    e.instantiate t spawn (newborn t spawn id) clock random = (.ok brain, random') ∧
      brain.memories = memories

/-- Whether a body and a brain belong together. -/
structure Fits (e : Engine) (id : AgentId) (b : Body) (brain : Brain) : Prop where
  registered : ∀ key, b.memory.isRegistered key = brain.memories.contains key
  collected : e.Collects id brain.memories

/-- Keys are listed in order, so that the same keys make the same list. -/
theorem Fits.keys {e : Engine} {id : AgentId} {b : Body} {brain : Brain} (h : e.Fits id b brain) :
    b.memory.registered = brain.memories.keys :=
  SortedMap.keys_congr h.registered

end Engine

namespace Simulation

variable {engine : Engine} {scenario : Scenario} {s s' : Simulation}

/-- Whether each agent of a simulation has a body and a brain that belong together. -/
structure Paired (engine : Engine) (s : Simulation) : Prop where
  pairs : ∀ id, Option.Rel (engine.Fits id) (s.world.body? id) (s.brains.get? id)
  engine : s.engine = engine

/-- Bodies and brains have the same numbers. -/
theorem Paired.keys (h : Paired engine s) : s.brains.keys = s.world.bodies.keys := by
  refine SortedMap.keys_congr fun id => ?_
  have hpair := h.pairs id
  unfold World.body? at hpair
  unfold SortedMap.contains
  generalize s.world.bodies.get? id = body, s.brains.get? id = brain at hpair
  cases hpair with
  | none => rfl
  | some _ => rfl

theorem Paired.exists_brain (h : Paired engine s) {id : AgentId} {b : Body}
    (hb : s.world.body? id = some b) :
    ∃ brain, s.brains.get? id = some brain ∧ engine.Fits id b brain := by
  have hpair := h.pairs id
  rw [hb] at hpair
  generalize s.brains.get? id = found at hpair ⊢
  cases hpair with
  | some hfits => exact ⟨_, rfl, hfits⟩

/-! ## Agents come and go -/

theorem isRegistered_bodyOf_iff (t : Template) (agent : AgentView) (brain : Brain) (now : Tick)
    (key : MemoryKey) :
    (bodyOf t agent brain now).memory.isRegistered key ↔ key ∈ brain.memories.keys := by
  unfold bodyOf
  rw [(Blackboard.quiet_advance _ now).registered, Blackboard.isRegistered_registerAll]
  exact or_iff_left Bool.false_ne_true

theorem Paired.spawn (h : Paired engine s) (spawn : Spawn) : Paired engine (s.spawn spawn).2 := by
  obtain ⟨_, random, heq, _⟩ | ⟨id, t, brain, random, _, hbrain, heq⟩ := s.spawn_cases spawn
  · rw [heq]
    exact ⟨h.pairs, h.engine⟩
  · rw [heq]
    refine ⟨fun other => ?_, h.engine⟩
    have hbody := World.body?_insertBody s.world
      (bodyOf t (Engine.newborn t spawn id) brain s.world.now) other
    rw [hbody, SortedMap.get?_insert, show (bodyOf t _ brain s.world.now).view.id = id from rfl]
    split
    · next hother =>
      subst hother
      refine .some ⟨fun key => ?_, t, spawn, _, _, brain, random, h.engine ▸ hbrain, rfl⟩
      rw [Bool.eq_iff_iff, isRegistered_bodyOf_iff, SortedMap.mem_keys]
    · exact h.pairs other

theorem paired_ofScenario (engine : Engine) (scenario : Scenario) :
    Paired engine (ofScenario engine scenario) :=
  ofScenario_of_spawn engine scenario (fun _ _ => ⟨fun _ => .none, rfl⟩)
    (fun _ spawn h => h.spawn spawn) fun _ _ h => ⟨h.pairs, h.engine⟩

theorem Paired.despawn {id : AgentId} (h : Paired engine s) (hs' : s.despawn id = .ok s') :
    Paired engine s' := by
  rw [eq_of_despawn hs']
  refine ⟨fun other => ?_, h.engine⟩
  rw [World.body?_removeBody, SortedMap.get?_erase]
  split
  · exact .none
  · exact h.pairs other

/-- Bodies that keep their keys stay with their brains. -/
theorem Paired.of_each (h : Paired engine s) (hengine : s'.engine = engine)
    (hbodies : s.world.Each Body.Registers s'.world)
    (hbrains : ∀ id, Option.Rel Brain.SameMemories (s.brains.get? id) (s'.brains.get? id)) :
    Paired engine s' := by
  refine ⟨fun id => ?_, hengine⟩
  have hpair := h.pairs id
  have hbody := hbodies id
  have hbrain := hbrains id
  generalize s.world.body? id = b, s'.world.body? id = b' at hpair hbody ⊢
  generalize s.brains.get? id = brain, s'.brains.get? id = brain' at hpair hbrain ⊢
  cases hpair with
  | none =>
    cases hbody
    cases hbrain
    exact .none
  | some hfits =>
    obtain ⟨_, rfl, hregisters⟩ := optionRel_some_left.mp hbody
    obtain ⟨_, rfl, hmemories⟩ := optionRel_some_left.mp hbrain
    unfold Brain.SameMemories at hmemories
    refine .some ⟨fun key => ?_, ?_⟩
    · rw [hregisters, hfits.registered, hmemories]
    · rw [hmemories]
      exact hfits.collected

theorem Paired.hit {attacker victim : AgentId} {damage : Float} (h : Paired engine s)
    (hs' : s.hit attacker victim damage = .ok s') : Paired engine s' := by
  have hsteady : s.world.Steady World.Halting _ := s.world.steady_damage attacker victim damage
  rw [eq_of_hit hs']
  exact h.of_each h.engine hsteady.each_registers fun id => optionRel_refl Brain.SameMemories.refl _

/-! ## Ticks -/

/-- A tick adds no key to a memory and takes none away. -/
theorem Orderly.each_registers_step (h : s.Orderly) : s.world.Each Body.Registers s.step.world := by
  refine h.rel_step (World.Each Body.Registers) (.refl Body.Registers.refl)
    (World.Each.trans Body.Registers.trans) s.world.each_registers_advance
    (fun w => .refl Body.Registers.refl w) ?_ ?_
  · exact fun hunfolds _ => hunfolds.steady.each_registers
  · exact fun r _ horderly _ => (r.touched horderly.indexed).each_registers

theorem sameMemories_thinkFor (limit : Nat) (id : AgentId) (brain : Brain) (stage : Stage) :
    brain.SameMemories (thinkFor limit id brain stage).1 := by
  unfold thinkFor Brain.tick
  split
  · split
    · exact .refl brain
    · exact .refl brain
  · exact .refl brain

theorem sameMemories_think (s : Simulation) (id : AgentId) :
    Option.Rel Brain.SameMemories (s.brains.get? id) (s.think.brains.get? id) :=
  (SortedMap.mapWithState_keeps s.brains (thinkFor s.engine.chainLimit) (fun _ => True)
    (fun _ brain brain' => brain.SameMemories brain')
    (fun id brain stage _ _ => ⟨trivial, sameMemories_thinkFor _ id brain stage⟩)
    (s := ⟨s.world, s.random⟩) trivial).2 id

theorem Paired.step (h : Paired engine s) (horderly : s.Orderly) : Paired engine s.step :=
  h.of_each h.engine horderly.each_registers_step s.whenThinking.sameMemories_think

/-! ## Runs -/

theorem Reachable.paired (h : Reachable engine scenario s) : Paired engine s := by
  induction h with
  | start => exact paired_ofScenario engine scenario
  | spawn spawn _ ih => exact ih.spawn spawn
  | despawn _ hs' ih => exact ih.despawn hs'
  | hit _ hs' ih => exact ih.hit hs'
  | step hreachable ih => exact ih.step hreachable.orderly

/-- In every state that a run reaches, bodies and brains have the same numbers, and no intents wait.
Each body is kept under its own number, remembers on the time of the world, and has room for exactly
the memories that were collected when the brain of its agent was compiled. What is refused leaves the
state as it is; a spawn that is refused may have drawn from the generator. -/
theorem Reachable.consistent (h : Reachable engine scenario s) :
    s.brains.keys = s.world.bodies.keys ∧ s.world.intents = [] ∧
      (∀ id b, s.world.body? id = some b →
        b.view.id = id ∧ b.memory.now = s.world.now ∧
        ∃ brain, s.brains.get? id = some brain ∧ b.memory.registered = brain.memories.keys ∧
          engine.Collects id brain.memories) ∧
      ∀ request cause s', s.attempt request = (.error cause, s') →
        (∃ random, s' = { s with random } ∧ s.random.Precedes random) ∧
        ((∀ spawn, request ≠ .spawn spawn) → s' = s) := by
  refine ⟨h.paired.keys, h.orderly.idle, fun id b hb => ?_, fun _ _ _ => attempt_eq_error⟩
  obtain ⟨brain, hbrain, hfits⟩ := h.paired.exists_brain hb
  exact ⟨h.orderly.world.indexed id b hb, h.orderly.world.clocks id b hb, brain, hbrain, hfits.keys,
    hfits.collected⟩

/-- A wolf whose herd tasks remember leaders, and after a tick a stray that makes a draw, and is then
refused for a speed that is no number. -/
theorem Reachable.consistent_wolf :
    let species : Binding := .literal ⟨"q.entity.species", .path ["q", "entity", "species"]⟩
    let template (name : String) (tasks : List TaskSpec) : Template :=
      { name, species := name, enabled := true, maxHealth := 20.0, defaultActivity := .core
        overrides := .empty, declarations := [], herd := {}
        activities := [⟨.core, tasks.map fun task => ⟨0, task⟩⟩] }
    let wolf := template "wolf" [.leaf (.findHerdLeader (.number 1.0))]
    let stray := template "stray" [.random (.bool true) [(1.0, .leaf .doNothing)],
      .leaf (.fleeAttacker (.bool true) species (.number 8.0))]
    let engine : Engine :=
      { templates := { templates := .ofList [("wolf", wolf), ("stray", stray)] } }
    let scenario : Scenario := { agents := [{ template := "wolf", position := ⟨0, 0, 0⟩ }] }
    let s := (ofScenario engine scenario).step
    let s' := (s.attempt (.spawn { template := "stray", position := ⟨0, 0, 0⟩ })).2
    Reachable engine scenario s ∧ s.brains.keys = [⟨1⟩] ∧
      (s.world.memory? ⟨1⟩).map Blackboard.registered =
        some [.nearestVisibleAgents, .herdLeader] ∧
      s'.random = s.random.next.2 ∧ s'.world = s.world ∧
      s.brains.keys = s.world.bodies.keys ∧ s.world.intents = [] ∧
      (∀ id b, s.world.body? id = some b →
        b.view.id = id ∧ b.memory.now = s.world.now ∧
        ∃ brain, s.brains.get? id = some brain ∧ b.memory.registered = brain.memories.keys ∧
          engine.Collects id brain.memories) ∧
      ∀ request cause s', s.attempt request = (.error cause, s') →
        (∃ random, s' = { s with random } ∧ s.random.Precedes random) ∧
        ((∀ spawn, request ≠ .spawn spawn) → s' = s) := by
  intro species template wolf stray engine scenario s s'
  have reachable : Reachable engine scenario s := Reachable.start.step
  exact ⟨reachable, by decide +kernel, by decide +kernel, by decide +kernel, by decide +kernel,
    reachable.consistent⟩

end Simulation

end Menagerie
