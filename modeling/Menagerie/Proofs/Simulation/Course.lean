import Menagerie.Proofs.Agent.Ability
import Menagerie.Proofs.Simulation.Coherence

/-!
# The course of a simulation

Between operations a simulation is orderly (`Simulation.Orderly`): bodies are kept under their own
numbers and remember on the time of the world, brains are their agents' own, and no intents wait. So it
is in every state that a run reaches, whatever the sensors of its engine do (`Reachable.orderly`).

Each part of a tick is brought to what is known of such parts: the clock advances and memories lapse
(`World.body?_advance`), hits, sensing, intents and movement are courses of happenings
(`World.Unfolds`), and thinking is runs of leaves, one after the other (`leads_think`). What is true of
each of these is true of a tick (`Orderly.rel_step`).
-/

namespace Menagerie

variable {may : Tick → MemoryKey → MemorySlot → Prop} {acts : AgentId → Prop} {me : AgentId}

/-- An update touches no more than what it is about. -/
theorem Blackboard.touched_update {m m' : Blackboard} {u : MemoryUpdate} (h : m.update u = .ok m')
    (hmay : ∀ slot, may m.now u.key slot) : m.Touched may m' := by
  have hstore : ∀ {key value expiresAt}, (∀ slot, may m.now key slot) →
      m.store key value expiresAt = .ok m' → m.Touched may m' := by
    intro key value expiresAt hmay h
    obtain ⟨_, _, rfl⟩ := store_eq_ok_iff.mp h
    exact touched_put (hmay _)
  cases u with
  | store key value => exact hstore hmay h
  | storeFor key value ticks => exact hstore hmay h
  | clear key =>
    cases h
    exact touched_put (hmay _)

namespace World

variable {w w' : World}

/-- Whether bodies are kept under their own numbers, and their memories on the time of the world. -/
structure Orderly (w : World) : Prop where
  indexed : w.Indexed
  clocks : ∀ id b, w.body? id = some b → b.memory.now = w.now

theorem Orderly.of_touched (h : w.Orderly) (touched : w.Touched may me w') : w'.Orderly := by
  refine ⟨h.indexed.of_touched touched, ?_⟩
  intro id b' hb'
  have hnow : w'.now = w.now := congrArg Clock.now touched.clock
  rw [hnow]
  by_cases hid : id = me
  · have hown := touched.own
    rw [← hid, hb'] at hown
    obtain ⟨b, hb, htouched⟩ := optionRel_some_right.mp hown
    exact htouched.memory.now.trans (h.clocks id b hb)
  · have hother := touched.others id hid
    rw [hb'] at hother
    obtain ⟨b, hb, halike⟩ := optionRel_some_right.mp hother
    exact halike.memory.now.trans (h.clocks id b hb)

theorem Orderly.of_steady (h : w.Orderly) (steady : w.Steady may w') : w'.Orderly := by
  refine ⟨?_, ?_⟩
  · intro id b' hb'
    obtain ⟨b, hb, hsteady⟩ := steady.bodies.exists_of_right hb'
    exact hsteady.id.trans (h.indexed id b hb)
  · intro id b' hb'
    obtain ⟨b, hb, hsteady⟩ := steady.bodies.exists_of_right hb'
    have hnow : w'.now = w.now := congrArg Clock.now steady.clock
    rw [hnow, hsteady.memory.now]
    exact h.clocks id b hb

theorem Orderly.settle (h : w.Orderly) : w.settle.Orderly := by
  have hidle : Orderly { w with intents := [] } := ⟨h.indexed, h.clocks⟩
  exact hidle.of_steady (unfolds_settle w).steady

theorem Orderly.insertBody (h : w.Orderly) {b : Body} (hclock : b.memory.now = w.now) :
    (w.insertBody b).Orderly := by
  refine ⟨?_, ?_⟩
  · intro id b' hb'
    rw [body?_insertBody] at hb'
    split at hb'
    · next heq =>
      cases hb'
      exact heq.symm
    · exact h.indexed id b' hb'
  · intro id b' hb'
    rw [body?_insertBody] at hb'
    split at hb'
    · cases hb'
      exact hclock
    · exact h.clocks id b' hb'

theorem Orderly.removeBody (h : w.Orderly) (id : AgentId) : (w.removeBody id).Orderly :=
  ⟨fun other b hb => h.indexed other b (body?_of_removeBody hb),
    fun other b hb => h.clocks other b (body?_of_removeBody hb)⟩

/-! ## The clock -/

/-- As the clock advances every memory does, and bodies stay as they are. -/
theorem body?_advance (w : World) (id : AgentId) :
    w.advance.body? id =
      (w.body? id).map fun b => { b with memory := (b.memory.advance w.now.next).2 } := by
  have h := (SortedMap.mapWithState_keeps w.bodies
    (fun _ b dropped => ({ b with memory := (b.memory.advance w.now.next).2 },
      dropped + (b.memory.advance w.now.next).1))
    (fun _ => True) (fun _ b b' => b' = { b with memory := (b.memory.advance w.now.next).2 })
    (fun _ _ _ _ _ => ⟨trivial, rfl⟩) (s := 0) trivial).2 id
  show (w.bodies.mapWithState _ 0).1.get? id = (w.bodies.get? id).map _
  cases hb : w.bodies.get? id with
  | none =>
    rw [hb] at h
    cases hb' : (w.bodies.mapWithState _ 0).1.get? id with
    | none => rfl
    | some b' =>
      rw [hb'] at h
      cases h
  | some b =>
    rw [hb] at h
    obtain ⟨b', hb', rfl⟩ := optionRel_some_left.mp h
    exact hb'

theorem Orderly.advance (h : w.Orderly) : w.advance.Orderly := by
  refine ⟨?_, ?_⟩
  · intro id b' hb'
    rw [body?_advance] at hb'
    obtain ⟨b, hb, rfl⟩ := Option.map_eq_some_iff.mp hb'
    exact h.indexed id b hb
  · intro id b' hb'
    rw [body?_advance] at hb'
    obtain ⟨b, hb, rfl⟩ := Option.map_eq_some_iff.mp hb'
    rfl

theorem toll_advance (w : World) : w.Toll w.advance := by
  refine toll_of_isAlive (SortedMap.keys_mapWithState ..) ?_ rfl
  intro id
  unfold isAlive view?
  rw [body?_advance]
  cases w.body? id with
  | none => rfl
  | some b => rfl

/-! ## Sensing -/

/-- Updates of the memory of one who acts. -/
theorem unfolds_updateMemories {id : AgentId} {us : List MemoryUpdate} (hacts : acts id)
    (hmay : ∀ u ∈ us, ∀ now slot, may now u.key slot) :
    w.Unfolds acts may (w.updateMemories id us).2 := by
  induction us generalizing w with
  | nil => exact .refl
  | cons u rest ih =>
    rw [List.forall_mem_cons] at hmay
    rw [updateMemories]
    unfold updateMemory memory?
    cases hb : w.body? id with
    | none => exact ih hmay.2
    | some b =>
      simp only [Option.map_some]
      cases hm : b.memory.update u with
      | error e => exact .refl
      | ok m =>
        refine .head (.body hacts fun b' hb' => ?_) (ih hmay.2)
        rw [hb] at hb'
        cases hb'
        exact ⟨⟨rfl, Blackboard.touched_update hm (hmay.1 _)⟩, rfl⟩

end World

namespace Simulation

variable {engine : Engine} {scenario : Scenario} {s s' : Simulation}

theorem unfolds_dealHits (s : Simulation) : s.world.Unfolds acts may s.dealHits.world :=
  .foldl _ (fun hit _ w => .single (.damage w hit.attacker hit.victim hit.damage)) _

theorem unfolds_senseKind (e : Engine) {id : AgentId} (hacts : acts id) (w : World)
    (kind : SensorKind)
    (hsensors : ∀ sensor, e.sensors kind = some sensor →
      ∀ id w, ∀ u ∈ sensor.perceive id w, ∀ now slot, may now u.key slot) :
    w.Unfolds acts may (senseKind e id w kind) := by
  unfold senseKind
  split
  · exact .refl
  · next sensor hsensor =>
    split
    · exact World.unfolds_updateMemories hacts (hsensors sensor hsensor id w)
    · exact .refl

/-- Only the living sense, and they touch their memories as their sensors may. -/
theorem unfolds_senses (e : Engine) (entries : List (AgentId × Brain))
    (hsensors : ∀ kind sensor, e.sensors kind = some sensor →
      ∀ id w, ∀ u ∈ sensor.perceive id w, ∀ now slot, may now u.key slot) (w : World) :
    w.Unfolds (fun id => w.isAlive id) may (entries.foldl (senseFor e) w) := by
  refine .foldl_alive _ (fun entry _ w => ?_) _
  unfold senseFor
  split
  · next halive => exact .foldl _ (fun kind _ w => unfolds_senseKind e halive w kind (hsensors kind)) w
  · exact .refl

/-! ## Thinking -/

/-- The leaves that brains run, which think one after the other. -/
def runsFrom (limit : Nat) : List (AgentId × Brain) → Stage → List LeafRun
  | [], _ => []
  | (id, brain) :: rest, stage =>
    (if stage.world.isAlive id then brain.runs limit stage else []) ++
      runsFrom limit rest (thinkFor limit id brain stage).2

/-- The leaves that the next tick runs. -/
def runs (s : Simulation) : List LeafRun :=
  runsFrom s.whenThinking.engine.chainLimit s.whenThinking.brains.toList
    ⟨s.whenThinking.world, s.whenThinking.random⟩

theorem leads_thinkFor (limit : Nat) (id : AgentId) (brain : Brain) (stage : Stage) :
    stage.Reaches (if stage.world.isAlive id then brain.runs limit stage else [])
      (thinkFor limit id brain stage).2 := by
  unfold thinkFor
  split
  · exact brain.leads_tick limit stage
  · rfl

theorem leads_mapWithState (limit : Nat) (entries : List (AgentId × Brain)) (stage : Stage) :
    stage.Reaches (runsFrom limit entries stage)
      (SortedMap.Entries.mapWithState (thinkFor limit) entries stage).2 := by
  induction entries generalizing stage with
  | nil => rfl
  | cons entry rest ih => exact (leads_thinkFor limit entry.1 entry.2 stage).append (ih _)

/-- Thinking comes to what the leaves that are run come to. -/
theorem leads_think (s : Simulation) :
    Stage.Reaches ⟨s.whenThinking.world, s.whenThinking.random⟩ s.runs
      ⟨s.whenThinking.think.world, s.whenThinking.think.random⟩ :=
  leads_mapWithState _ s.whenThinking.brains.toList _

/-- Whether brains are those of their agents. -/
def Assigned (brains : SortedMap AgentId Brain) : Prop :=
  ∀ id brain, brains.get? id = some brain → brain.agent = id

theorem Assigned.insert {brains : SortedMap AgentId Brain} {id : AgentId} {brain : Brain}
    (h : Assigned brains) (hagent : brain.agent = id) : Assigned (brains.insert id brain) := by
  intro other brain' hbrain'
  rw [SortedMap.get?_insert] at hbrain'
  split at hbrain'
  · next heq =>
    cases hbrain'
    exact hagent.trans heq.symm
  · exact h other brain' hbrain'

theorem Assigned.erase {brains : SortedMap AgentId Brain} (h : Assigned brains) (id : AgentId) :
    Assigned (brains.erase id) := by
  intro other brain hbrain
  rw [SortedMap.get?_erase] at hbrain
  split at hbrain
  · cases hbrain
  · exact h other brain hbrain

/-- Only the living run leaves. -/
theorem isAlive_of_mem_runsFrom {limit : Nat} {entries : List (AgentId × Brain)} {stage : Stage}
    (hentries : ∀ entry ∈ entries, entry.2.agent = entry.1) (hindexed : stage.world.Indexed) :
    ∀ r ∈ runsFrom limit entries stage, stage.world.isAlive r.env.agent := by
  induction entries generalizing stage with
  | nil => exact fun r hr => nomatch hr
  | cons entry rest ih =>
    obtain ⟨id, brain⟩ := entry
    rw [List.forall_mem_cons] at hentries
    rw [runsFrom]
    refine List.forall_mem_append.mpr ⟨?_, ?_⟩
    · intro r hr
      split at hr
      · next halive =>
        rw [brain.agent_of_mem_runs limit stage r hr, hentries.1]
        exact halive
      · cases hr
    · have hsame : (thinkFor limit id brain stage).2.world.Indexed ∧
          ∀ other, (thinkFor limit id brain stage).2.world.isAlive other = stage.world.isAlive other := by
        unfold thinkFor
        split
        · have htouched := brain.touched_tick limit hindexed
          exact ⟨hindexed.of_touched htouched, htouched.isAlive⟩
        · exact ⟨hindexed, fun _ => rfl⟩
      intro r hr
      rw [← hsame.2]
      exact ih hentries.2 hsame.1 r hr

theorem isAlive_of_mem_runs (hassigned : Assigned s.brains) (hindexed : s.whenThinking.world.Indexed) :
    ∀ r ∈ s.runs, s.whenThinking.world.isAlive r.env.agent := by
  refine isAlive_of_mem_runsFrom ?_ hindexed
  intro entry hentry
  exact hassigned entry.1 entry.2 (SortedMap.get?_eq_some_iff.mpr hentry)

/-- Every leaf that is run is able. -/
theorem able_of_mem_runsFrom {w : World} {brains : SortedMap AgentId Brain} {limit : Nat}
    {entries : List (AgentId × Brain)} {stage : Stage} (h : Coherent w brains)
    (hentries : ∀ entry ∈ entries, brains.get? entry.1 = some entry.2) (hstage : Staged w stage) :
    ∀ r ∈ runsFrom limit entries stage, r.Able := by
  induction entries generalizing stage with
  | nil => exact fun r hr => nomatch hr
  | cons entry rest ih =>
    obtain ⟨id, brain⟩ := entry
    rw [List.forall_mem_cons] at hentries
    obtain ⟨hagent, hmanned, hable⟩ := h.brains id brain hentries.1
    have hthought := conducted_thinkFor limit h hentries.1 hstage
    rw [runsFrom]
    refine List.forall_mem_append.mpr ⟨?_, ih hentries.2 hthought.1⟩
    split
    · subst hagent
      exact brain.able_of_mem_runs limit (hable.of_kept hstage.kept) hmanned
    · exact fun r hr => nomatch hr

theorem Reachable.able_of_mem_runs (honest : engine.Honest) (h : Reachable engine scenario s) :
    ∀ r ∈ s.runs, r.Able := by
  have hcoherent := ((h.sound honest).whenThinking honest).coherent
  refine able_of_mem_runsFrom hcoherent (fun entry hentry => SortedMap.get?_eq_some_iff.mpr hentry) ?_
  exact ⟨World.Each.refl Body.Kept.refl _, hcoherent.acyclic⟩

/-! ## Order -/

/-- What holds of a simulation between operations. -/
structure Orderly (s : Simulation) : Prop where
  world : s.world.Orderly
  idle : s.world.intents = []
  assigned : Assigned s.brains

theorem Orderly.spawn (h : s.Orderly) (spawn : Spawn) : (s.spawn spawn).2.Orderly := by
  obtain ⟨_, random, heq, _⟩ | ⟨id, t, brain, random, _, hbrain, heq⟩ := s.spawn_cases spawn
  · rw [heq]
    exact ⟨h.world, h.idle, h.assigned⟩
  · rw [heq]
    have hagent : brain.agent = id := (Engine.of_instantiate hbrain).1
    exact ⟨h.world.insertBody rfl, h.idle, h.assigned.insert hagent⟩

theorem orderly_ofScenario (engine : Engine) (scenario : Scenario) :
    (ofScenario engine scenario).Orderly := by
  refine ofScenario_of_spawn engine scenario (fun random hits => ⟨⟨?_, ?_⟩, rfl, ?_⟩)
    (fun _ spawn h => h.spawn spawn) fun _ _ h => ⟨h.world, h.idle, h.assigned⟩
  · intro id b hb
    cases hb
  · intro id b hb
    cases hb
  · intro id brain hbrain
    cases hbrain

theorem Orderly.despawn {id : AgentId} (h : s.Orderly) (hs' : s.despawn id = .ok s') : s'.Orderly := by
  rw [eq_of_despawn hs']
  refine ⟨h.world.removeBody id, ?_, h.assigned.erase id⟩
  show s.world.intents.filter _ = []
  rw [h.idle]
  rfl

theorem Orderly.hit {attacker victim : AgentId} {damage : Float} (h : s.Orderly)
    (hs' : s.hit attacker victim damage = .ok s') : s'.Orderly := by
  have hsteady : s.world.Steady World.Halting _ := s.world.steady_damage attacker victim damage
  rw [eq_of_hit hs']
  exact ⟨h.world.of_steady hsteady, hsteady.intents.trans h.idle, h.assigned⟩

/-! ### Ticks -/

/-- The simulation when its intents are carried out in a tick. -/
def whenSettling (s : Simulation) : Simulation := s.whenThinking.think

theorem unfolds_whenSensing (may : Tick → MemoryKey → MemorySlot → Prop) (s : Simulation) :
    s.world.advance.Unfolds (fun _ => False) may s.whenSensing.world :=
  unfolds_dealHits { s with world := s.world.advance }

/-- Whatever sensors may do, sensing is a course of happenings. -/
theorem unfolds_whenThinking (s : Simulation) :
    s.whenSensing.world.Unfolds (fun id => s.whenSensing.world.isAlive id) (fun _ _ _ => True)
      s.whenThinking.world :=
  unfolds_senses _ _ (fun _ _ _ _ _ _ _ _ _ => trivial) _

theorem Orderly.whenSensing (h : s.Orderly) : s.whenSensing.Orderly := by
  have hdealt : s.world.advance.Unfolds (fun _ => False) World.Halting s.whenSensing.world :=
    unfolds_whenSensing _ s
  exact ⟨h.world.advance.of_steady hdealt.steady, hdealt.steady.intents.trans h.idle, h.assigned⟩

theorem Orderly.whenThinking (h : s.Orderly) : s.whenThinking.Orderly := by
  have hsteady := s.unfolds_whenThinking.steady
  exact ⟨h.whenSensing.world.of_steady hsteady, hsteady.intents.trans h.whenSensing.idle, h.assigned⟩

theorem agent_thinkFor (limit : Nat) (id : AgentId) (brain : Brain) (stage : Stage) :
    (thinkFor limit id brain stage).1.agent = brain.agent := by
  unfold thinkFor Brain.tick
  split
  · split
    · rfl
    · rfl
  · rfl

theorem Assigned.think (h : Assigned s.brains) : Assigned s.think.brains := by
  intro id brain' hbrain'
  have hrel := (SortedMap.mapWithState_keeps s.brains (thinkFor s.engine.chainLimit)
    (fun _ => True) (fun _ brain brain' => brain'.agent = brain.agent)
    (fun id brain stage _ _ => ⟨trivial, agent_thinkFor _ id brain stage⟩)
    (s := ⟨s.world, s.random⟩) trivial).2 id
  rw [show (s.brains.mapWithState _ _).1.get? id = some brain' from hbrain'] at hrel
  obtain ⟨brain, hbrain, hagent⟩ := optionRel_some_right.mp hrel
  exact hagent.trans (h id brain hbrain)

/-- What each run of a leaf by one who is alive brings about, and what can be put together, thinking
brings about. -/
theorem Orderly.rel_think (h : s.Orderly) (rel : World → World → Prop) (hrefl : ∀ w, rel w w)
    (htrans : ∀ {w w' w''}, rel w w' → rel w' w'' → rel w w'')
    (hruns : ∀ r ∈ s.runs, r.stage.world.Orderly → r.stage.world.isAlive r.env.agent →
      rel r.stage.world r.after.world) :
    s.whenSettling.world.Orderly ∧ rel s.whenThinking.world s.whenSettling.world := by
  have hliving := isAlive_of_mem_runs h.assigned h.whenThinking.world.indexed
  have hthought := Stage.Reaches.rel
    (fun w => w.Orderly ∧ ∀ id, w.isAlive id = s.whenThinking.world.isAlive id) rel s.leads_think
    hrefl htrans ?_ ⟨h.whenThinking.world, fun _ => rfl⟩
  · exact ⟨hthought.1.1, hthought.2⟩
  · rintro r hr ⟨horderly, halive⟩
    have htouched := r.touched horderly.indexed
    refine ⟨⟨horderly.of_touched htouched, fun id => (htouched.isAlive id).trans (halive id)⟩, ?_⟩
    exact hruns r hr horderly ((halive r.env.agent).trans (hliving r hr))

theorem Orderly.step (h : s.Orderly) : s.step.Orderly := by
  have hthought : s.whenSettling.world.Orderly :=
    (h.rel_think (fun _ _ => True) (fun _ => trivial) (fun _ _ => trivial)
      fun _ _ _ _ => trivial).1
  have hsettled := (World.unfolds_settle s.whenSettling.world).steady
  have hmoved := (World.unfolds_move s.whenSettling.world.settle).steady
  refine ⟨hthought.settle.of_steady hmoved, ?_, h.whenThinking.assigned.think⟩
  exact hmoved.intents.trans hsettled.intents

/-- Every state that a run reaches is orderly. -/
theorem Reachable.orderly (h : Reachable engine scenario s) : s.Orderly := by
  induction h with
  | start => exact orderly_ofScenario engine scenario
  | spawn spawn _ ih => exact ih.spawn spawn
  | despawn _ hs' ih => exact ih.despawn hs'
  | hit _ hs' ih => exact ih.hit hs'
  | step _ ih => exact ih.step

/-- Thinking leaves everybody as alive as before, and the intents that it leaves are those of the
living. -/
theorem Orderly.alive_of_mem_intents (h : s.Orderly) :
    ∀ entry ∈ s.whenSettling.world.intents, s.whenSettling.world.isAlive entry.1 := by
  have hthought := (h.rel_think
    (fun w w' => (∀ entry ∈ w.intents, w.isAlive entry.1) → ∀ entry ∈ w'.intents, w'.isAlive entry.1)
    (fun _ => id) (fun h h' => h' ∘ h) ?_).2
  · refine hthought fun entry hentry => ?_
    rw [h.whenThinking.idle] at hentry
    cases hentry
  · intro r _ horderly halive hintents entry hentry
    have htouched := r.touched horderly.indexed
    obtain ⟨issued, heq⟩ := htouched.issued
    rw [heq] at hentry
    rw [htouched.isAlive]
    rcases List.mem_append.mp hentry with hwaiting | hissued
    · exact hintents entry hwaiting
    · obtain ⟨_, _, rfl⟩ := List.mem_map.mp hissued
      exact halive

/-- What the advance of the clock brings about, what courses of happenings bring about in which only the
living act, and what runs of leaves by the living bring about, a tick brings about as a whole. -/
theorem Orderly.rel_step (h : s.Orderly) (rel : World → World → Prop) (hrefl : ∀ w, rel w w)
    (htrans : ∀ {w w' w''}, rel w w' → rel w' w'' → rel w w'')
    (hadvance : rel s.world s.world.advance) (hclear : ∀ w, rel w { w with intents := [] })
    (hunfolds : ∀ {acts w w'}, World.Unfolds acts (fun _ _ _ => True) w w' →
      (∀ id, acts id → w.isAlive id) → rel w w')
    (hruns : ∀ r ∈ s.runs, r.stage.world.Orderly → r.stage.world.isAlive r.env.agent →
      rel r.stage.world r.after.world) : rel s.world s.step.world := by
  have hhit : rel s.world.advance s.whenSensing.world :=
    hunfolds (unfolds_whenSensing _ s) fun _ => False.elim
  have hsensed : rel s.whenSensing.world s.whenThinking.world :=
    hunfolds s.unfolds_whenThinking fun _ halive => halive
  have hthought : rel s.whenThinking.world s.whenSettling.world :=
    (h.rel_think rel hrefl htrans hruns).2
  have hsettled : rel { s.whenSettling.world with intents := [] } s.whenSettling.world.settle := by
    refine hunfolds ((World.unfolds_settle _).mono (fun _ => id) fun _ _ _ _ => trivial) ?_
    rintro id ⟨intent, hintent⟩
    exact h.alive_of_mem_intents (id, intent) hintent
  have hmoved : rel s.whenSettling.world.settle s.step.world :=
    hunfolds ((World.unfolds_move _).mono (fun _ => id) fun _ _ _ _ => trivial)
      fun _ halive => halive
  exact htrans hadvance <| htrans hhit <| htrans hsensed <| htrans hthought <|
    htrans (hclear _) <| htrans hsettled hmoved

/-! ## Operations that leave the agents in place -/

/-- What is done to a simulation whose agents stay in it. -/
inductive Operation where
  | hit (attacker victim : AgentId) (damage : Float)
  | step

/-- The simulation after an operation. A hit that is refused leaves it as it is. -/
def perform (s : Simulation) : Operation → Simulation
  | .hit attacker victim damage => (s.hit attacker victim damage).toOption.getD s
  | .step => s.step

/-- The simulation after operations. -/
def after (s : Simulation) (operations : List Operation) : Simulation := operations.foldl perform s

/-- A hit that is refused would have dealt no damage. -/
theorem perform_hit (s : Simulation) (attacker victim : AgentId) (damage : Float) :
    s.perform (.hit attacker victim damage) =
      { s with world := s.world.damage attacker victim damage } := by
  show (s.hit attacker victim damage).toOption.getD s = _
  unfold Simulation.hit
  split
  · rfl
  · next hunknown =>
    have hnone : s.world.body? victim = none := by
      unfold World.contains SortedMap.contains at hunknown
      exact Option.not_isSome_iff_eq_none.mp hunknown
    have hsame : s.world.damage attacker victim damage = s.world := by
      unfold World.damage World.damage?
      rw [hnone]
      rfl
    rw [hsame]
    rfl

theorem Reachable.perform (h : Reachable engine scenario s) (operation : Operation) :
    Reachable engine scenario (s.perform operation) := by
  cases operation with
  | hit attacker victim damage =>
    show Reachable engine scenario ((s.hit attacker victim damage).toOption.getD s)
    cases hs' : s.hit attacker victim damage with
    | ok s' => exact h.hit hs'
    | error cause => exact h
  | step => exact h.step

theorem Reachable.after (h : Reachable engine scenario s) (operations : List Operation) :
    Reachable engine scenario (s.after operations) := by
  induction operations generalizing s with
  | nil => exact h
  | cons operation rest ih => exact ih (h.perform operation)

end Simulation

end Menagerie
