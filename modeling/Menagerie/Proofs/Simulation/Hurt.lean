import Menagerie.Proofs.Sensor.Hurt
import Menagerie.Proofs.Simulation.Inward
import Menagerie.Proofs.Simulation.Moments
import Menagerie.Proofs.World.Intents

/-!
# Being hurt through ticks

In every state that a run reaches, what agents remember of when and by whom they were hurt goes together,
wherever in a tick the last hit was dealt, and runs out in good time after it (`World.Hurt`). Sensing makes
it exact for those who have the sensor (`World.Senses`), so that while brains think they remember their last
hit to the tick (`Reachable.hurt_exact`).
-/

namespace Menagerie

/-! ## Hurt agents -/

namespace World

variable {m : UInt64} {w w' w'' : World} {id me : AgentId} {may : Tick → MemoryKey → MemorySlot → Prop}

/-- Whether a world is orderly, and what is remembered of being hurt goes together. -/
structure Hurt (memoryTicks : UInt64) (w : World) : Prop where
  orderly : w.Orderly
  bodies : ∀ id b, w.body? id = some b → b.Hurt memoryTicks

namespace Hurt

theorem of_each (h : w.Hurt m) (horderly : w'.Orderly)
    (heach : w.Each (fun b b' => b.memory.now = w.now → b.Hurt m → b'.Hurt m) w') : w'.Hurt m := by
  refine ⟨horderly, fun id b' hb' => ?_⟩
  obtain ⟨b, hb, hrel⟩ := heach.exists_of_right hb'
  exact hrel (h.orderly.clocks id b hb) (h.bodies id b hb)

theorem insertBody (h : w.Hurt m) {b : Body} (hclock : b.memory.now = w.now) (hb : b.Hurt m) :
    (w.insertBody b).Hurt m := by
  refine ⟨h.orderly.insertBody hclock, fun id b' hb' => ?_⟩
  rw [body?_insertBody] at hb'
  split at hb'
  · cases hb'
    exact hb
  · exact h.bodies id b' hb'

theorem removeBody (h : w.Hurt m) (id : AgentId) : (w.removeBody id).Hurt m :=
  ⟨h.orderly.removeBody id, fun other b hb => h.bodies other b (body?_of_removeBody hb)⟩

theorem advance (h : w.Hurt m) : w.advance.Hurt m := by
  refine h.of_each h.orderly.advance ?_
  exact (w.inward_advance.and h.orderly.lapses_advance.bodies).imp fun hboth _ hhurt =>
    hhurt.of_lapses hboth.1.lastHit hboth.2

/-- Wherever in a tick a hit is dealt, it is the last one. -/
theorem damage (h : w.Hurt m) (attacker victim : AgentId) (amount : Float) :
    (w.damage attacker victim amount).Hurt m := by
  have hsteady : w.Steady Halting (w.damage attacker victim amount) :=
    w.steady_damage attacker victim amount
  refine h.of_each (h.orderly.of_steady hsteady) ?_
  refine w.each_damage (fun _ _ hhurt => hhurt) attacker victim amount fun b _ hclock hhurt => ?_
  rw [← hclock]
  exact hhurt.wounded attacker amount

/-- Leaves write nothing of being hurt. -/
theorem of_touched (h : w.Hurt m) (htouched : w.Touched may me w')
    (hmay : ∀ now key slot, HurtKeys key → ¬ may now key slot) : w'.Hurt m := by
  refine h.of_each (h.orderly.of_touched htouched) ?_
  exact (htouched.inward.and (htouched.lapses hmay).bodies).imp fun hboth _ hhurt => hhurt.of_lapses hboth.1.lastHit hboth.2

theorem carryOut (h : w.Hurt m) (me : AgentId) (intent : Intent) : (w.carryOut me intent).Hurt m := by
  have hcourse : w.Unfolds (fun _ => True) Halting (w.carryOut me intent) :=
    unfolds_carryOut trivial w intent
  refine h.of_each (h.orderly.of_steady hcourse.steady) ?_
  refine w.each_carryOut ?_ me intent fun b _ hclock hhurt => ?_
  · intro b b' hobeys _ hhurt
    refine hhurt.of_memory ?_ hobeys.memory
    rw [hobeys.rest]
  · rw [← hclock]
    exact hhurt.wounded me attackDamage

theorem settle (h : w.Hurt m) : w.settle.Hurt m :=
  have hidle : World.Hurt m { w with intents := [] } :=
    ⟨⟨h.orderly.indexed, h.orderly.clocks⟩, h.bodies⟩
  List.foldlRecOn w.intents _ hidle fun _ hw entry _ => hw.carryOut entry.1 entry.2

theorem move (h : w.Hurt m) : w.move.Hurt m := by
  refine h.of_each (h.orderly.of_steady w.unfolds_move.steady) ?_
  have hmoved : w.Each (fun b b' => b.Hurt m → b'.Hurt m) w.move := by
    refine each_move ?_ ?_ ?_ ?_ w
    · exact fun _ => id
    · exact fun h h' => h' ∘ h
    · intro speed target b hhurt
      obtain ⟨hlast, hmemory⟩ := stepBody_rest speed target b
      exact hhurt.of_memory hlast hmemory
    · exact fun b _ _ hhurt => hhurt.of_memory rfl (.inl rfl)
  exact hmoved.imp fun hhurt _ => hhurt

end Hurt

/-! ## Sensing -/

/-- Whether some agents have room for the memories of being hurt, if they are there. -/
def RoomForHurt (w : World) (agents : AgentId → Prop) : Prop :=
  ∀ id b, agents id → w.body? id = some b → ∀ key, HurtKeys key → b.memory.isRegistered key

/-- Whether sensing leads from one world to another, and some agents feel in it how they were hurt, if they
are alive. -/
structure Senses (memoryTicks : UInt64) (feeling : AgentId → Prop) (w w' : World) : Prop where
  steady : w.Steady (fun _ _ _ => True) w'
  bodies : w.Each (Body.Sensed memoryTicks) w'
  feels : ∀ id b, feeling id → w'.body? id = some b → b.view.isAlive → b.Feels memoryTicks

namespace Senses

variable {feeling feeling' agents : AgentId → Prop}

theorem refl (w : World) : w.Senses m (fun _ => False) w :=
  ⟨.refl w, .refl Body.Sensed.refl w, fun _ _ => False.elim⟩

theorem mono (h : w.Senses m feeling w') (hfeeling : ∀ id, feeling' id → feeling id) :
    w.Senses m feeling' w' :=
  ⟨h.steady, h.bodies, fun id b hid => h.feels id b (hfeeling id hid)⟩

theorem hurt (h : w.Senses m feeling w') (hw : w.Hurt m) : w'.Hurt m :=
  hw.of_each (hw.orderly.of_steady h.steady) (h.bodies.imp fun hsensed _ => hsensed.hurt)

theorem room (h : w.Senses m feeling w') (hw : w.RoomForHurt agents) : w'.RoomForHurt agents := by
  intro id b' hid hb' key hkey
  obtain ⟨b, hb, hsensed⟩ := h.bodies.exists_of_right hb'
  rw [hsensed.registered]
  exact hw id b hid hb key hkey

/-- What was felt before is felt still. -/
theorem trans (hw : w.Hurt m) (h : w.Senses m feeling w') (h' : w'.Senses m feeling' w'') :
    w.Senses m (fun id => feeling id ∨ feeling' id) w'' := by
  refine ⟨h.steady.trans h'.steady, h.bodies.trans Body.Sensed.trans h'.bodies, ?_⟩
  rintro id b'' (hfelt | hfelt) hb'' halive
  · obtain ⟨b', hb', hsensed⟩ := h'.bodies.exists_of_right hb''
    have halive' : b'.view.isAlive := by
      rw [← hsensed.inward.view]
      exact halive
    exact hsensed.feels ((h.hurt hw).bodies id b' hb') (h.feels id b' hfelt hb' halive')
  · exact h'.feels id b'' hfelt hb'' halive

theorem foldl {α : Type} {f : World → α → World} {feeling : α → AgentId → Prop} (l : List α)
    (h : ∀ a ∈ l, ∀ w : World, w.Hurt m → w.RoomForHurt agents → w.Senses m (feeling a) (f w a))
    (hw : w.Hurt m) (hroom : w.RoomForHurt agents) :
    w.Senses m (fun id => ∃ a ∈ l, feeling a id) (l.foldl f w) := by
  induction l generalizing w with
  | nil => exact (refl w).mono fun _ ⟨_, ha, _⟩ => nomatch ha
  | cons a rest ih =>
    rw [List.forall_mem_cons] at h
    have here := h.1 w hw hroom
    refine (here.trans hw (ih h.2 (here.hurt hw) (here.room hroom))).mono fun id hid => ?_
    rwa [List.exists_mem_cons_iff] at hid

end Senses

end World

namespace Simulation

variable {engine : Engine} {settings : SensorSettings} {scenario : Scenario} {s : Simulation}
  {agents : AgentId → Prop} {m : UInt64} {w : World}

theorem not_hurtKeys_of_ne {kind : SensorKind} (hkind : kind ≠ .hurtBy) {key : MemoryKey}
    (hkey : HurtKeys key) : key ∉ kind.memories := by
  rcases hkey with rfl | rfl
  · cases kind <;> simp [SensorKind.memories] at hkind ⊢
  · cases kind <;> simp [SensorKind.memories] at hkind ⊢

/-- The sensor is used on every tick. -/
theorem senseKind_hurtBy (hsensor : engine.sensors .hurtBy = some (Sensor.ofKind settings .hurtBy))
    (id : AgentId) (w : World) :
    senseKind engine id w .hurtBy =
      (w.updateMemories id (Sensor.hurtBy settings.hurtMemoryTicks id w)).2 := by
  have hturn : w.now.isMultipleOf 1 := by
    unfold Tick.isMultipleOf
    simp
  unfold senseKind
  rw [hsensor]
  exact if_pos hturn

theorem senses_senseKind (honest : engine.Honest)
    (hsensor : engine.sensors .hurtBy = some (Sensor.ofKind settings .hurtBy)) {id : AgentId}
    {kind : SensorKind} (hid : kind = .hurtBy → agents id) (hw : w.Hurt settings.hurtMemoryTicks)
    (hroom : w.RoomForHurt agents) :
    w.Senses settings.hurtMemoryTicks (fun other => other = id ∧ kind = .hurtBy)
      (senseKind engine id w kind) := by
  have hcourse : w.Unfolds (fun _ => True) (fun _ key _ => key ∈ kind.memories)
      (senseKind engine id w kind) :=
    unfolds_senseKind engine trivial w kind fun sensor hsensor id w u hu _ _ =>
      honest kind sensor hsensor id w u hu
  have hsteady : w.Steady (fun _ _ _ => True) (senseKind engine id w kind) :=
    (hcourse.mono (fun _ _ => trivial) fun _ _ _ _ => trivial).steady
  by_cases hkind : kind = .hurtBy
  · subst hkind
    have hbody := World.body?_sense_hurtBy (m := settings.hurtMemoryTicks) (hw.orderly.clocks id)
      fun b => hroom id b (hid rfl)
    rw [senseKind_hurtBy hsensor] at hsteady ⊢
    refine ⟨hsteady, fun other => ?_, ?_⟩
    · rw [hbody]
      split
      · next heq =>
        subst heq
        cases hb : w.body? other with
        | none => exact .none
        | some b => exact .some (Body.sensed_felt (hroom other b (hid rfl) hb))
      · exact optionRel_refl Body.Sensed.refl _
    · rintro _ b' ⟨rfl, _⟩ hb' _
      rw [hbody, if_pos rfl] at hb'
      obtain ⟨b, hb, rfl⟩ := Option.map_eq_some_iff.mp hb'
      exact (hw.bodies _ b hb).feels_felt (hroom _ b (hid rfl) hb)
  · refine ⟨hsteady, ?_, fun other _ hother => absurd hother.2 hkind⟩
    exact ((inward_senseKind engine id w kind).and hcourse.steady.bodies).imp fun hboth =>
      Body.sensed_of_touched hboth.1 hboth.2.memory fun _ _ _ hkey => not_hurtKeys_of_ne hkind hkey

/-- An agent that is alive feels how it was hurt if it has the sensor. -/
theorem senses_senseFor (honest : engine.Honest)
    (hsensor : engine.sensors .hurtBy = some (Sensor.ofKind settings .hurtBy)) {entry : AgentId × Brain}
    (hagents : .hurtBy ∈ entry.2.sensors.keys → agents entry.1)
    (hw : w.Hurt settings.hurtMemoryTicks) (hroom : w.RoomForHurt agents) :
    w.Senses settings.hurtMemoryTicks (fun id => id = entry.1 ∧ .hurtBy ∈ entry.2.sensors.keys)
      (senseFor engine w entry) := by
  unfold senseFor
  split
  · have hkind : ∀ kind ∈ entry.2.sensors.keys, ∀ w : World, w.Hurt settings.hurtMemoryTicks →
        w.RoomForHurt agents → w.Senses settings.hurtMemoryTicks
          (fun id => id = entry.1 ∧ kind = .hurtBy) (senseKind engine entry.1 w kind) :=
      fun kind hkind w hw hroom =>
        senses_senseKind honest hsensor (fun heq => hagents (heq ▸ hkind)) hw hroom
    exact (World.Senses.foldl _ hkind hw hroom).mono fun id hid => ⟨_, hid.2, hid.1, rfl⟩
  · next hdead =>
    refine ⟨.refl w, .refl Body.Sensed.refl w, ?_⟩
    rintro _ b ⟨rfl, _⟩ hb halive
    exact absurd ((World.isAlive_of_body? hb).trans halive) hdead

/-- Whether an agent has the sensor for being hurt. -/
def SensesHurt (s : Simulation) (id : AgentId) : Prop :=
  ∃ brain, s.brains.get? id = some brain ∧ .hurtBy ∈ brain.sensors.keys

theorem Sound.roomForHurt (h : Sound engine s) : s.world.RoomForHurt s.SensesHurt := by
  rintro id b ⟨brain, hbrain, hkind⟩ hb key hkey
  obtain ⟨_, hmanned, _, _, hbody, _, hregistered⟩ := h.coherent.brains id brain hbrain
  cases hb.symm.trans hbody
  refine hregistered key (hmanned.sensors .hurtBy hkind key ?_)
  rcases hkey with rfl | rfl
  · exact List.mem_cons_self
  · exact List.mem_cons_of_mem _ List.mem_cons_self

theorem Sound.senses_sense (honest : engine.Honest)
    (hsensor : engine.sensors .hurtBy = some (Sensor.ofKind settings .hurtBy)) (h : Sound engine s)
    (hw : s.world.Hurt settings.hurtMemoryTicks) :
    s.world.Senses settings.hurtMemoryTicks s.SensesHurt s.sense.world := by
  have hentry : ∀ entry ∈ s.brains.toList, ∀ w : World, w.Hurt settings.hurtMemoryTicks →
      w.RoomForHurt s.SensesHurt →
      w.Senses settings.hurtMemoryTicks (fun id => id = entry.1 ∧ .hurtBy ∈ entry.2.sensors.keys)
        (senseFor s.engine w entry) := by
    intro entry hentry w hw hroom
    rw [h.engine]
    refine senses_senseFor honest hsensor (fun hkind => ⟨entry.2, ?_, hkind⟩) hw hroom
    exact SortedMap.get?_eq_some_iff.mpr hentry
  refine (World.Senses.foldl s.brains.toList hentry hw h.roomForHurt).mono ?_
  rintro id ⟨brain, hbrain, hkind⟩
  exact ⟨(id, brain), SortedMap.get?_eq_some_iff.mp hbrain, rfl, hkind⟩

/-! ## Runs -/

theorem hurt_spawn (h : s.world.Hurt m) (spawn : Spawn) : (s.spawn spawn).2.world.Hurt m := by
  obtain ⟨_, random, heq, _⟩ | ⟨id, t, brain, random, _, _, heq⟩ := s.spawn_cases spawn
  · rw [heq]
    exact h
  · rw [heq]
    exact h.insertBody rfl (Body.hurt_of_blank (blank_bodyOf t _ brain _) rfl)

theorem hurt_dealHits (h : s.world.Hurt m) : s.dealHits.world.Hurt m :=
  List.foldlRecOn (motive := World.Hurt m) _ _ h
    fun _ hw (hit : ScriptedHit) _ => hw.damage hit.attacker hit.victim hit.damage

/-- Leaves write nothing of being hurt. -/
theorem not_mayKeep_of_hurtKeys (l : Leaf) (now : Tick) (key : MemoryKey) (slot : MemorySlot)
    (hkey : HurtKeys key) : ¬ MayKeep l.touched l.pause? now key slot := by
  rintro (htouched | ⟨ticks, hpause, _⟩)
  · rcases hkey with rfl | rfl <;> cases l <;> simp [Leaf.touched] at htouched
  · rcases hkey with rfl | rfl <;> cases l <;> simp [Leaf.pause?] at hpause

theorem Orderly.hurt_whenSettling (h : s.Orderly) (hw : s.whenThinking.world.Hurt m) :
    s.whenSettling.world.Hurt m :=
  (h.rel_think (fun w w' => w.Hurt m → w'.Hurt m) (fun _ => id) (fun h h' => h' ∘ h)
    fun r _ horderly _ hw => hw.of_touched (r.touched horderly.indexed)
      (not_mayKeep_of_hurtKeys r.leaf)).2 hw

theorem hurt_whenSensing (h : s.world.Hurt m) : s.whenSensing.world.Hurt m :=
  hurt_dealHits (s := { s with world := s.world.advance }) h.advance

theorem Reachable.hurt (honest : engine.Honest)
    (hsensor : engine.sensors .hurtBy = some (Sensor.ofKind settings .hurtBy))
    (h : Reachable engine scenario s) : s.world.Hurt settings.hurtMemoryTicks := by
  induction h with
  | start =>
    refine ofScenario_of_spawn (p := fun s => s.world.Hurt settings.hurtMemoryTicks) engine scenario
      (fun _ _ => ⟨⟨?_, ?_⟩, ?_⟩) (fun _ spawn h => hurt_spawn h spawn) fun _ _ h => h
    · exact fun _ _ hb => nomatch hb
    · exact fun _ _ hb => nomatch hb
    · exact fun _ _ hb => nomatch hb
  | spawn spawn _ ih => exact hurt_spawn ih spawn
  | despawn _ hs' ih =>
    rw [eq_of_despawn hs']
    exact ih.removeBody _
  | hit _ hs' ih =>
    rw [eq_of_hit hs']
    exact ih.damage ..
  | step hs ih =>
    have hsensed := ((hs.sound honest).whenSensing.senses_sense honest hsensor
      (hurt_whenSensing ih)).hurt (hurt_whenSensing ih)
    exact (hs.orderly.hurt_whenSettling hsensed).settle.move

/-- Between operations, when and by whom an agent was hurt is remembered both or neither, and both until
one tick. When sensors have sensed, an agent that is alive and has the sensor remembers its last hit if that
was dealt less than so many ticks ago, until so many ticks after it, and otherwise remembers none. -/
theorem Reachable.hurt_exact (honest : engine.Honest)
    (hsensor : engine.sensors .hurtBy = some (Sensor.ofKind settings .hurtBy))
    (h : Reachable engine scenario s) :
    (∀ id b, s.world.body? id = some b → b.Unhurt ∨ ∃ hit attacker runsOut,
      b.memory.state .hurtBy = .present hit (some runsOut) ∧
      b.memory.state .hurtByEntity = .present attacker (some runsOut)) ∧
    ∀ id brain b, s.brains.get? id = some brain → .hurtBy ∈ brain.sensors.keys →
      s.whenThinking.world.body? id = some b → b.view.isAlive →
      (∀ attacker hitAt, b.lastHit = some (attacker, hitAt) →
        s.whenThinking.world.now.count.toNat <
          min (hitAt.count.toNat + settings.hurtMemoryTicks.toNat) (UInt64.size - 1) →
        ∃ runsOut : Tick, runsOut.count.toNat =
            min (hitAt.count.toNat + settings.hurtMemoryTicks.toNat) (UInt64.size - 1) ∧
          b.Bears attacker hitAt runsOut) ∧
      ((∀ attacker hitAt, b.lastHit = some (attacker, hitAt) →
        min (hitAt.count.toNat + settings.hurtMemoryTicks.toNat) (UInt64.size - 1) ≤
          s.whenThinking.world.now.count.toNat) → b.Unhurt) := by
  have hhurt := h.hurt honest hsensor
  refine ⟨fun id b hb => ?_, fun id brain b hbrain hkind hb halive => ?_⟩
  · refine (hhurt.bodies id b hb).paired.imp_right ?_
    rintro ⟨hit, attacker, runsOut, hstate, hstate', _⟩
    exact ⟨hit, attacker, runsOut, hstate, hstate'⟩
  · have hsenses := (h.sound honest).whenSensing.senses_sense honest hsensor (hurt_whenSensing hhurt)
    have hfeels : b.Feels settings.hurtMemoryTicks := hsenses.feels id b ⟨brain, hbrain, hkind⟩ hb halive
    have hclock : b.memory.now = s.whenThinking.world.now :=
      (hsenses.hurt (hurt_whenSensing hhurt)).orderly.clocks id b hb
    simp only [← Tick.toNat_after, ← hclock]
    refine ⟨fun attacker hitAt hlast hleft => ⟨_, rfl, hfeels.fresh attacker hitAt hlast fun hle => ?_⟩,
      fun hhealed => hfeels.healed fun attacker hitAt hlast =>
        UInt64.le_iff_toNat_le.mpr (hhealed attacker hitAt hlast)⟩
    exact absurd (UInt64.le_iff_toNat_le.mp hle) (Nat.not_le.mpr hleft)

/-- A wolf is hit in the first tick, and in the second one it remembers this until the hundredth after
the hit. -/
theorem Reachable.hurt_exact_wolf :
    let wolf : Template :=
      { name := "wolf", species := "wolf", enabled := true, maxHealth := 20.0
        defaultActivity := .idle, overrides := .empty, declarations := [], herd := {}
        activities := [⟨.core, [⟨0, .leaf (.retaliate (.bool true))⟩]⟩,
          ⟨.idle, [⟨0, .leaf .doNothing⟩]⟩] }
    let engine : Engine := { templates := { templates := .ofList [("wolf", wolf)] } }
    let scenario : Scenario :=
      { agents := [{ template := "wolf", position := ⟨0, 0, 0⟩ },
          { template := "wolf", position := ⟨1, 0, 0⟩ }]
        hits := [⟨⟨1⟩, ⟨2⟩, ⟨1⟩, 3.0⟩] }
    let s := (ofScenario engine scenario).step
    engine.Honest ∧ engine.sensors .hurtBy = some (Sensor.ofKind {} .hurtBy) ∧
      Reachable engine scenario s ∧ ∃ brain b, s.brains.get? ⟨1⟩ = some brain ∧
        .hurtBy ∈ brain.sensors.keys ∧ s.whenThinking.world.body? ⟨1⟩ = some b ∧ b.view.isAlive ∧
        b.lastHit = some (⟨2⟩, ⟨1⟩) ∧
        ∃ runsOut : Tick, runsOut.count.toNat = 101 ∧ b.Bears ⟨2⟩ ⟨1⟩ runsOut := by
  intro wolf engine scenario s
  have honest : engine.Honest := by
    rintro kind _ ⟨⟩
    exact Sensor.honest_ofKind _ kind
  have hsensor : engine.sensors .hurtBy = some (Sensor.ofKind {} .hurtBy) := rfl
  have reachable : Reachable engine scenario s := .step .start
  have hsenses : (s.brains.get? ⟨1⟩).any fun brain => brain.sensors.keys.contains .hurtBy := by
    decide +kernel
  have hhit : (s.whenThinking.world.body? ⟨1⟩).any fun b =>
      b.view.isAlive && b.lastHit == some (⟨2⟩, ⟨1⟩) := by decide +kernel
  obtain ⟨brain, hbrain, hkind⟩ := (Option.any_eq_true _ _).mp hsenses
  obtain ⟨b, hb, hhit⟩ := (Option.any_eq_true _ _).mp hhit
  rw [List.contains_iff_mem] at hkind
  rw [Bool.and_eq_true, beq_iff_eq] at hhit
  obtain ⟨halive, hlast⟩ := hhit
  have hexact := (Reachable.hurt_exact honest hsensor reachable).2 ⟨1⟩ brain b hbrain hkind hb halive
  obtain ⟨runsOut, hcount, hbears⟩ := hexact.1 ⟨2⟩ ⟨1⟩ hlast (by decide +kernel)
  exact ⟨honest, hsensor, reachable, brain, b, hbrain, hkind, hb, halive, hlast, runsOut,
    hcount.trans (by decide +kernel), hbears⟩

end Simulation

end Menagerie
