import Menagerie.Proofs.Simulation.Moments

/-!
# Pauses run their time

A leaf that pauses sets a flag for some ticks under a key of `MemoryKey.cooldowns`. Nothing else is ever
done to these keys, and a leaf that pauses requires that no pause is on: so a pause that is on lasts its
time, whatever leaves of whatever buckets and activities are run meanwhile
(`Reachable.pauses_last`).
-/

namespace Menagerie

variable {id : AgentId} {key : MemoryKey}

namespace MemoryKey

/-- The keys under which leaves set pauses. -/
def cooldowns : List MemoryKey := [.pathCooldown, .attackCooling, .pollinateCooldown, .disableWalkToItem]

theorem not_mem_memories (kind : SensorKind) : ∀ key ∈ cooldowns, key ∉ kind.memories := by
  cases kind <;> decide

theorem leftToLeaves_cooldowns : LeftToLeaves (· ∈ cooldowns) := by
  intro key hkey
  refine ⟨?_, fun kind => not_mem_memories kind key hkey⟩
  rintro rfl
  exact absurd hkey (by decide)

end MemoryKey

open MemoryKey

/-- No leaf writes or clears these keys as it likes. -/
theorem Leaf.not_mem_touched (l : Leaf) : ∀ key ∈ cooldowns, key ∉ l.touched := by
  cases l <;> simp only [touched] <;> decide

/-- The state of a key that an agent remembers. -/
def World.state? (w : World) (id : AgentId) (key : MemoryKey) : Option MemoryState :=
  (w.memory? id).map fun memory => memory.state key

theorem World.state?_of_body? {w : World} {b : Body} (hb : w.body? id = some b) :
    w.state? id key = some (b.memory.state key) := by
  unfold state? memory?
  rw [hb]
  rfl

theorem World.exists_of_state? {w : World} {state : MemoryState} (h : w.state? id key = some state) :
    ∃ b, w.body? id = some b ∧ b.memory.state key = state := by
  obtain ⟨memory, hmemory, hstate⟩ := Option.map_eq_some_iff.mp h
  obtain ⟨b, hb, rfl⟩ := Option.map_eq_some_iff.mp hmemory
  exact ⟨b, hb, hstate⟩

namespace LeafRun

/-- Whether a leaf that requires that a key is empty is run for an agent, and its requirements hold. -/
def Guarded (r : LeafRun) (id : AgentId) (key : MemoryKey) : Prop :=
  r.env.agent = id ∧ .empty key ∈ r.leaf.needs.requirements ∧
    (r.stage.world.memory? id).any fun memory => memory.satisfiesAll r.leaf.needs.requirements

/-- Whether such a run leaves a pause of so many ticks under the key. -/
def Pauses (r : LeafRun) (id : AgentId) (key : MemoryKey) (ticks : UInt64) : Prop :=
  r.Guarded id key ∧ (r.after.world.memory? id).any fun memory =>
    memory.slots.get? key = some (some (.flag, some (r.stage.world.now.after ticks)))

instance (r : LeafRun) (id : AgentId) (key : MemoryKey) : Decidable (r.Guarded id key) :=
  inferInstanceAs (Decidable (_ ∧ _ ∧ _))

instance (r : LeafRun) (id : AgentId) (key : MemoryKey) (ticks : UInt64) :
    Decidable (r.Pauses id key ticks) := inferInstanceAs (Decidable (_ ∧ _))

/-- Where a run is guarded by a key, the key is empty. -/
theorem Guarded.state? {r : LeafRun} (h : r.Guarded id key) :
    r.stage.world.state? id key = some .registered := by
  obtain ⟨_, hrequired, hany⟩ := h
  obtain ⟨memory, hmemory, hall⟩ := (Option.any_eq_true _ _).mp hany
  have hempty : (memory.state key).isEmpty := List.all_eq_true.mp hall _ hrequired
  unfold World.state?
  rw [hmemory]
  cases hstate : memory.state key with
  | registered => simp [hstate]
  | absent | present =>
    rw [hstate] at hempty
    cases hempty

/-- A run of a leaf leaves such a key as it is, or sets a pause under it. -/
theorem same_or_pauses (r : LeafRun) (horderly : r.stage.world.Orderly) (hkey : key ∈ cooldowns)
    {b : Body} (hb : r.stage.world.body? id = some b) :
    r.after.world.state? id key = r.stage.world.state? id key ∨ ∃ ticks, r.Pauses id key ticks := by
  have htouched := r.touched horderly.indexed
  by_cases hid : r.env.agent = id
  · subst hid
    have hown := htouched.own
    rw [hb] at hown
    obtain ⟨b', hb', hmine⟩ := optionRel_some_left.mp hown
    rcases hmine.memory.slot key with hsame | ⟨slot, hslot, hmay⟩
    · rw [World.state?_of_body? hb', World.state?_of_body? hb,
        Blackboard.state_congr hmine.memory.now hsame]
      exact .inl rfl
    · obtain ⟨ticks, hpause, rfl⟩ := hmay.resolve_left (r.leaf.not_mem_touched key hkey)
      rcases r.leaf.run_cases r.env r.stage with ⟨memory, hmemory, hall, _⟩ | hidle
      · refine .inr ⟨ticks, ⟨rfl, Leaf.empty_of_pause? hpause, ?_⟩, ?_⟩
        · exact (Option.any_eq_true _ _).mpr ⟨memory, hmemory, hall⟩
        · refine (Option.any_eq_true _ _).mpr ⟨b'.memory, Option.map_eq_some_iff.mpr ⟨b', hb', rfl⟩, ?_⟩
          rw [decide_eq_true_iff, hslot, horderly.clocks _ b hb]
      · unfold after
        rw [hidle]
        exact .inl rfl
  · have hother := htouched.others id (Ne.symm hid)
    rw [hb] at hother
    obtain ⟨b', hb', halike⟩ := optionRel_some_left.mp hother
    rw [World.state?_of_body? hb', World.state?_of_body? hb, halike.memory.state key]
    exact .inl rfl

end LeafRun

namespace MemoryState

variable {value : MemoryValue} {runsOut now : Tick}

theorem lapsed_present_eq_registered :
    (present value (some runsOut)).lapsed now = .registered ↔ runsOut ≤ now := by
  by_cases h : runsOut ≤ now
  · simp [lapsed, h]
  · simp [lapsed, h]

end MemoryState

/-! ## From moment to moment -/

namespace Moment

variable {m m' : Moment} {state : MemoryState}

/-- From one moment to the next a pause lapses, or a new one is set where none was. -/
theorem Follows.lapsed_or_pauses (h : Follows (· ∈ cooldowns) m m') (hkey : key ∈ cooldowns)
    (hstate : m.world.state? id key = some (state.lapsed m.world.now)) :
    m'.world.state? id key = some (state.lapsed m'.world.now) ∨
      m.world.state? id key = some .registered ∧
        ∃ r ticks, m'.cause = some r ∧ r.Pauses id key ticks := by
  obtain ⟨b, hb, hbstate⟩ := World.exists_of_state? hstate
  cases hcause : m'.cause with
  | none =>
    have hlapses := h.lapses hcause
    obtain ⟨b', hb', hlapsed⟩ := hlapses.bodies.exists_of_left hb
    refine .inl ?_
    rw [World.state?_of_body? hb', hlapsed.state key hkey, hbstate, h.after.clocks id b' hb',
      MemoryState.lapsed_lapsed hlapses.now]
  | some r =>
    obtain ⟨hbefore, hafter⟩ := h.runs r hcause
    rcases r.same_or_pauses (hbefore ▸ h.before) hkey (hbefore ▸ hb) with hsame | ⟨ticks, hpauses⟩
    · rw [← hafter, hsame, hbefore, hstate, hafter, h.now_of_cause hcause]
      exact .inl rfl
    · rw [← hbefore]
      exact .inr ⟨hpauses.1.state?, r, ticks, rfl, hpauses⟩

/-- Over a chain of moments a pause lapses, or a new one is set once it has run out. -/
theorem lapsed_or_pauses {value : MemoryValue} {runsOut : Tick} {l : List Moment}
    (hchain : (m :: l).IsChain (Follows (· ∈ cooldowns))) (hkey : key ∈ cooldowns)
    (hm : m.world.state? id key =
      some ((MemoryState.present value (some runsOut)).lapsed m.world.now))
    (hlast : (m :: l).getLast? = some m') :
    m'.world.state? id key =
        some ((MemoryState.present value (some runsOut)).lapsed m'.world.now) ∨
      runsOut ≤ m'.world.now ∧ ∃ x ∈ l, runsOut ≤ x.world.now ∧
        ∃ r ticks, x.cause = some r ∧ r.Pauses id key ticks := by
  -- Up to each moment the pause has only lapsed; the first run that sets another ends the induction.
  induction l generalizing m with
  | nil =>
    cases hlast
    exact .inl hm
  | cons x rest ih =>
    obtain ⟨hnext, hrest⟩ := List.isChain_cons_cons.mp hchain
    rw [List.getLast?_cons_cons] at hlast
    rcases hnext.lapsed_or_pauses hkey hm with hx | ⟨hfree, r, ticks, hcause, hpauses⟩
    · refine (ih hrest hx hlast).imp_right ?_
      rintro ⟨hlate, x', hx', hpaused⟩
      exact ⟨hlate, x', List.mem_cons_of_mem x hx', hpaused⟩
    · rw [hm, Option.some.injEq, MemoryState.lapsed_present_eq_registered] at hfree
      have hlate : runsOut ≤ x.world.now := Tick.le_trans hfree hnext.now_le
      refine .inr ⟨?_, x, List.mem_cons_self, hlate, r, ticks, hcause, hpauses⟩
      have hall := hrest.induction (fun y => runsOut ≤ y.world.now) _
        (fun _ _ hfollows hle => Tick.le_trans hle hfollows.now_le) fun _ => hlate
      exact hall m' (List.mem_of_getLast? hlast)

/-- A leaf that requires that there is no pause runs once the pause has run out. -/
theorem runsOut_le_of_guarded {value : MemoryValue} {runsOut : Tick} {between : List Moment}
    {r : LeafRun} (hchain : (m :: (between ++ [m'])).IsChain (Follows (· ∈ cooldowns)))
    (hkey : key ∈ cooldowns)
    (hm : m.world.state? id key =
      some ((MemoryState.present value (some runsOut)).lapsed m.world.now))
    (hcause : m'.cause = some r) (hguarded : r.Guarded id key) : runsOut ≤ m'.world.now := by
  -- What a run requires is asked of the moment before it.
  obtain ⟨hbefore, x, hx, hfollows⟩ := exists_last_of_isChain hchain
  refine Tick.le_trans ?_ hfollows.now_le
  rcases lapsed_or_pauses hbefore hkey hm hx with hstate | ⟨hlate, _⟩
  · have hfree := hguarded.state?
    rw [(hfollows.runs r hcause).1, hstate, Option.some.injEq,
      MemoryState.lapsed_present_eq_registered] at hfree
    exact hfree
  · exact hlate

end Moment

namespace Simulation

variable {engine : Engine} {scenario : Scenario} {s : Simulation}

/-- In every state that a run reaches, whatever hits and ticks follow, a pause that an agent has is the
same at each later moment until it runs out, and there is none from then on until a leaf sets one
again. So what is guarded by a pause happens no sooner than the pause was to last after the run that set
it, as far as ticks are counted. -/
theorem Reachable.pauses_last (honest : engine.Honest) (h : Reachable engine scenario s)
    {operations : List Operation} {before between later : List Moment} {m m' : Moment}
    (hhistory : s.history operations = before ++ m :: (between ++ m' :: later)) (id : AgentId)
    {key : MemoryKey} (hkey : key ∈ cooldowns) :
    (∀ value runsOut, m.world.state? id key = some (.present value (some runsOut)) →
      (¬ runsOut ≤ m'.world.now →
        m'.world.state? id key = some (.present value (some runsOut))) ∧
      (runsOut ≤ m'.world.now → m'.world.state? id key = some .registered ∨
        ∃ x ∈ between ++ [m'], runsOut ≤ x.world.now ∧
          ∃ r ticks, x.cause = some r ∧ r.Pauses id key ticks)) ∧
    ∀ r r' ticks, m.cause = some r → r.Pauses id key ticks → m'.cause = some r' →
      r'.Guarded id key →
      min (m.world.now.count.toNat + ticks.toNat) (UInt64.size - 1) ≤ m'.world.now.count.toNat := by
  have hchain : (m :: (between ++ [m'])).IsChain (Moment.Follows (· ∈ cooldowns)) := by
    have hall := h.isChain_history honest leftToLeaves_cooldowns operations
    rw [hhistory] at hall
    exact (List.isChain_cons_split.mp hall.right_of_append).1
  have hlast : (m :: (between ++ [m'])).getLast? = some m' := by
    rw [← List.cons_append, List.getLast?_concat]
  have hmember : m ∈ s.history operations := by
    rw [hhistory]
    exact List.mem_append_right _ List.mem_cons_self
  obtain ⟨horderly, hended⟩ := h.of_mem_history honest leftToLeaves_cooldowns operations m hmember
  refine ⟨?_, ?_⟩
  · intro value runsOut hstate
    have hlapsed : m.world.state? id key =
        some ((MemoryState.present value (some runsOut)).lapsed m.world.now) := by
      obtain ⟨b, hb, hbstate⟩ := World.exists_of_state? hstate
      rw [hstate, ← hbstate, ← horderly.clocks id b hb, Blackboard.lapsed_state]
    have hthen := Moment.lapsed_or_pauses hchain hkey hlapsed hlast
    refine ⟨fun hearly => ?_, fun hlate => ?_⟩
    · rw [hthen.resolve_right fun hpaused => hearly hpaused.1, MemoryState.lapsed, if_neg hearly]
    · refine hthen.imp (fun hstate' => ?_) fun hpaused => hpaused.2
      rw [hstate', MemoryState.lapsed_present_eq_registered.mpr hlate]
  · intro r r' ticks hcause hpauses hcause' hguarded
    obtain ⟨hafter, hnow⟩ := hended r hcause
    have hlapsed : m.world.state? id key = some ((MemoryState.present .flag
        (some (m.world.now.after ticks))).lapsed m.world.now) := by
      obtain ⟨memory, hmemory, hslot⟩ := (Option.any_eq_true _ _).mp hpauses.2
      rw [hafter] at hmemory
      obtain ⟨b, hb, rfl⟩ := Option.map_eq_some_iff.mp hmemory
      rw [World.state?_of_body? hb, Blackboard.state_of_slot (of_decide_eq_true hslot),
        horderly.clocks id b hb, hnow]
    have hlate := Moment.runsOut_le_of_guarded hchain hkey hlapsed hcause' hguarded
    rw [← Tick.toNat_after]
    exact UInt64.le_iff_toNat_le.mp hlate

/-- A wolf has two tasks that pause one another. It walks in the first tick and pauses for three, so it
walks again in the fourth. -/
theorem Reachable.pauses_last_wolf :
    let wandering (cooldown : Float) : LeafSpec :=
      .wander (.bool true) (.number 1.0) (.number 1.0) (.number 1.0) (.number 1.0) (.number cooldown)
    let wolf : Template :=
      { name := "wolf", species := "wolf", enabled := true, maxHealth := 20.0
        defaultActivity := .core, overrides := .empty, declarations := [], herd := {}
        activities := [⟨.core, [⟨0, .leaf (wandering 3.0)⟩, ⟨1, .leaf (wandering 5.0)⟩]⟩] }
    let engine : Engine := { templates := { templates := .ofList [("wolf", wolf)] } }
    let scenario : Scenario := { agents := [{ template := "wolf", position := ⟨0, 64, 0⟩ }] }
    let s := ofScenario engine scenario
    ∃ before m between m' later,
      s.history [.step, .step, .step, .step] = before ++ m :: (between ++ m' :: later) ∧
      m.world.state? ⟨1⟩ .pathCooldown = some (.present .flag (some ⟨4⟩)) ∧
      (m'.world.state? ⟨1⟩ .pathCooldown = some .registered ∨
        ∃ x ∈ between ++ [m'], ⟨4⟩ ≤ x.world.now ∧
          ∃ r ticks, x.cause = some r ∧ r.Pauses ⟨1⟩ .pathCooldown ticks) ∧
      ∃ r r', m.cause = some r ∧ r.Pauses ⟨1⟩ .pathCooldown 3 ∧ m'.cause = some r' ∧
        r'.Guarded ⟨1⟩ .pathCooldown ∧
        min (m.world.now.count.toNat + (3 : UInt64).toNat) (UInt64.size - 1) ≤
          m'.world.now.count.toNat := by
  intro wandering wolf engine scenario s
  have honest : engine.Honest := by
    rintro kind _ ⟨⟩
    exact Sensor.honest_ofKind _ kind
  have reachable : Reachable engine scenario s := .start
  have hwalk : ((s.history [.step, .step, .step, .step])[4]?).any (fun m =>
      m.world.state? ⟨1⟩ .pathCooldown = some (.present .flag (some ⟨4⟩)) ∧
        m.cause.any fun r => r.Pauses ⟨1⟩ .pathCooldown 3) := by decide +kernel
  have hagain : ((s.history [.step, .step, .step, .step])[25]?).any (fun m' =>
      ⟨4⟩ ≤ m'.world.now ∧ m'.cause.any fun r' => r'.Guarded ⟨1⟩ .pathCooldown) := by decide +kernel
  generalize hhistory : s.history [.step, .step, .step, .step] = history at hwalk hagain ⊢
  obtain ⟨m, hm, hfacts⟩ := (Option.any_eq_true _ _).mp hwalk
  obtain ⟨m', hm', hfacts'⟩ := (Option.any_eq_true _ _).mp hagain
  obtain ⟨hstate, hcause⟩ := of_decide_eq_true hfacts
  obtain ⟨hlate, hcause'⟩ := of_decide_eq_true hfacts'
  obtain ⟨r, hr, hpauses⟩ := (Option.any_eq_true _ _).mp hcause
  obtain ⟨r', hr', hguarded⟩ := (Option.any_eq_true _ _).mp hcause'
  have hsplit : history =
      history.take 4 ++ m :: ((history.drop 5).take 20 ++ m' :: history.drop 26) := by
    have htail : history.drop 4 = m :: history.drop 5 := by
      rw [List.drop_eq_getElem?_toList_append, hm]
      rfl
    have htail' : (history.drop 5).drop 20 = m' :: history.drop 26 := by
      rw [List.drop_drop, List.drop_eq_getElem?_toList_append, hm']
      rfl
    rw [← htail', List.take_append_drop, ← htail, List.take_append_drop]
  obtain ⟨hlasts, happart⟩ := reachable.pauses_last honest (hhistory.trans hsplit) ⟨1⟩
    (by decide : MemoryKey.pathCooldown ∈ cooldowns)
  exact ⟨_, m, _, m', _, hsplit, hstate, (hlasts _ _ hstate).2 hlate, r, r', hr,
    of_decide_eq_true hpauses, hr', of_decide_eq_true hguarded,
    happart r r' 3 hr (of_decide_eq_true hpauses) hr' (of_decide_eq_true hguarded)⟩

end Simulation

end Menagerie
