import Menagerie.Proofs.Simulation.Inward
import Menagerie.Proofs.Simulation.Moments
import Menagerie.Proofs.Task.Walking

/-!
# Walking through ticks

In every state that a run reaches, an agent that remembers where to walk looks there, and its body heads
there (`Reachable.headings_agree`). While brains think this is so of where bodies will head once the
intents are carried out.

What an agent remembers when intents are carried out is what it made last of its movement in the tick
(`Moved.remembered`). It does not follow that it walks there: to halt is to forget the target too, and
a halt is carried out after the agent remembered a target that it set out for later in the same tick
(`Reachable.walkTarget?_of_last_walk`).
-/

namespace Menagerie

/-- The keys under which it is remembered where an agent walks. -/
def WalkingKeys (key : MemoryKey) : Prop := key = .walkTarget ∨ key = .lookTarget

theorem MemoryState.eq_of_lapsed_eq_present {state : MemoryState} {now : Tick} {value : MemoryValue}
    {expiresAt : Option Tick} (h : state.lapsed now = .present value expiresAt) :
    state = .present value expiresAt := by
  match state with
  | .absent | .registered => cases h
  | .present value' none => exact h
  | .present value' (some runsOut) =>
    by_cases hnow : runsOut ≤ now
    · simp only [lapsed, if_pos hnow] at h
      cases h
    · simpa only [lapsed, if_neg hnow] using h

/-- Time alone sways nobody. -/
theorem Body.unswayed_of_lapses {b b' : Body} (hheading : b'.heading = b.heading)
    (hlapses : b.memory.Lapses WalkingKeys b'.memory) : Unswayed b b' := by
  refine ⟨fun value hvalue => ⟨?_, hheading⟩, fun value hvalue => ?_⟩
  · unfold Blackboard.get? at hvalue ⊢
    rw [hlapses.state _ (.inl rfl)] at hvalue
    split at hvalue
    · next heq =>
      cases hvalue
      rw [MemoryState.eq_of_lapsed_eq_present heq]
    · cases hvalue
  · rw [hlapses.state _ (.inr rfl), hvalue]
    rfl

/-- Besides movement, a run of a leaf that is able asks for what the leaf may. -/
theorem LeafRun.Able.asks {r : LeafRun} (h : r.Able) :
    r.stage.world.Strides (r.leaf.Asks r.stage.world r.env.agent) r.env.agent r.after.world :=
  Leaf.strides_run h

theorem LeafRun.Able.strides {r : LeafRun} (h : r.Able) :
    r.stage.world.Strides Intent.Still r.env.agent r.after.world :=
  h.asks.mono fun _ => Leaf.Asks.still

namespace Simulation

variable {engine : Engine} {scenario : Scenario} {s s' : Simulation}

/-! ## Guidance -/

theorem Reachable.unswayed_whenThinking (honest : engine.Honest) (h : Reachable engine scenario s) :
    s.world.Each Body.Unswayed s.whenThinking.world := by
  have hadvanced : s.world.Each Body.Unswayed s.world.advance :=
    (s.world.inward_advance.and h.orderly.world.lapses_advance.bodies).imp fun hboth =>
      Body.unswayed_of_lapses hboth.1.heading hboth.2
  have hhit : s.world.advance.Each Body.Unswayed s.whenSensing.world :=
    .foldl Body.Unswayed.refl Body.Unswayed.trans _
      (fun (hit : ScriptedHit) _ w => w.unswayed_damage hit.attacker hit.victim hit.damage) _
  have hlapses : s.whenSensing.world.Lapses WalkingKeys s.whenThinking.world := by
    refine (h.unfolds_whenThinking honest).steady.lapses ?_
    rintro _ _ _ (rfl | rfl) ⟨kind, hkind⟩
    · cases kind <;> simp [SensorKind.memories] at hkind
    · cases kind <;> simp [SensorKind.memories] at hkind
  have hsensed : s.whenSensing.world.Each Body.Unswayed s.whenThinking.world :=
    (s.inward_whenThinking.and hlapses.bodies).imp fun hboth =>
      Body.unswayed_of_lapses hboth.1.heading hboth.2
  exact hadvanced.trans Body.Unswayed.trans (hhit.trans Body.Unswayed.trans hsensed)

theorem guided_spawn (h : s.world.Guided []) (spawn : Spawn) :
    (s.spawn spawn).2.world.Guided [] := by
  obtain ⟨_, random, heq, _⟩ | ⟨id, t, brain, random, _, _, heq⟩ := s.spawn_cases spawn
  · rw [heq]
    exact h
  · rw [heq]
    intro other b target hb htarget
    change (s.world.insertBody _).body? other = some b at hb
    rw [World.body?_insertBody] at hb
    split at hb
    · cases hb
      have hblank := blank_bodyOf t (Engine.newborn t spawn id) brain s.world.now
      exact nomatch htarget.symm.trans (hblank.get?_eq_none _)
    · exact h other b target hb htarget

theorem Reachable.guided_step (honest : engine.Honest) (hs : Reachable engine scenario s)
    (h : s.world.Guided []) : s.step.world.Guided [] := by
  have hsensed : s.whenThinking.world.Guided s.whenThinking.world.intents := by
    rw [hs.orderly.whenThinking.idle]
    exact h.of_each (hs.unswayed_whenThinking honest) fun _ => rfl
  have hthought : s.whenSettling.world.Guided s.whenSettling.world.intents :=
    (hs.orderly.rel_think (fun w w' => w.Guided w.intents → w'.Guided w'.intents) (fun _ => id)
      (fun h h' => h' ∘ h) fun r hr _ _ =>
        (hs.able_of_mem_runs honest r hr).strides.guided).2 hsensed
  exact (World.guided_settle hthought).of_each (World.unswayed_move _) fun _ => rfl

theorem Reachable.guided (honest : engine.Honest) (h : Reachable engine scenario s) :
    s.world.Guided [] := by
  induction h with
  | start =>
    exact ofScenario_of_spawn (p := fun s => s.world.Guided []) engine scenario
      (fun _ _ _ _ _ hb => nomatch hb) (fun _ spawn h => guided_spawn h spawn) fun _ _ h => h
  | spawn spawn _ ih => exact guided_spawn ih spawn
  | despawn _ hs' ih =>
    rw [eq_of_despawn hs']
    exact fun other b target hb => ih other b target (World.body?_of_removeBody hb)
  | hit _ hs' ih =>
    rw [eq_of_hit hs']
    exact ih.of_each (World.unswayed_damage _ _ _ _) fun _ => rfl
  | step hs ih => exact hs.guided_step honest ih

/-- Between operations, the body of an agent that remembers where to walk heads there, and the agent
looks there. -/
theorem Reachable.headings_agree (honest : engine.Honest) (h : Reachable engine scenario s)
    {id : AgentId} {b : Body} {target : WalkTarget} (hb : s.world.body? id = some b)
    (htarget : b.memory.get? .walkTarget = some (.walkTarget target)) :
    b.heading = some target ∧ b.memory.get? .lookTarget = some (.position target.position) := by
  obtain ⟨hheading, hlook⟩ := h.guided honest id b target hb htarget
  refine ⟨hheading, ?_⟩
  unfold Blackboard.get?
  rw [hlook]

/-- A wolf that was hit flees, and two ticks later it is still on its way. -/
theorem Reachable.headings_agree_wolf :
    let wolf : Template :=
      { name := "wolf", species := "wolf", enabled := true, maxHealth := 20.0
        defaultActivity := .idle, overrides := .empty, declarations := [], herd := {}
        activities := [⟨.core, [⟨0, .leaf (.switchToPanicWhenHurt (.bool true))⟩,
            ⟨1, .leaf (.fleeAttacker (.bool true) (.number 1.0) (.number 8.0))⟩]⟩,
          ⟨.idle, [⟨0, .leaf .doNothing⟩]⟩, ⟨.panic, [⟨0, .leaf .doNothing⟩]⟩] }
    let engine : Engine := { templates := { templates := .ofList [("wolf", wolf)] } }
    let scenario : Scenario :=
      { agents := [{ template := "wolf", position := ⟨0, 0, 0⟩ },
          { template := "wolf", position := ⟨1, 0, 0⟩ }]
        hits := [⟨⟨1⟩, ⟨2⟩, ⟨1⟩, 3.0⟩] }
    let target : WalkTarget := ⟨⟨-8, 64, 0⟩, 1.0, 0.0⟩
    let s := (ofScenario engine scenario).step.step
    engine.Honest ∧ Reachable engine scenario s ∧ ∃ b, s.world.body? ⟨1⟩ = some b ∧
      b.memory.get? .walkTarget = some (.walkTarget target) ∧ b.heading = some target ∧
      b.memory.get? .lookTarget = some (.position target.position) := by
  intro wolf engine scenario target s
  have honest : engine.Honest := by
    rintro kind _ ⟨⟩
    exact Sensor.honest_ofKind _ kind
  have reachable : Reachable engine scenario s := .step (.step .start)
  have hwalks : (s.world.body? ⟨1⟩).any fun b =>
      b.memory.get? .walkTarget == some (.walkTarget target) := by decide +kernel
  obtain ⟨b, hb, htarget⟩ := (Option.any_eq_true _ _).mp hwalks
  have htarget := beq_iff_eq.mp htarget
  exact ⟨honest, reachable, b, hb, htarget, Reachable.headings_agree honest reachable hb htarget⟩

end Simulation

/-! ## Requests -/

namespace LeafRun

/-- The intents that a run issues. -/
def issued (r : LeafRun) : List (AgentId × Intent) :=
  r.after.world.intents.drop r.stage.world.intents.length

/-- What a run makes of its agent's movement, if anything: it asks for some, or it only forgets where to
walk. -/
def movement? (r : LeafRun) : Option Movement :=
  match (movementsOf r.env.agent r.issued).getLast? with
  | some movement => some movement
  | none =>
    if (r.stage.world.remembered? r.env.agent .walkTarget).isSome &&
        !(r.after.world.remembered? r.env.agent .walkTarget).isSome then some .forget
    else none

/-- What runs make of the movement of an agent. -/
def movements (id : AgentId) (runs : List LeafRun) : List Movement :=
  runs.filterMap fun r => if r.env.agent = id then r.movement? else none

end LeafRun

namespace World

/-- Whether movements of an agent lead from one world to another: those that it asks for wait, and it
remembers what it made last of its movement. -/
structure Moved (id : AgentId) (movements : List Movement) (w w' : World) : Prop where
  intents : movementsOf id w'.intents = movementsOf id w.intents ++ movements.filter (· ≠ .forget)
  remembered : w'.remembered? id .walkTarget =
    movements.getLast?.elim (w.remembered? id .walkTarget) Movement.remembered

variable {id me : AgentId} {w w' w'' : World} {movements more : List Movement}

theorem Moved.refl (id : AgentId) (w : World) : Moved id [] w w := ⟨(List.append_nil _).symm, rfl⟩

theorem Moved.trans (h : Moved id movements w w') (h' : Moved id more w' w'') :
    Moved id (movements ++ more) w w'' := by
  refine ⟨?_, ?_⟩
  · rw [h'.intents, h.intents, List.filter_append, List.append_assoc]
  · rw [h'.remembered, h.remembered, List.getLast?_append]
    cases more.getLast? with
    | none => rfl
    | some movement => rfl

/-- What an agent does moves nobody else. -/
theorem Touched.unmoved {may : Tick → MemoryKey → MemorySlot → Prop} (h : w.Touched may me w')
    (hid : id ≠ me) : Moved id [] w w' := by
  refine ⟨?_, ?_⟩
  · obtain ⟨issued, hintents⟩ := h.issued
    have hnone : movementsOf id (issued.map fun intent => (me, intent)) = [] := by
      refine List.filterMap_eq_nil_iff.mpr fun entry hentry => ?_
      obtain ⟨intent, _, rfl⟩ := List.mem_map.mp hentry
      exact if_neg (Ne.symm hid)
    rw [hintents, movementsOf_append, hnone]
    rfl
  · show w'.remembered? id .walkTarget = w.remembered? id .walkTarget
    have halike := h.others id hid
    unfold World.remembered? memory? Blackboard.get?
    generalize w.body? id = x at halike ⊢
    generalize w'.body? id = y at halike ⊢
    cases halike with
    | none => rfl
    | some halike => simp only [Option.map_some, Option.bind_some, halike.memory.state]

end World

namespace LeafRun

variable {r : LeafRun}

/-- What a run issues comes behind what waits. -/
theorem intents_after (r : LeafRun) (h : r.stage.world.Indexed) :
    r.after.world.intents = r.stage.world.intents ++ r.issued := by
  obtain ⟨issued, hintents⟩ := (r.touched h).issued
  unfold LeafRun.issued
  rw [hintents, List.drop_left]

/-- A run of a leaf that is able comes to what it makes of its agent's movement. -/
theorem Able.moved (h : r.Able) (id : AgentId) :
    r.stage.world.Moved id (movements id [r]) r.after.world := by
  by_cases hid : r.env.agent = id
  · subst hid
    have hmovements : movements r.env.agent [r] = r.movement?.toList := by
      unfold movements
      cases hmovement : r.movement? <;> simp [hmovement]
    have hintents := congrArg (movementsOf r.env.agent) (r.intents_after h.indexed)
    rw [movementsOf_append] at hintents
    rw [hmovements]
    rcases h.strides.moves with ⟨movement, hasked, hremembered, hissued⟩ | hlingers
    · -- The agent sets out or halts, and this is the only movement that it asks for.
      have hlast : movementsOf r.env.agent r.issued = [movement] :=
        List.append_cancel_left (hintents.symm.trans hissued)
      have hmovement : r.movement? = some movement := by
        unfold movement?
        rw [hlast]
        rfl
      rw [hmovement]
      refine ⟨?_, hremembered⟩
      rw [Option.toList_some, List.filter_singleton, decide_eq_true hasked]
      exact hissued
    · have hnone : movementsOf r.env.agent r.issued = [] :=
        List.append_cancel_left ((hintents.symm.trans (hlingers.adds.movementsOf _)).trans
          (List.append_nil _).symm)
      have hsame : movementsOf r.env.agent r.after.world.intents =
          movementsOf r.env.agent r.stage.world.intents := hlingers.adds.movementsOf _
      have hmovement : r.movement? =
          if (r.stage.world.remembered? r.env.agent .walkTarget).isSome &&
            !(r.after.world.remembered? r.env.agent .walkTarget).isSome then some .forget
          else none := by
        unfold movement?
        rw [hnone]
        rfl
      rw [hmovement]
      split
      · next hforgotten =>
        rw [Bool.and_eq_true, Bool.not_eq_true', Option.isSome_eq_false_iff,
          Option.isNone_iff_eq_none] at hforgotten
        exact ⟨hsame.trans (List.append_nil _).symm, hforgotten.2⟩
      · next hkept =>
        refine ⟨hsame.trans (List.append_nil _).symm, ?_⟩
        show r.after.world.remembered? r.env.agent .walkTarget =
          r.stage.world.remembered? r.env.agent .walkTarget
        cases hafter : r.after.world.remembered? r.env.agent .walkTarget with
        | some value => exact (hlingers.remembered? hafter).symm
        | none =>
          rw [hafter] at hkept
          cases hbefore : r.stage.world.remembered? r.env.agent .walkTarget with
          | none => rfl
          | some value =>
            rw [hbefore] at hkept
            exact absurd rfl hkept
  · have hnone : movements id [r] = [] := by
      unfold movements
      simp [hid]
    rw [hnone]
    exact (r.touched h.indexed).unmoved (Ne.symm hid)

end LeafRun

/-- Runs of leaves that are able come to what they make of an agent's movement. -/
theorem Stage.Reaches.moved {stage stage' : Stage} {runs : List LeafRun}
    (h : stage.Reaches runs stage') (able : ∀ r ∈ runs, r.Able) (id : AgentId) :
    stage.world.Moved id (LeafRun.movements id runs) stage'.world := by
  induction runs generalizing stage with
  | nil =>
    rw [show stage'.world = stage.world from h]
    exact .refl id stage.world
  | cons r rest ih =>
    rw [List.forall_mem_cons] at able
    have here := able.1.moved id
    rw [show r.stage.world = stage.world from h.1] at here
    rw [show r :: rest = [r] ++ rest from rfl, LeafRun.movements, List.filterMap_append]
    exact here.trans (ih h.2 able.2)

namespace Simulation

variable {engine : Engine} {scenario : Scenario} {s : Simulation}

/-- What the next tick makes of the movement of an agent. -/
def movements (s : Simulation) (id : AgentId) : List Movement := LeafRun.movements id s.runs

theorem Reachable.moved (honest : engine.Honest) (h : Reachable engine scenario s) (id : AgentId) :
    s.whenThinking.world.Moved id (s.movements id) s.whenSettling.world :=
  s.leads_think.moved (h.able_of_mem_runs honest) id

/-- If the last that an agent makes of its movement in a tick is to set out for a target, it remembers
this target when intents are carried out, and its body heads there after that. Whether it still remembers
it by then, and follows it, depends on whether it asked to halt earlier in the tick: a halt that is
carried out makes it forget the target that it set out for. -/
theorem Reachable.walkTarget?_of_last_walk (honest : engine.Honest)
    (h : Reachable engine scenario s) {id : AgentId} {target : WalkTarget}
    (hlast : (s.movements id).getLast? = some (.walk target)) :
    s.whenSettling.world.remembered? id .walkTarget = some (.walkTarget target) ∧
      ∃ b, s.whenSettling.world.settle.body? id = some b ∧ b.heading = some target ∧
        (b.memory.get? .walkTarget = some (.walkTarget target) ↔ .halt ∉ s.movements id) ∧
        b.walkTarget? = if .halt ∈ s.movements id then none else some target := by
  have hmoved := h.moved honest id
  have hremembered : s.whenSettling.world.remembered? id .walkTarget =
      some (.walkTarget target) := by
    rw [hmoved.remembered, hlast]
    rfl
  obtain ⟨memory, hmemory, hget⟩ := Option.bind_eq_some_iff.mp hremembered
  obtain ⟨b, hb, rfl⟩ := Option.map_eq_some_iff.mp hmemory
  have hheeds := s.whenSettling.world.heeds_settle id
  rw [hb] at hheeds
  obtain ⟨b', hb', hheeds⟩ := optionRel_some_left.mp hheeds
  -- Nothing waits when agents begin to think, so that what waits later is what they asked for.
  have hwaiting : movementsOf id s.whenSettling.world.intents =
      (s.movements id).filter (· ≠ .forget) := by
    rw [hmoved.intents, h.orderly.whenThinking.idle]
    rfl
  rw [hwaiting] at hheeds
  have hhalt : .halt ∈ (s.movements id).filter (· ≠ .forget) ↔ .halt ∈ s.movements id := by
    simp [List.mem_filter]
  have htarget : b'.memory.get? .walkTarget =
      if .halt ∈ s.movements id then none else some (.walkTarget target) := by
    rw [hheeds.target, hget]
    simp only [hhalt]
  refine ⟨hremembered, b', hb', ?_, ?_, ?_⟩
  · obtain ⟨earlier, hearlier⟩ := List.getLast?_eq_some_iff.mp hlast
    rw [hheeds.heading, hearlier, List.filter_append, Movement.headed_append]
    rfl
  · rw [htarget]
    split <;> simp_all
  · have hregistered : b'.memory.isRegistered .walkTarget := by
      rw [hheeds.registered, Blackboard.isRegistered_iff]
      intro habsent
      unfold Blackboard.get? at hget
      rw [habsent] at hget
      cases hget
    unfold Body.walkTarget?
    rw [if_pos hregistered, htarget]
    split
    · rfl
    · rfl

/-- A wolf that panics and flees in one tick stays where it is, as it halts. In the next tick it only
flees, and it follows what it set out for. -/
theorem Reachable.walkTarget?_of_last_walk_wolf :
    let wolf : Template :=
      { name := "wolf", species := "wolf", enabled := true, maxHealth := 20.0
        defaultActivity := .idle, overrides := .empty, declarations := [], herd := {}
        activities := [⟨.core, [⟨0, .leaf (.switchToPanicWhenHurt (.bool true))⟩,
            ⟨1, .leaf (.fleeAttacker (.bool true) (.number 1.0) (.number 8.0))⟩]⟩,
          ⟨.idle, [⟨0, .leaf .doNothing⟩]⟩, ⟨.panic, [⟨0, .leaf .doNothing⟩]⟩] }
    let engine : Engine := { templates := { templates := .ofList [("wolf", wolf)] } }
    let scenario : Scenario :=
      { agents := [{ template := "wolf", position := ⟨0, 0, 0⟩ },
          { template := "wolf", position := ⟨1, 0, 0⟩ }]
        hits := [⟨⟨1⟩, ⟨2⟩, ⟨1⟩, 3.0⟩] }
    let target : WalkTarget := ⟨⟨-8, 64, 0⟩, 1.0, 0.0⟩
    let s := (ofScenario engine scenario).step
    engine.Honest ∧ Reachable engine scenario s ∧ s.movements ⟨1⟩ = [.walk target] ∧
      s.whenSettling.world.remembered? ⟨1⟩ .walkTarget = some (.walkTarget target) ∧
      ∃ b, s.whenSettling.world.settle.body? ⟨1⟩ = some b ∧ b.heading = some target ∧
        b.memory.get? .walkTarget = some (.walkTarget target) ∧ b.walkTarget? = some target := by
  intro wolf engine scenario target s
  have honest : engine.Honest := by
    rintro kind _ ⟨⟩
    exact Sensor.honest_ofKind _ kind
  have reachable : Reachable engine scenario s := .step .start
  have hmovements : s.movements ⟨1⟩ = [.walk target] := by decide +kernel
  have hlast : (s.movements ⟨1⟩).getLast? = some (.walk target) := by
    rw [hmovements]
    rfl
  have hhalt : .halt ∉ s.movements ⟨1⟩ := by
    rw [hmovements]
    decide +kernel
  obtain ⟨hremembered, b, hb, hheading, htarget, hfollows⟩ :=
    Reachable.walkTarget?_of_last_walk honest reachable hlast
  rw [if_neg hhalt] at hfollows
  exact ⟨honest, reachable, hmovements, hremembered, b, hb, hheading, htarget.mpr hhalt, hfollows⟩

/-- What a wolf made last of its movement is lost to a halt that it asked for before. It is alive and
heads for where it set out for, and does not go there. -/
theorem walk_lost_to_halt_wolf :
    let wolf : Template :=
      { name := "wolf", species := "wolf", enabled := true, maxHealth := 20.0
        defaultActivity := .idle, overrides := .empty, declarations := [], herd := {}
        activities := [⟨.core, [⟨0, .leaf (.switchToPanicWhenHurt (.bool true))⟩,
            ⟨1, .leaf (.fleeAttacker (.bool true) (.number 1.0) (.number 8.0))⟩]⟩,
          ⟨.idle, [⟨0, .leaf .doNothing⟩]⟩, ⟨.panic, [⟨0, .leaf .doNothing⟩]⟩] }
    let engine : Engine := { templates := { templates := .ofList [("wolf", wolf)] } }
    let scenario : Scenario :=
      { agents := [{ template := "wolf", position := ⟨0, 0, 0⟩ },
          { template := "wolf", position := ⟨1, 0, 0⟩ }]
        hits := [⟨⟨1⟩, ⟨2⟩, ⟨1⟩, 3.0⟩] }
    let target : WalkTarget := ⟨⟨-8, 64, 0⟩, 1.0, 0.0⟩
    let s := ofScenario engine scenario
    Reachable engine scenario s ∧ s.movements ⟨1⟩ = [.halt, .walk target] ∧
      s.whenSettling.world.remembered? ⟨1⟩ .walkTarget = some (.walkTarget target) ∧
      s.whenSettling.world.settle.isAlive ⟨1⟩ ∧
      s.whenSettling.world.settle.remembered? ⟨1⟩ .walkTarget = none ∧
      ((s.step.world.body? ⟨1⟩).map Body.heading) = some (some target) ∧
      s.step.world.position? ⟨1⟩ = some ⟨0, 0, 0⟩ := by
  intro wolf engine scenario target s
  exact ⟨.start, by decide +kernel, by decide +kernel, by decide +kernel, by decide +kernel,
    by decide +kernel, by decide +kernel⟩

end Simulation

end Menagerie
