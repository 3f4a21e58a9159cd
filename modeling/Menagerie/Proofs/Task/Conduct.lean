import Menagerie.Proofs.Herd.Leader
import Menagerie.Proofs.Task.Act
import Menagerie.Task.Run

/-!
# How tasks conduct themselves

Each task conducts itself, given the keys that its leaf registers (`Act.Conducts`). A task that works
with what the agent remembers under a key runs only while something is remembered there; as it has
the kind of the key, the task never meets a value that it has no use for (`Proper.require`).
-/

namespace Menagerie

/-- Whether an agent remembers a value under a key, and of the kind of the key. -/
def World.Recalls (w : World) (me : AgentId) (key : MemoryKey) : Prop :=
  ∃ value, w.remembered? me key = some value ∧ value.kind = key.kind

namespace MemoryValue

theorem exists_agent {value : MemoryValue} (h : value.kind = .agent) :
    ∃ id, value.agent? = some id := by
  cases value <;> simp_all [kind, agent?]

theorem exists_agents {value : MemoryValue} (h : value.kind = .agents) :
    ∃ ids, value.agents? = some ids := by
  cases value <;> simp_all [kind, agents?]

theorem exists_position {value : MemoryValue} (h : value.kind = .position) :
    ∃ p, value.position? = some p := by
  cases value <;> simp_all [kind, position?]

theorem exists_item {value : MemoryValue} (h : value.kind = .item) :
    ∃ id, value.item? = some id := by
  cases value <;> simp_all [kind, item?]

end MemoryValue

open Act

namespace Act

variable {α β : Type} {env : ActEnv} {s : Stage} {keys : List MemoryKey}

theorem yields_require {task : String} {key : MemoryKey} {shape : MemoryValue → Option α} {a : α}
    (h : (s.world.remembered? env.agent key).bind shape = some a) :
    Yields (Task.require task key shape) env s a := by
  unfold Task.require
  refine .bind (yields_remembered key env s) ?_
  rw [h]
  rfl

/-- A task goes on with what it requires, if there is a value and each value of the key's kind has
the shape that the task needs. -/
theorem Proper.require {task : String} {key : MemoryKey} {shape : MemoryValue → Option α}
    {f : α → Act β} (h : s.world.Recalls env.agent key)
    (hshape : ∀ {value : MemoryValue}, value.kind = key.kind → ∃ a, shape value = some a)
    (hf : ∀ a, (s.world.remembered? env.agent key).bind shape = some a → Proper (f a) env s) :
    Proper (Task.require task key shape >>= f) env s := by
  obtain ⟨value, hvalue, hkind⟩ := h
  obtain ⟨a, ha⟩ := hshape hkind
  have hbind : (s.world.remembered? env.agent key).bind shape = some a := by
    rw [hvalue]
    exact ha
  exact .read (yields_require hbind) (hf a hbind)

theorem Conducts.require {task : String} {key : MemoryKey} {shape : MemoryValue → Option α}
    {f : α → Act β} (able : s.world.Able env.agent keys) (h : s.world.Recalls env.agent key)
    (hshape : ∀ {value : MemoryValue}, value.kind = key.kind → ∃ a, shape value = some a)
    (hf : ∀ a, Conducts keys (f a)) : Proper (Task.require task key shape >>= f) env s :=
  .require h hshape fun a _ => hf a env s able

end Act

namespace Task

variable {env : ActEnv} {s : Stage} {keys : List MemoryKey}

/-! ## Walking -/

theorem conducts_walkTo {position : Position} {speed completionRange : Float}
    (hwalk : .walkTarget ∈ keys) (hlook : .lookTarget ∈ keys) :
    Conducts keys (walkTo position speed completionRange) := by
  unfold walkTo
  refine .bind (conducts_remember hwalk rfl (by decide)) fun _ => ?_
  refine .bind (conducts_remember hlook rfl (by decide)) fun _ => ?_
  exact conducts_issue fun _ => rfl

theorem conducts_drawDestination {around : Position} {horizontal vertical : Float} (attempts : Nat) :
    Conducts keys (drawDestination around horizontal vertical attempts) := by
  induction attempts with
  | zero => exact .pure
  | succ attempts ih =>
    rw [drawDestination]
    refine .bind (conducts_spread _) fun dx => ?_
    refine .bind (conducts_spread _) fun dy => ?_
    refine .bind (conducts_spread _) fun dz => ?_
    refine .bind conducts_world fun w => ?_
    split
    · exact .pure
    · exact ih

theorem conducts_wander {chance horizontal vertical speed : Param} {cooldown : UInt64} :
    Conducts [.walkTarget, .lookTarget, .pathCooldown]
      (wander chance horizontal vertical speed cooldown) := by
  unfold wander
  refine .bind (conducts_number _) fun p => ?_
  refine .bind (conducts_chance p) fun holds => ?_
  split
  · refine .bind (conducts_rememberFor (by decide) rfl (by decide)) fun _ => ?_
    refine .bind conducts_me fun me => ?_
    refine .bind (conducts_number _) fun h => ?_
    refine .bind (conducts_number _) fun v => ?_
    refine .bind (conducts_drawDestination _) fun destination => ?_
    split
    · exact .pure
    · refine .bind (conducts_number _) fun s => ?_
      exact .bind (conducts_walkTo (by decide) (by decide)) fun _ => .pure
  · exact .pure

theorem conducts_moveIntoFluid {fluid : FeatureKind} {horizontal vertical : Float} {speed : Param}
    {cooldown : UInt64} :
    Conducts [.walkTarget, .lookTarget, .pathCooldown]
      (moveIntoFluid fluid horizontal vertical speed cooldown) := by
  unfold moveIntoFluid
  refine .bind conducts_me fun me => ?_
  refine .ite .pure ?_
  refine .bind (conducts_rememberFor (by decide) rfl (by decide)) fun _ => ?_
  refine .bind conducts_world fun w => ?_
  split
  · exact .pure
  · refine .bind (conducts_number _) fun s => ?_
    exact .bind (conducts_walkTo (by decide) (by decide)) fun _ => .pure

/-! ## Danger -/

theorem proper_fleeAttacker {speed desiredDistance : Float}
    (able : s.world.Able env.agent [.walkTarget, .lookTarget])
    (h : s.world.Recalls env.agent .hurtByEntity) :
    Proper (fleeAttacker speed desiredDistance) env s := by
  unfold fleeAttacker
  refine Conducts.require able h MemoryValue.exists_agent fun id => ?_
  refine .bind conducts_world fun w => ?_
  split
  · exact .pure
  · refine .bind conducts_me fun me => ?_
    refine .ite .pure ?_
    refine .bind conducts_world fun w => ?_
    split
    · exact .pure
    · exact .bind (conducts_walkTo (by decide) (by decide)) fun _ => .pure

theorem conducts_switchToPanicWhenHurt : Conducts keys switchToPanicWhenHurt := by
  unfold switchToPanicWhenHurt
  refine .bind (conducts_isActive _) fun panicking => ?_
  refine .ite .pure ?_
  refine .bind (conducts_activate _) fun activated => ?_
  refine .ite ?_ .pure
  refine .bind (conducts_forget (by decide)) fun _ => ?_
  exact .bind (conducts_issue fun _ => rfl) fun _ => .pure

theorem conducts_calmDown {activity : Activity} : Conducts keys (calmDown activity) := by
  unfold calmDown
  refine .bind (conducts_isActive _) fun panicking => ?_
  refine .bind (conducts_isActive _) fun fighting => ?_
  refine .ite .pure ?_
  refine .bind (conducts_activate _) fun activated => ?_
  refine .ite ?_ .pure
  exact .bind (conducts_forget (by decide)) fun _ => .pure

theorem proper_retaliate (able : s.world.Able env.agent [.attackTarget])
    (h : s.world.Recalls env.agent .hurtByEntity) : Proper retaliate env s := by
  unfold retaliate
  refine Conducts.require able h MemoryValue.exists_agent fun attacker => ?_
  refine .bind conducts_world fun w => ?_
  refine .ite .pure ?_
  refine .bind (conducts_remember (by decide) rfl (by decide)) fun _ => ?_
  exact .bind (conducts_activate _) fun _ => .pure

theorem proper_meleeAttack {range chaseSpeed : Float} {cooldown : UInt64}
    (able : s.world.Able env.agent [.attackTarget, .attackCooling, .walkTarget, .lookTarget])
    (h : s.world.Recalls env.agent .attackTarget) :
    Proper (meleeAttack range cooldown chaseSpeed) env s := by
  unfold meleeAttack
  refine Conducts.require able h MemoryValue.exists_agent fun target => ?_
  refine .bind conducts_world fun w => ?_
  split
  · exact .bind (conducts_forget (by decide)) fun _ => .pure
  · refine .bind conducts_me fun me => ?_
    refine .ite ?_ ?_
    · exact .bind (conducts_walkTo (by decide) (by decide)) fun _ => .pure
    · refine .bind (conducts_issue fun _ => rfl) fun _ => ?_
      refine .bind (conducts_issue fun _ => rfl) fun _ => ?_
      exact .bind (conducts_rememberFor (by decide) rfl (by decide)) fun _ => .pure

/-! ## Rest -/

theorem conducts_findRestingPlace {horizontal vertical : Float} {speed : Param} {cooldown : UInt64} :
    Conducts [.sleeping, .walkTarget, .lookTarget, .pathCooldown, .restPosition]
      (findRestingPlace horizontal vertical speed cooldown) := by
  unfold findRestingPlace
  refine .bind (conducts_rememberFor (by decide) rfl (by decide)) fun _ => ?_
  refine .bind conducts_me fun me => ?_
  refine .bind conducts_world fun w => ?_
  split
  · exact .pure
  · refine .bind (conducts_remember (by decide) rfl (by decide)) fun _ => ?_
    refine .ite .pure ?_
    refine .bind (conducts_number _) fun s => ?_
    exact .bind (conducts_walkTo (by decide) (by decide)) fun _ => .pure

theorem conducts_goToSleep {activity : Activity} :
    Conducts [.sleeping, .walkTarget, .restPosition] (goToSleep activity) := by
  unfold goToSleep
  refine .bind conducts_me fun me => ?_
  refine .bind (conducts_remembered _) fun rest => ?_
  refine .ite .pure ?_
  exact .acquire .sleep (by decide) (.bind (conducts_activate _) fun _ => .pure)

theorem conducts_wakeUp {activity : Activity} : Conducts keys (wakeUp activity) := by
  unfold wakeUp
  refine .bind (conducts_remembered _) fun drowsy => ?_
  refine .bind (conducts_remembered _) fun hurt => ?_
  refine .ite .pure ?_
  refine .shed .sleep (by decide) ?_
  refine .bind (conducts_forget (by decide)) fun _ => ?_
  exact .bind (conducts_activate _) fun _ => .pure

/-! ## Foraging -/

theorem conducts_giveUp : Conducts keys giveUp := by
  unfold giveUp
  refine .bind (conducts_forget (by decide)) fun _ => ?_
  refine .bind (conducts_forget (by decide)) fun _ => ?_
  exact conducts_forget (by decide)

theorem proper_moveToItem {condition : Param} {speed maxDistance : Float} {maxAttempts : UInt32}
    {disableTicks : UInt64}
    (able : s.world.Able env.agent
      [.walkTarget, .lookTarget, .timeTryingToReachItem, .disableWalkToItem])
    (h : s.world.Recalls env.agent .wantedItem) :
    Proper (moveToItem condition speed maxDistance maxAttempts disableTicks) env s := by
  unfold moveToItem Proper
  rw [meets_bind]
  refine (meets_evaluate able).imp ?_ ?_
  · -- The condition is looked at before the item, and looking changes nothing.
    rintro holds _ rfl
    refine Proper.ite .pure ?_
    refine Conducts.require able h MemoryValue.exists_item fun item => ?_
    refine .bind conducts_world fun w => ?_
    split
    · exact .bind conducts_giveUp fun _ => .pure
    · refine .bind conducts_me fun me => ?_
      refine .ite .pure ?_
      refine .ite ?_ ?_
      · refine .bind (conducts_issue fun _ => rfl) fun _ => ?_
        exact .bind conducts_giveUp fun _ => .pure
      · refine .bind (conducts_remembered _) fun tried => ?_
        refine .ite ?_ ?_
        · refine .bind conducts_giveUp fun _ => ?_
          exact .bind (conducts_rememberFor (by decide) rfl (by decide)) fun _ => .pure
        · refine .bind (conducts_remember (by decide) rfl (by decide)) fun _ => ?_
          exact .bind (conducts_walkTo (by decide) (by decide)) fun _ => .pure
  · rintro _ _ ⟨rfl, hcause⟩
    exact ⟨.refl _ _, hcause⟩

theorem proper_pathToFlower {speed : Param}
    (able : s.world.Able env.agent [.hasNectar, .pollinateCooldown, .walkTarget, .lookTarget])
    (h : s.world.Recalls env.agent .nearbyFlower) : Proper (pathToFlower speed) env s := by
  unfold pathToFlower
  refine Conducts.require able h MemoryValue.exists_position fun flower => ?_
  refine .bind conducts_me fun me => ?_
  refine .ite .pure ?_
  refine .bind (conducts_number _) fun s => ?_
  exact .bind (conducts_walkTo (by decide) (by decide)) fun _ => .pure

theorem proper_lookAtFlower (able : s.world.Able env.agent keys)
    (h : s.world.Recalls env.agent .nearbyFlower) : Proper lookAtFlower env s := by
  unfold lookAtFlower
  refine Conducts.require able h MemoryValue.exists_position fun flower => ?_
  exact .bind conducts_me fun me => .pure

/-- What an agent does who has stayed long enough at a flower: it acquires nectar, and pauses. -/
theorem meets_gather {cooldown : UInt64}
    (able : s.world.Able env.agent [.hasNectar, .pollinateCooldown]) :
    (Deed.acquire .nectar).Sound env.agent s.world ∧ ∃ expiresAt, ∀ good bad,
      Meets (do
        remember .hasNectar .flag
        rememberFor .pollinateCooldown .flag cooldown
        issue (.setAspect nectarAspect true)
        return true) env s good bad ↔
      good true { s with
        world := Deed.apply env.agent (Deed.apply env.agent s.world (.acquire .nectar))
          (.store .pollinateCooldown .flag expiresAt) } := by
  obtain ⟨b, hb, _, hkeys⟩ := able.body
  have hquiet := Deed.quiet_acquire env.agent s.world .nectar
  -- What is remembered for a time goes to the memory that the first deed left.
  obtain ⟨b', hb', hkept⟩ := hquiet.kept.exists_of_left hb
  have hpause : b'.memory.isRegistered .pollinateCooldown := by
    rw [hkept.memory.registered]
    exact hkeys _ (by decide)
  refine ⟨.acquire hb (hkeys _ (by decide)), some (b'.memory.now.after cooldown), fun good bad => ?_⟩
  rw [meets_bind, meets_remember hb rfl (hkeys _ (by decide)), meets_bind]
  refine Iff.trans (meets_rememberFor (b := b') ?_ rfl hpause) Iff.rfl
  exact hb'

theorem conducts_attendFlower {flower : Position} {arrived : Bool} {cooldown : UInt64}
    (visit : FlowerStay.Visit) :
    Conducts [.hasNectar, .pollinateCooldown] (attendFlower flower arrived cooldown visit) := by
  have hafter : Conducts [.hasNectar, .pollinateCooldown] (do
      if visit = .finished then
        remember .hasNectar .flag
        rememberFor .pollinateCooldown .flag cooldown
        issue (.setAspect nectarAspect true)
      return true) := by
    refine .ite (fun env s able => ?_) .pure
    obtain ⟨hsound, expiresAt, hmeets⟩ := meets_gather able
    exact (hmeets _ _).mpr ((Does.single hsound).trans (.single (.store rfl (by decide))))
  have hlook : Conducts [.hasNectar, .pollinateCooldown] (issue (.lookAt flower)) :=
    conducts_issue fun _ => rfl
  cases visit with
  | away => exact .pure
  | staying | finished => exact .ite (.bind hlook fun _ => hafter) hafter

/-! ## Herding -/

theorem proper_claimLeader {leader : AgentId} (able : s.world.Able env.agent [.herdLeader])
    (hne : leader ≠ env.agent) (hfree : s.world.remembered? leader .herdLeader = none) :
    Proper (claimLeader leader) env s := by
  have kept : s.world.Kept (s.world.mapMemory leader fun m => m.erase .herdLeader) :=
    (Deed.quiet_forget leader s.world .herdLeader).kept
  obtain ⟨b, hb, _, hkeys⟩ := (able.of_kept kept).body
  -- The two changes are one deed: between them the leader is free and not yet followed.
  unfold Proper claimLeader forgetOf
  rw [meets_bind, meets_modifyWorld]
  refine (meets_remember (b := b) hb rfl (hkeys .herdLeader List.mem_cons_self)).mpr ?_
  exact .single (.follow hne hfree)

/-- A candidate shows what the world knows of its agent. -/
theorem of_ofWorld? {w : World} {id : AgentId} {c : LeaderCandidate} (hindexed : w.Indexed)
    (h : LeaderCandidate.ofWorld? w id = some c) :
    c.view.id = id ∧ w.view? id = some c.view ∧ c.following = (w.remembered? id .herdLeader).isSome := by
  obtain ⟨b, hb, rfl⟩ := Option.map_eq_some_iff.mp h
  refine ⟨hindexed id b hb, congrArg (Option.map Body.view) hb, ?_⟩
  rw [World.remembered?_of_body? hb, Blackboard.isSome_get?]

/-- A leader that is chosen among the agents of a world is another agent and follows nobody. -/
theorem of_bestLeader? {w : World} {me : AgentView} {profile : HerdProfile}
    {candidates : List LeaderCandidate} {aboveLevel : Option UInt32} {leader : AgentId}
    (hw : w.Indexed) (hcandidates : ∀ c ∈ candidates, ∃ id, LeaderCandidate.ofWorld? w id = some c)
    (h : bestLeader? me profile candidates aboveLevel = some leader) :
    leader ≠ me.id ∧ w.remembered? leader .herdLeader = none := by
  obtain ⟨c, hc, rfl⟩ := exists_best_of_bestLeader? h
  obtain ⟨id, hid⟩ := hcandidates c hc.mem
  obtain ⟨rfl, _, hfollowing⟩ := of_ofWorld? hw hid
  rw [hc.eligible.leaderless] at hfollowing
  exact ⟨hc.eligible.other, Option.isNone_iff_eq_none.mp (Option.isSome_eq_false_iff.mp hfollowing.symm)⟩

/-- Going over to a leader that was chosen. -/
theorem proper_joinBest {me : AgentView} {profile : HerdProfile} {candidates : List LeaderCandidate}
    {aboveLevel : Option UInt32} {stay : Act Bool} (able : s.world.Able env.agent [.herdLeader])
    (hme : me.id = env.agent)
    (hcandidates : ∀ c ∈ candidates, ∃ id, LeaderCandidate.ofWorld? s.world id = some c)
    (hstay : Proper stay env s) :
    Proper (match bestLeader? me profile candidates aboveLevel with
      | none => stay
      | some leader => do
        claimLeader leader
        return true) env s := by
  cases hbest : bestLeader? me profile candidates aboveLevel with
  | none => exact hstay
  | some leader =>
    obtain ⟨hne, hfree⟩ := of_bestLeader? able.indexed hcandidates hbest
    rw [hme] at hne
    exact (proper_claimLeader able hne hfree).bind fun _ _ _ => .pure

theorem exists_of_mem_candidates {w : World} {ids : List AgentId} :
    ∀ c ∈ ids.filterMap (LeaderCandidate.ofWorld? w), ∃ id, LeaderCandidate.ofWorld? w id = some c := by
  intro c hc
  obtain ⟨id, _, hid⟩ := List.mem_filterMap.mp hc
  exact ⟨id, hid⟩

theorem proper_findHerdLeader {checkTicks : UInt64} (able : s.world.Able env.agent [.herdLeader])
    (h : s.world.Recalls env.agent .nearestVisibleAgents) :
    Proper (findHerdLeader checkTicks) env s := by
  obtain ⟨b, hb, _⟩ := able.body
  unfold findHerdLeader
  refine .read (yields_now env s) ?_
  refine .ite .pure ?_
  refine .read (yields_me hb) ?_
  refine .read (yields_world env s) ?_
  split
  · exact .pure
  · refine .require h MemoryValue.exists_agents fun nearby _ => ?_
    refine .read (yields_world env s) ?_
    exact proper_joinBest able (able.indexed _ b hb) exists_of_mem_candidates .pure

theorem proper_maintainHerdLeader {checkTicks : UInt64}
    (able : s.world.Able env.agent [.herdLeader]) (h : s.world.Recalls env.agent .herdLeader) :
    Proper (maintainHerdLeader checkTicks) env s := by
  obtain ⟨b, hb, _⟩ := able.body
  unfold maintainHerdLeader
  refine .read (yields_now env s) ?_
  refine .ite .pure ?_
  refine .read (yields_me hb) ?_
  refine .require h MemoryValue.exists_agent fun leaderId _ => ?_
  refine .read (yields_world env s) ?_
  dsimp only
  split
  · exact Conducts.bind (conducts_forget (by decide)) (fun _ => .pure) env s able
  · refine .read (yields_remembered _ env s) ?_
    refine proper_joinBest able (able.indexed _ b hb) ?_ .pure
    intro c hc
    exact exists_of_mem_candidates c (List.mem_filter.mp hc).1

theorem proper_countFollowers {checkTicks : UInt64} (able : s.world.Able env.agent [.herdSize])
    (h : s.world.Recalls env.agent .nearestVisibleAgents) :
    Proper (countFollowers checkTicks) env s := by
  unfold countFollowers
  refine .read (yields_now env s) ?_
  refine .ite .pure ?_
  refine .read (yields_read env s) ?_
  refine Conducts.require able h MemoryValue.exists_agents fun nearby => ?_
  refine .bind conducts_world fun w => ?_
  refine .ite ?_ ?_
  · exact .bind (conducts_forget (by decide)) fun _ => .pure
  · exact .bind (conducts_remember (by decide) rfl (by decide)) fun _ => .pure

theorem conducts_followTarget? {tooFar closeEnough followChance : Float} {leaderId : AgentId}
    {leader : AgentView} :
    Conducts keys (followTarget? tooFar closeEnough followChance leaderId leader) := by
  unfold followTarget?
  refine .bind conducts_me fun me => ?_
  refine .bind (conducts_remembered _) fun target => ?_
  refine .ite .pure ?_
  refine .bind conducts_world fun w => ?_
  split
  · exact .pure
  · refine .ite .pure ?_
    refine .bind (conducts_chance _) fun holds => ?_
    exact .ite .pure .pure

theorem proper_followHerdLeader {tooFar closeEnough followChance : Float} {speed : Param}
    (able : s.world.Able env.agent [.herdLeader, .walkTarget, .lookTarget])
    (h : s.world.Recalls env.agent .herdLeader) :
    Proper (followHerdLeader tooFar closeEnough followChance speed) env s := by
  unfold followHerdLeader
  refine Conducts.require able h MemoryValue.exists_agent fun leaderId => ?_
  refine .bind conducts_world fun w => ?_
  split
  · exact .bind (conducts_forget (by decide)) fun _ => .pure
  · refine .bind conducts_followTarget? fun anchor => ?_
    split
    · exact .pure
    · refine .bind (conducts_drawDestination _) fun destination => ?_
      split
      · exact .pure
      · refine .bind (conducts_number _) fun s => ?_
        exact .bind (conducts_walkTo (by decide) (by decide)) fun _ => .pure

theorem conducts_switchToHerd : Conducts keys switchToHerd := by
  unfold switchToHerd
  refine .bind (conducts_isActive _) fun following => ?_
  exact .ite .pure (conducts_activate _)

theorem conducts_switchFromHerd {activity : Activity} : Conducts keys (switchFromHerd activity) := by
  unfold switchFromHerd
  refine .bind (conducts_isActive _) fun following => ?_
  exact .ite (conducts_activate _) .pure

end Task

/-- A leaf takes its turn where its requirements hold, and does nothing where they do not. -/
theorem Leaf.run_eq (env : ActEnv) (l : Leaf) (s : Stage) :
    l.run env s =
      if (s.world.memory? env.agent).any fun memory => memory.satisfiesAll l.needs.requirements then
        l.turn env s
      else ⟨.ok .failure, l, s⟩ := by
  have hsatisfies : (satisfies l.needs.requirements).runOn env s =
      (.ok ((s.world.memory? env.agent).any fun memory =>
        memory.satisfiesAll l.needs.requirements), s) := rfl
  unfold run
  rw [hsatisfies]
  cases (s.world.memory? env.agent).any _ with
  | true => rfl
  | false => rfl

end Menagerie
