import Menagerie.Proofs.Task.Conduct
import Menagerie.Proofs.World.Frame
import Menagerie.Task.Run

/-!
# What tasks may touch

Whatever a task comes to, be it a fault, it touches no more than its leaf may (`Leaf.touched_run`): it
writes or clears some keys of its agent's memory (`Leaf.touched`), and it may set a pause under one more
key (`Leaf.pause?`), which it asks to be empty. It may do so in any world whose bodies are kept under
their own numbers, whatever is registered and remembered there.

A task that takes a leader clears a key of another agent's memory. This cannot be told, as nobody is
chosen who has a value under that key.
-/

namespace Menagerie

theorem World.Indexed.of_touched {may : Tick → MemoryKey → MemorySlot → Prop} {me : AgentId}
    {w w' : World} (h : w.Indexed) (touched : w.Touched may me w') : w'.Indexed := by
  intro id b' hb'
  have hview := touched.view? id
  unfold World.view? at hview
  rw [hb'] at hview
  obtain ⟨b, hb, heq⟩ := Option.map_eq_some_iff.mp hview.symm
  rw [← heq]
  exact h id b hb

namespace Act

variable {α β : Type} {env : ActEnv} {s : Stage} {may : Tick → MemoryKey → MemorySlot → Prop}

/-- Whether an action leaves the world as it is, whatever it comes to. -/
def Reads (act : Act α) : Prop :=
  ∀ env s, Meets act env s (fun _ s' => s'.world = s.world) fun _ s' => s'.world = s.world

/-- Whether an action that starts from a stage touches no more than it may, whatever it comes to. -/
def Within (may : Tick → MemoryKey → MemorySlot → Prop) (act : Act α) (env : ActEnv) (s : Stage) :
    Prop :=
  Meets act env s (fun _ s' => s.world.Touched may env.agent s'.world)
    fun _ s' => s.world.Touched may env.agent s'.world

/-- Whether an action touches no more than it may, wherever it starts. -/
def Confined (may : Tick → MemoryKey → MemorySlot → Prop) (act : Act α) : Prop :=
  ∀ env s, Within may act env s

/-! ## Putting actions together -/

theorem Reads.pure {a : α} : Reads (pure a) := fun _ _ => rfl

theorem Reads.throw {fault : TaskFault} : Reads (throw fault : Act α) := fun _ _ => rfl

theorem Reads.bind {x : Act α} {f : α → Act β} (hx : Reads x) (hf : ∀ a, Reads (f a)) :
    Reads (x >>= f) := by
  intro env s
  rw [meets_bind]
  refine (hx env s).imp ?_ fun _ _ he => he
  intro a s' hs'
  exact (hf a env s').imp (fun _ _ h => h.trans hs') fun _ _ h => h.trans hs'

theorem Reads.ite {c : Prop} [Decidable c] {x y : Act α} (hx : Reads x) (hy : Reads y) :
    Reads (if c then x else y) := by
  split
  · exact hx
  · exact hy

theorem Within.runOn {act : Act α} (h : Within may act env s) :
    s.world.Touched may env.agent (act.runOn env s).2.world :=
  of_meets h

theorem Reads.runOn {act : Act α} (h : Reads act) (env : ActEnv) (s : Stage) :
    (act.runOn env s).2.world = s.world :=
  of_meets (h env s)

theorem Reads.confined {act : Act α} (h : Reads act) : Confined may act := by
  intro env s
  refine (h env s).imp ?_ ?_
  · intro _ s' hs'
    rw [hs']
    exact .refl _
  · intro _ s' hs'
    rw [hs']
    exact .refl _

/-- An action goes on from what was read. -/
theorem Within.read {x : Act α} {a : α} {f : α → Act β} (hx : Yields x env s a)
    (hf : Within may (f a) env s) : Within may (x >>= f) env s := by
  unfold Within
  rw [meets_bind, hx.meets]
  exact hf

theorem Confined.pure {a : α} : Confined may (pure a) := Reads.pure.confined

theorem Confined.bind {x : Act α} {f : α → Act β} (hx : Confined may x)
    (hf : ∀ a, Confined may (f a)) : Confined may (x >>= f) := by
  intro env s
  unfold Within
  rw [meets_bind]
  refine (hx env s).imp ?_ fun _ _ he => he
  intro a s' hs'
  exact (hf a env s').imp (fun _ _ h => hs'.trans h) fun _ _ h => hs'.trans h

theorem Confined.ite {c : Prop} [Decidable c] {x y : Act α} (hx : Confined may x)
    (hy : Confined may y) : Confined may (if c then x else y) := by
  split
  · exact hx
  · exact hy

/-! ## Reading -/

theorem reads_of_yields {x : Act α} (hx : ∀ env s, ∃ a, Yields x env s a) : Reads x := by
  intro env s
  obtain ⟨a, ha⟩ := hx env s
  exact ha.meets.mpr rfl

theorem reads_world : Reads world := reads_of_yields fun env s => ⟨_, yields_world env s⟩

theorem reads_now : Reads now := reads_of_yields fun env s => ⟨_, yields_now env s⟩

theorem reads_read : Reads (read : Act ActEnv) := reads_of_yields fun env s => ⟨_, yields_read env s⟩

theorem reads_remembered (key : MemoryKey) : Reads (remembered key) :=
  reads_of_yields fun env s => ⟨_, yields_remembered key env s⟩

theorem reads_isActive (activity : Activity) : Reads (isActive activity) :=
  reads_of_yields fun env s => ⟨_, yields_isActive activity env s⟩

theorem reads_me : Reads me := by
  unfold me
  refine .bind reads_read fun env => .bind reads_world fun w => ?_
  split
  · exact .pure
  · exact .throw

theorem reads_evaluate {look : Nat → Scope → Param → Except EvalError α} {p : Param} :
    Reads (evaluate look p) := by
  unfold evaluate
  refine .bind reads_me fun view => .bind reads_world fun w => .bind reads_read fun env => ?_
  split
  · exact .pure
  · exact .throw

theorem reads_number (p : Param) : Reads (number p) := reads_evaluate

theorem reads_draw : Reads draw := by
  intro env s
  simp only [draw, meets_bind, meets_get, meets_set, meets_pure]

theorem reads_chance (p : Float) : Reads (chance p) := by
  unfold chance
  split
  · exact reads_draw.bind fun x => .pure
  · exact .pure

theorem reads_spread (range : Float) : Reads (spread range) := by
  unfold spread
  refine .ite .throw (.ite .pure ?_)
  intro env s
  simp only [meets_bind, meets_get, meets_set, meets_pure]

theorem reads_require {task : String} {key : MemoryKey} {shape : MemoryValue → Option α} :
    Reads (Task.require task key shape) := by
  unfold Task.require
  refine .bind (reads_remembered key) fun value => ?_
  split
  · exact .pure
  · exact .throw

/-! ## Touching -/

/-- A value that the agent may keep until a tick is stored, or refused. -/
theorem confined_store {key : MemoryKey} {value : MemoryValue}
    {f : Blackboard → Except MemoryError Blackboard} (expiresAt : Tick → Option Tick)
    (hf : ∀ m, f m = m.store key value (expiresAt m.now))
    (hmay : ∀ now, may now key (some (value, expiresAt now))) : Confined may (updateMemory f) := by
  intro env s
  simp only [Within, updateMemory, meets_bind, meets_read, (yields_world env s).meets]
  split
  · exact .refl _
  · next memory hmemory =>
    split
    · next memory' hstored =>
      rw [hf] at hstored
      obtain ⟨_, _, rfl⟩ := Blackboard.store_eq_ok_iff.mp hstored
      refine World.touched_updateBody fun b hb => ?_
      obtain rfl : b.memory = memory := by
        unfold World.memory? at hmemory
        rw [hb] at hmemory
        exact Option.some.inj hmemory
      exact ⟨rfl, Blackboard.touched_put (hmay b.memory.now), .refl b.schedule⟩
    · exact .refl _

theorem confined_remember {key : MemoryKey} {value : MemoryValue}
    (hmay : ∀ now, may now key (some (value, none))) : Confined may (remember key value) :=
  confined_store (fun _ => none) (fun _ => rfl) hmay

theorem confined_rememberFor {key : MemoryKey} {value : MemoryValue} {ticks : UInt64}
    (hmay : ∀ now, may now key (some (value, some (now.after ticks)))) :
    Confined may (rememberFor key value ticks) :=
  confined_store (fun now => some (now.after ticks)) (fun _ => rfl) hmay

theorem confined_forget {key : MemoryKey} (hmay : ∀ now, may now key none) :
    Confined may (forget key) := by
  intro env s
  simp only [Within, forget, forgetOf, meets_bind, meets_read, meets_modifyWorld]
  exact World.touched_put fun b _ => hmay b.memory.now

theorem confined_issue (intent : Intent) : Confined may (issue intent) := by
  intro env s
  simp only [Within, issue, meets_bind, meets_read, meets_modifyWorld]
  exact World.touched_issue s.world intent

theorem confined_activate (activity : Activity) : Confined may (activate activity) := by
  intro env s
  simp only [Within, activate, meets_bind, (yields_schedule env s).meets]
  split
  · exact .refl _
  · next schedule hactivated =>
    simp only [meets_bind, meets_read, meets_modifyWorld, meets_pure]
    refine World.touched_updateBody fun b hb => ⟨rfl, .refl _, ?_⟩
    obtain ⟨before, hbefore, hschedule⟩ := Option.bind_eq_some_iff.mp hactivated
    unfold World.schedule? at hbefore
    rw [hb] at hbefore
    cases hbefore
    exact Schedule.switches_of_activate? hschedule

end Act

/-- What a memory may come to keep under a key: anything under some keys, and under one more a flag for
so many ticks. -/
def MayKeep (keys : List MemoryKey) (pause? : Option (MemoryKey × UInt64)) (now : Tick)
    (key : MemoryKey) (slot : MemorySlot) : Prop :=
  key ∈ keys ∨ ∃ ticks, pause? = some (key, ticks) ∧ slot = some (.flag, some (now.after ticks))

namespace Leaf

/-- The keys that a leaf writes or clears as it likes. -/
def touched : Leaf → List MemoryKey
  | doNothing | switchToHerd | switchFromHerd _ => []
  | wander .. | fleeAttacker .. | moveIntoFluid .. | pathToFlower _ => [.walkTarget, .lookTarget]
  | switchToPanicWhenHurt => [.walkTarget]
  | calmDown _ | retaliate => [.attackTarget]
  | meleeAttack .. => [.attackTarget, .walkTarget, .lookTarget]
  | findRestingPlace .. => [.restPosition, .walkTarget, .lookTarget]
  | goToSleep _ => [.sleeping]
  | wakeUp _ => [.sleeping, .restPosition]
  | moveToItem .. => [.wantedItem, .walkTarget, .lookTarget, .timeTryingToReachItem]
  | pollinateFlower .. => [.hasNectar]
  | findHerdLeader _ | maintainHerdLeader _ => [.herdLeader]
  | countFollowers _ => [.herdSize]
  | followHerdLeader .. => [.herdLeader, .walkTarget, .lookTarget]

/-- The key under which a leaf sets a pause, and how many ticks that lasts. -/
def pause? : Leaf → Option (MemoryKey × UInt64)
  | wander _ _ _ _ cooldown | findRestingPlace _ _ _ cooldown | moveIntoFluid _ _ _ _ cooldown =>
    some (.pathCooldown, cooldown)
  | meleeAttack _ cooldown _ => some (.attackCooling, cooldown)
  | moveToItem _ _ _ _ disableTicks => some (.disableWalkToItem, disableTicks)
  | pollinateFlower _ cooldown _ => some (.pollinateCooldown, cooldown)
  | _ => none

/-- A leaf sets a pause only where none is. -/
theorem empty_of_pause? {l : Leaf} {key : MemoryKey} {ticks : UInt64}
    (h : l.pause? = some (key, ticks)) : .empty key ∈ l.needs.requirements := by
  cases l <;> cases h <;> simp [needs]

end Leaf

open Act

namespace Task

variable {env : ActEnv} {s : Stage} {keys : List MemoryKey} {pause? : Option (MemoryKey × UInt64)}

theorem confined_remember {key : MemoryKey} {value : MemoryValue} (h : key ∈ keys) :
    Confined (MayKeep keys pause?) (remember key value) :=
  Act.confined_remember fun _ => .inl h

theorem confined_forget {key : MemoryKey} (h : key ∈ keys) :
    Confined (MayKeep keys pause?) (forget key) :=
  Act.confined_forget fun _ => .inl h

theorem confined_pause {key : MemoryKey} {ticks : UInt64} :
    Confined (MayKeep keys (some (key, ticks))) (rememberFor key .flag ticks) :=
  confined_rememberFor fun _ => .inr ⟨ticks, rfl, rfl⟩

/-! ## Walking -/

theorem confined_walkTo {position : Position} {speed completionRange : Float}
    (hwalk : .walkTarget ∈ keys) (hlook : .lookTarget ∈ keys) :
    Confined (MayKeep keys pause?) (walkTo position speed completionRange) := by
  unfold walkTo
  refine .bind (confined_remember hwalk) fun _ => ?_
  refine .bind (confined_remember hlook) fun _ => ?_
  exact confined_issue _

theorem reads_drawDestination {around : Position} {horizontal vertical : Float} (attempts : Nat) :
    Reads (drawDestination around horizontal vertical attempts) := by
  induction attempts with
  | zero => exact .pure
  | succ attempts ih =>
    rw [drawDestination]
    refine .bind (reads_spread _) fun dx => ?_
    refine .bind (reads_spread _) fun dy => ?_
    refine .bind (reads_spread _) fun dz => ?_
    refine .bind reads_world fun w => ?_
    split
    · exact .pure
    · exact ih

theorem confined_wander {chance horizontal vertical speed : Param} {cooldown : UInt64} :
    Confined (MayKeep [.walkTarget, .lookTarget] (some (.pathCooldown, cooldown)))
      (wander chance horizontal vertical speed cooldown) := by
  unfold wander
  refine .bind (reads_number _).confined fun p => ?_
  refine .bind (reads_chance p).confined fun holds => ?_
  refine .ite ?_ .pure
  refine .bind confined_pause fun _ => ?_
  refine .bind reads_me.confined fun me => ?_
  refine .bind (reads_number _).confined fun h => ?_
  refine .bind (reads_number _).confined fun v => ?_
  refine .bind (reads_drawDestination _).confined fun destination => ?_
  split
  · exact .pure
  · refine .bind (reads_number _).confined fun s => ?_
    exact .bind (confined_walkTo (by decide) (by decide)) fun _ => .pure

theorem confined_moveIntoFluid {fluid : FeatureKind} {horizontal vertical : Float} {speed : Param}
    {cooldown : UInt64} :
    Confined (MayKeep [.walkTarget, .lookTarget] (some (.pathCooldown, cooldown)))
      (moveIntoFluid fluid horizontal vertical speed cooldown) := by
  unfold moveIntoFluid
  refine .bind reads_me.confined fun me => ?_
  refine .ite .pure ?_
  refine .bind confined_pause fun _ => ?_
  refine .bind reads_world.confined fun w => ?_
  split
  · exact .pure
  · refine .bind (reads_number _).confined fun s => ?_
    exact .bind (confined_walkTo (by decide) (by decide)) fun _ => .pure

/-! ## Danger -/

theorem confined_fleeAttacker {speed desiredDistance : Float} :
    Confined (MayKeep [.walkTarget, .lookTarget] pause?) (fleeAttacker speed desiredDistance) := by
  unfold fleeAttacker
  refine .bind reads_require.confined fun id => ?_
  refine .bind reads_world.confined fun w => ?_
  split
  · exact .pure
  · refine .bind reads_me.confined fun me => ?_
    refine .ite .pure ?_
    refine .bind reads_world.confined fun w => ?_
    split
    · exact .pure
    · exact .bind (confined_walkTo (by decide) (by decide)) fun _ => .pure

theorem confined_switchToPanicWhenHurt :
    Confined (MayKeep [.walkTarget] pause?) switchToPanicWhenHurt := by
  unfold switchToPanicWhenHurt
  refine .bind (reads_isActive _).confined fun panicking => ?_
  refine .ite .pure ?_
  refine .bind (confined_activate _) fun activated => ?_
  refine .ite ?_ .pure
  refine .bind (confined_forget (by decide)) fun _ => ?_
  exact .bind (confined_issue _) fun _ => .pure

theorem confined_calmDown {activity : Activity} :
    Confined (MayKeep [.attackTarget] pause?) (calmDown activity) := by
  unfold calmDown
  refine .bind (reads_isActive _).confined fun panicking => ?_
  refine .bind (reads_isActive _).confined fun fighting => ?_
  refine .ite .pure ?_
  refine .bind (confined_activate _) fun activated => ?_
  refine .ite ?_ .pure
  exact .bind (confined_forget (by decide)) fun _ => .pure

theorem confined_retaliate : Confined (MayKeep [.attackTarget] pause?) retaliate := by
  unfold retaliate
  refine .bind reads_require.confined fun attacker => ?_
  refine .bind reads_world.confined fun w => ?_
  refine .ite .pure ?_
  refine .bind (confined_remember (by decide)) fun _ => ?_
  exact .bind (confined_activate _) fun _ => .pure

theorem confined_meleeAttack {range chaseSpeed : Float} {cooldown : UInt64} :
    Confined (MayKeep [.attackTarget, .walkTarget, .lookTarget] (some (.attackCooling, cooldown)))
      (meleeAttack range cooldown chaseSpeed) := by
  unfold meleeAttack
  refine .bind reads_require.confined fun target => ?_
  refine .bind reads_world.confined fun w => ?_
  split
  · exact .bind (confined_forget (by decide)) fun _ => .pure
  · refine .bind reads_me.confined fun me => ?_
    refine .ite ?_ ?_
    · exact .bind (confined_walkTo (by decide) (by decide)) fun _ => .pure
    · refine .bind (confined_issue _) fun _ => ?_
      refine .bind (confined_issue _) fun _ => ?_
      exact .bind confined_pause fun _ => .pure

/-! ## Rest -/

theorem confined_findRestingPlace {horizontal vertical : Float} {speed : Param} {cooldown : UInt64} :
    Confined (MayKeep [.restPosition, .walkTarget, .lookTarget] (some (.pathCooldown, cooldown)))
      (findRestingPlace horizontal vertical speed cooldown) := by
  unfold findRestingPlace
  refine .bind confined_pause fun _ => ?_
  refine .bind reads_me.confined fun me => ?_
  refine .bind reads_world.confined fun w => ?_
  split
  · exact .pure
  · refine .bind (confined_remember (by decide)) fun _ => ?_
    refine .ite .pure ?_
    refine .bind (reads_number _).confined fun s => ?_
    exact .bind (confined_walkTo (by decide) (by decide)) fun _ => .pure

theorem confined_goToSleep {activity : Activity} :
    Confined (MayKeep [.sleeping] pause?) (goToSleep activity) := by
  unfold goToSleep
  refine .bind reads_me.confined fun me => ?_
  refine .bind (reads_remembered _).confined fun rest => ?_
  refine .ite .pure ?_
  refine .bind (confined_issue _) fun _ => ?_
  refine .bind (confined_remember (by decide)) fun _ => ?_
  exact .bind (confined_activate _) fun _ => .pure

theorem confined_wakeUp {activity : Activity} :
    Confined (MayKeep [.sleeping, .restPosition] pause?) (wakeUp activity) := by
  unfold wakeUp
  refine .bind (reads_remembered _).confined fun drowsy => ?_
  refine .bind (reads_remembered _).confined fun hurt => ?_
  refine .ite .pure ?_
  refine .bind (confined_issue _) fun _ => ?_
  refine .bind (confined_forget (by decide)) fun _ => ?_
  refine .bind (confined_forget (by decide)) fun _ => ?_
  exact .bind (confined_activate _) fun _ => .pure

/-! ## Foraging -/

theorem confined_giveUp (hitem : .wantedItem ∈ keys) (hwalk : .walkTarget ∈ keys)
    (htries : .timeTryingToReachItem ∈ keys) : Confined (MayKeep keys pause?) giveUp := by
  unfold giveUp
  refine .bind (confined_forget hitem) fun _ => ?_
  refine .bind (confined_forget hwalk) fun _ => ?_
  exact confined_forget htries

theorem confined_moveToItem {condition : Param} {speed maxDistance : Float} {maxAttempts : UInt32}
    {disableTicks : UInt64} :
    Confined (MayKeep [.wantedItem, .walkTarget, .lookTarget, .timeTryingToReachItem]
        (some (.disableWalkToItem, disableTicks)))
      (moveToItem condition speed maxDistance maxAttempts disableTicks) := by
  unfold moveToItem
  have hgiveUp : Confined (MayKeep [.wantedItem, .walkTarget, .lookTarget, .timeTryingToReachItem]
      (some (.disableWalkToItem, disableTicks))) giveUp :=
    confined_giveUp (by decide) (by decide) (by decide)
  refine .bind reads_evaluate.confined fun holds => ?_
  refine .ite .pure ?_
  refine .bind reads_require.confined fun item => ?_
  refine .bind reads_world.confined fun w => ?_
  split
  · exact .bind hgiveUp fun _ => .pure
  · refine .bind reads_me.confined fun me => ?_
    refine .ite .pure ?_
    refine .ite ?_ ?_
    · refine .bind (confined_issue _) fun _ => ?_
      exact .bind hgiveUp fun _ => .pure
    · refine .bind (reads_remembered _).confined fun tried => ?_
      refine .ite ?_ ?_
      · refine .bind hgiveUp fun _ => ?_
        exact .bind confined_pause fun _ => .pure
      · refine .bind (confined_remember (by decide)) fun _ => ?_
        exact .bind (confined_walkTo (by decide) (by decide)) fun _ => .pure

theorem confined_pathToFlower {speed : Param} :
    Confined (MayKeep [.walkTarget, .lookTarget] pause?) (pathToFlower speed) := by
  unfold pathToFlower
  refine .bind reads_require.confined fun flower => ?_
  refine .bind reads_me.confined fun me => ?_
  refine .ite .pure ?_
  refine .bind (reads_number _).confined fun s => ?_
  exact .bind (confined_walkTo (by decide) (by decide)) fun _ => .pure

theorem reads_lookAtFlower : Reads lookAtFlower := by
  unfold lookAtFlower
  refine .bind reads_require fun flower => ?_
  exact .bind reads_me fun me => .pure

theorem confined_attendFlower {flower : Position} {arrived : Bool} {cooldown : UInt64}
    (visit : FlowerStay.Visit) :
    Confined (MayKeep [.hasNectar] (some (.pollinateCooldown, cooldown)))
      (attendFlower flower arrived cooldown visit) := by
  have hafter : Confined (MayKeep [.hasNectar] (some (.pollinateCooldown, cooldown))) (do
      if visit = .finished then
        remember .hasNectar .flag
        rememberFor .pollinateCooldown .flag cooldown
        issue (.setAspect nectarAspect true)
      return true) := by
    refine .ite ?_ .pure
    refine .bind (confined_remember (by decide)) fun _ => ?_
    refine .bind confined_pause fun _ => ?_
    exact .bind (confined_issue _) fun _ => .pure
  cases visit with
  | away => exact .pure
  | staying | finished => exact .ite (.bind (confined_issue _) fun _ => hafter) hafter

/-! ## Herding -/

/-- Taking another agent that follows nobody as a leader cannot be told from that agent. -/
theorem within_claimLeader {leader : AgentId} (hne : leader ≠ env.agent)
    (hfree : s.world.remembered? leader .herdLeader = none) :
    Within (MayKeep [.herdLeader] pause?) (claimLeader leader) env s := by
  have hfreed : s.world.Touched (MayKeep [.herdLeader] pause?) env.agent
      (s.world.mapMemory leader fun m => m.erase .herdLeader) := by
    refine World.touched_updateBody_of_ne hne fun b hb => ⟨rfl, Blackboard.alike_erase ?_⟩
    unfold World.remembered? World.memory? at hfree
    rw [hb] at hfree
    exact hfree
  unfold Within claimLeader forgetOf
  rw [meets_bind, meets_modifyWorld]
  have htaken : Confined (MayKeep [.herdLeader] pause?) (remember .herdLeader (.agent leader)) :=
    confined_remember List.mem_cons_self
  exact (htaken env _).imp (fun _ _ h => hfreed.trans h) fun _ _ h => hfreed.trans h

/-- Going over to a leader that was chosen among the agents of the world. -/
theorem within_joinBest {me : AgentView} {profile : HerdProfile} {candidates : List LeaderCandidate}
    {aboveLevel : Option UInt32} {stay : Act Bool} (hindexed : s.world.Indexed)
    (hme : me.id = env.agent)
    (hcandidates : ∀ c ∈ candidates, ∃ id, LeaderCandidate.ofWorld? s.world id = some c)
    (hstay : Within (MayKeep [.herdLeader] pause?) stay env s) :
    Within (MayKeep [.herdLeader] pause?) (match bestLeader? me profile candidates aboveLevel with
      | none => stay
      | some leader => do
        claimLeader leader
        return true) env s := by
  cases hbest : bestLeader? me profile candidates aboveLevel with
  | none => exact hstay
  | some leader =>
    obtain ⟨hne, hfree⟩ := of_bestLeader? hindexed hcandidates hbest
    rw [hme] at hne
    unfold Within
    rw [meets_bind]
    exact within_claimLeader hne hfree

/-- What an agent does with what it sees of itself. -/
theorem within_bind_me {β : Type} {may : Tick → MemoryKey → MemorySlot → Prop}
    {f : AgentView → Act β} (hindexed : s.world.Indexed)
    (hf : ∀ me : AgentView, me.id = env.agent → Within may (f me) env s) :
    Within may (me >>= f) env s := by
  unfold Within
  rw [meets_bind]
  cases hb : s.world.body? env.agent with
  | none =>
    have hview : s.world.view? env.agent = none := by
      unfold World.view?
      rw [hb]
      rfl
    simp only [me, meets_bind, meets_read, (yields_world env s).meets, hview]
    exact .refl _
  | some b => exact (yields_me hb).meets.mpr (hf b.view (hindexed _ b hb))

/-- What an agent does with what it requires. -/
theorem within_bind_require {α β : Type} {may : Tick → MemoryKey → MemorySlot → Prop} {task : String}
    {key : MemoryKey} {shape : MemoryValue → Option α} {f : α → Act β}
    (hf : ∀ a, Within may (f a) env s) : Within may (require task key shape >>= f) env s := by
  unfold Within require
  rw [meets_bind, meets_bind, (yields_remembered key env s).meets]
  split
  · exact hf _
  · exact .refl _

theorem within_findHerdLeader {checkTicks : UInt64} (hindexed : s.world.Indexed) :
    Within (MayKeep [.herdLeader] pause?) (findHerdLeader checkTicks) env s := by
  unfold findHerdLeader
  refine .read (yields_now env s) ?_
  split
  · exact Confined.pure env s
  · refine within_bind_me hindexed fun me hme => ?_
    refine .read (yields_world env s) ?_
    split
    · exact Confined.pure env s
    · refine within_bind_require fun nearby => ?_
      refine .read (yields_world env s) ?_
      exact within_joinBest hindexed hme exists_of_mem_candidates (Confined.pure env s)

theorem within_maintainHerdLeader {checkTicks : UInt64} (hindexed : s.world.Indexed) :
    Within (MayKeep [.herdLeader] pause?) (maintainHerdLeader checkTicks) env s := by
  unfold maintainHerdLeader
  refine .read (yields_now env s) ?_
  split
  · exact Confined.pure env s
  · refine within_bind_me hindexed fun me hme => ?_
    refine within_bind_require fun leaderId => ?_
    refine .read (yields_world env s) ?_
    dsimp only
    split
    · exact Confined.bind (confined_forget List.mem_cons_self) (fun _ => .pure) env s
    · refine .read (yields_remembered _ env s) ?_
      refine within_joinBest hindexed hme ?_ (Confined.pure env s)
      intro c hc
      exact exists_of_mem_candidates c (List.mem_filter.mp hc).1

theorem confined_countFollowers {checkTicks : UInt64} :
    Confined (MayKeep [.herdSize] pause?) (countFollowers checkTicks) := by
  unfold countFollowers
  refine .bind reads_now.confined fun now => ?_
  refine .ite .pure ?_
  refine .bind reads_read.confined fun env => ?_
  refine .bind reads_require.confined fun nearby => ?_
  refine .bind reads_world.confined fun w => ?_
  refine .ite ?_ ?_
  · exact .bind (confined_forget (by decide)) fun _ => .pure
  · exact .bind (confined_remember (by decide)) fun _ => .pure

theorem reads_followTarget? {tooFar closeEnough followChance : Float} {leaderId : AgentId}
    {leader : AgentView} :
    Reads (followTarget? tooFar closeEnough followChance leaderId leader) := by
  unfold followTarget?
  refine .bind reads_me fun me => ?_
  refine .bind (reads_remembered _) fun target => ?_
  refine .ite .pure ?_
  refine .bind reads_world fun w => ?_
  split
  · exact .pure
  · refine .ite .pure ?_
    refine .bind (reads_chance _) fun holds => ?_
    exact .ite .pure .pure

theorem confined_followHerdLeader {tooFar closeEnough followChance : Float} {speed : Param} :
    Confined (MayKeep [.herdLeader, .walkTarget, .lookTarget] pause?)
      (followHerdLeader tooFar closeEnough followChance speed) := by
  unfold followHerdLeader
  refine .bind reads_require.confined fun leaderId => ?_
  refine .bind reads_world.confined fun w => ?_
  split
  · exact .bind (confined_forget (by decide)) fun _ => .pure
  · refine .bind reads_followTarget?.confined fun anchor => ?_
    split
    · exact .pure
    · refine .bind (reads_drawDestination _).confined fun destination => ?_
      split
      · exact .pure
      · refine .bind (reads_number _).confined fun s => ?_
        exact .bind (confined_walkTo (by decide) (by decide)) fun _ => .pure

theorem confined_switchToHerd : Confined (MayKeep keys pause?) switchToHerd := by
  unfold switchToHerd
  refine .bind (reads_isActive _).confined fun following => ?_
  exact .ite .pure (confined_activate _)

theorem confined_switchFromHerd {activity : Activity} :
    Confined (MayKeep keys pause?) (switchFromHerd activity) := by
  unfold switchFromHerd
  refine .bind (reads_isActive _).confined fun following => ?_
  exact .ite (confined_activate _) .pure

end Task

namespace Leaf

variable {env : ActEnv} {s : Stage}

/-- What a leaf does touches no more than the leaf may. -/
theorem within_act (l : Leaf) (hindexed : s.world.Indexed) :
    Within (MayKeep l.touched l.pause?) l.act env s := by
  cases l with
  | doNothing => exact Confined.pure env s
  | wander => exact Task.confined_wander env s
  | fleeAttacker => exact Task.confined_fleeAttacker env s
  | switchToPanicWhenHurt => exact Task.confined_switchToPanicWhenHurt env s
  | calmDown => exact Task.confined_calmDown env s
  | retaliate => exact Task.confined_retaliate env s
  | meleeAttack => exact Task.confined_meleeAttack env s
  | findRestingPlace => exact Task.confined_findRestingPlace env s
  | goToSleep => exact Task.confined_goToSleep env s
  | wakeUp => exact Task.confined_wakeUp env s
  | moveIntoFluid => exact Task.confined_moveIntoFluid env s
  | moveToItem => exact Task.confined_moveToItem env s
  | pathToFlower => exact Task.confined_pathToFlower env s
  | pollinateFlower => exact Confined.pure env s
  | findHerdLeader => exact Task.within_findHerdLeader hindexed
  | maintainHerdLeader => exact Task.within_maintainHerdLeader hindexed
  | countFollowers => exact Task.confined_countFollowers env s
  | followHerdLeader => exact Task.confined_followHerdLeader env s
  | switchToHerd => exact Task.confined_switchToHerd env s
  | switchFromHerd => exact Task.confined_switchFromHerd env s

theorem touched_pollinateFlower {required cooldown : UInt64} {stay : FlowerStay} :
    s.world.Touched (MayKeep [.hasNectar] (some (.pollinateCooldown, cooldown))) env.agent
      ((pollinateFlower required cooldown stay).turn env s).state.world := by
  have hlook := Task.reads_lookAtFlower env s
  unfold Meets at hlook
  unfold turn Task.pollinateFlower runOn
  split at hlook
  · next place s' heq =>
    obtain ⟨flower, near⟩ := place
    rw [heq]
    dsimp only
    obtain ⟨stay', arrived, visit⟩ := stay.visit required near flower
    have hattended := (Task.confined_attendFlower visit env s' :
      Within (MayKeep [.hasNectar] (some (.pollinateCooldown, cooldown)))
        (Task.attendFlower flower arrived cooldown visit) env s').runOn
    rw [hlook] at hattended
    exact hattended
  · next fault s' heq =>
    rw [heq]
    show s.world.Touched _ env.agent s'.world
    rw [hlook]
    exact .refl _

theorem touched_turn (l : Leaf) (hindexed : s.world.Indexed) :
    s.world.Touched (MayKeep l.touched l.pause?) env.agent (l.turn env s).state.world := by
  cases l with
  | pollinateFlower => exact touched_pollinateFlower
  | _ => exact (within_act _ hindexed).runOn

/-- A leaf runs where its requirements hold, and changes nothing where they do not. -/
theorem run_cases (env : ActEnv) (l : Leaf) (s : Stage) :
    (∃ memory, s.world.memory? env.agent = some memory ∧
        memory.satisfiesAll l.needs.requirements ∧ l.run env s = l.turn env s) ∨
      l.run env s = ⟨.ok .failure, l, s⟩ := by
  rw [run_eq]
  split
  · next hany =>
    obtain ⟨memory, hmemory, hall⟩ := (Option.any_eq_true _ _).mp hany
    exact .inl ⟨memory, hmemory, hall, rfl⟩
  · exact .inr rfl

/-- A leaf whose requirements hold takes its turn. -/
theorem run_of_satisfied {l : Leaf} {b : Body} (hb : s.world.body? env.agent = some b)
    (h : b.memory.satisfiesAll l.needs.requirements) : l.run env s = l.turn env s := by
  have hmemory : s.world.memory? env.agent = some b.memory := congrArg (Option.map Body.memory) hb
  rw [run_eq, hmemory]
  exact if_pos h

/-- A run of a leaf touches no more than the leaf may. -/
theorem touched_run (l : Leaf) (hindexed : s.world.Indexed) :
    s.world.Touched (MayKeep l.touched l.pause?) env.agent (l.run env s).state.world := by
  rcases run_cases env l s with ⟨_, _, _, heq⟩ | heq
  · rw [heq]
    exact touched_turn l hindexed
  · rw [heq]
    exact .refl _

end Leaf

end Menagerie
