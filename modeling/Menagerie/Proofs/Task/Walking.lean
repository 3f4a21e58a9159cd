import Menagerie.Proofs.Task.Frame
import Menagerie.Proofs.Task.Run
import Menagerie.Proofs.World.Walking

/-!
# How tasks walk, and what else they ask for

Every leaf that is able is about its agent's walking in one of the three ways, and besides movement it
asks for no more than it may (`Leaf.strides_run`): only a victim that is alive and not out of range is
attacked, and only an item that is close is picked up (`Leaf.Asks`).

Most tasks ask for no movement at all (`Act.Issues`) and may not touch what is remembered of it. The others
linger for as long as they read, give up or pause, and set out or halt at their very end
(`Act.Strides`).
-/

namespace Menagerie

/-- Whether an agent has some keys registered. -/
def World.Equipped (w : World) (me : AgentId) (keys : List MemoryKey) : Prop :=
  ∃ b, w.body? me = some b ∧ ∀ key ∈ keys, b.memory.isRegistered key

namespace World

variable {w w' w'' : World} {me : AgentId} {keys : List MemoryKey} {p : Intent → Prop}

theorem Equipped.mono {keys' : List MemoryKey} (h : w.Equipped me keys)
    (hkeys : ∀ key ∈ keys', key ∈ keys) : w.Equipped me keys' := by
  obtain ⟨b, hb, hregistered⟩ := h
  exact ⟨b, hb, fun key hkey => hregistered key (hkeys key hkey)⟩

theorem Equipped.of_lingers (h : w.Equipped me keys) (hlingers : w.Lingers p me w') :
    w'.Equipped me keys := by
  obtain ⟨b, hb, hkeys⟩ := h
  have hown := hlingers.touched.own
  rw [hb] at hown
  obtain ⟨b', hb', htouched⟩ := optionRel_some_left.mp hown
  refine ⟨b', hb', fun key hkey => ?_⟩
  rw [htouched.memory.registered]
  exact hkeys key hkey

theorem Lingers.strides (h : w.Lingers p me w') (h' : w'.Strides p me w'') : w.Strides p me w'' := by
  cases h' with
  | linger hlingers => exact .linger (h.trans hlingers)
  | walk hlingers hb hwalk hlook => exact .walk (h.trans hlingers) hb hwalk hlook
  | halt hlingers hfree => exact .halt (h.trans hlingers) hfree

end World

namespace Act

variable {α β : Type} {env : ActEnv} {s : Stage} {keys : List MemoryKey} {p : Intent → Prop}

/-! ## Intents -/

/-- Whether an action issues intents of some kind alone, whatever it comes to. -/
def Issues (p : Intent → Prop) (act : Act α) : Prop :=
  ∀ env s, Meets act env s (fun _ s' => s.world.Adds p env.agent s'.world)
    fun _ s' => s.world.Adds p env.agent s'.world

theorem Reads.issues {act : Act α} (h : Reads act) : Issues p act := fun env s =>
  (h env s).imp (fun _ _ hs' => World.adds_of_intents (congrArg World.intents hs'))
    fun _ _ hs' => World.adds_of_intents (congrArg World.intents hs')

theorem Issues.pure {a : α} : Issues p (pure a) := Reads.pure.issues

theorem Issues.bind {x : Act α} {f : α → Act β} (hx : Issues p x) (hf : ∀ a, Issues p (f a)) :
    Issues p (x >>= f) := by
  intro env s
  rw [meets_bind]
  refine (hx env s).imp ?_ fun _ _ he => he
  intro a s' hs'
  exact (hf a env s').imp (fun _ _ h => hs'.trans h) fun _ _ h => hs'.trans h

theorem Issues.ite {c : Prop} [Decidable c] {x y : Act α} (hx : Issues p x) (hy : Issues p y) :
    Issues p (if c then x else y) := by
  split
  · exact hx
  · exact hy

theorem issues_updateMemory {f : Blackboard → Except MemoryError Blackboard} :
    Issues p (updateMemory f) := by
  intro env s
  simp only [updateMemory, meets_bind, meets_read, (yields_world env s).meets]
  split
  · exact World.adds_of_intents rfl
  · split
    · exact World.adds_of_intents rfl
    · exact World.adds_of_intents rfl

theorem issues_remember {key : MemoryKey} {value : MemoryValue} : Issues p (remember key value) :=
  issues_updateMemory

theorem issues_rememberFor {key : MemoryKey} {value : MemoryValue} {ticks : UInt64} :
    Issues p (rememberFor key value ticks) :=
  issues_updateMemory

theorem issues_forgetOf {id : AgentId} {key : MemoryKey} : Issues p (forgetOf id key) := fun _ _ =>
  meets_modifyWorld.mpr (World.adds_of_intents rfl)

theorem issues_forget {key : MemoryKey} : Issues p (forget key) := fun _ _ =>
  meets_forget.mpr (World.adds_of_intents rfl)

theorem issues_issue {intent : Intent} (h : p intent) : Issues p (issue intent) := fun _ s =>
  meets_issue.mpr (World.adds_issue s.world h)

theorem issues_activate (activity : Activity) : Issues p (activate activity) := by
  intro env s
  simp only [activate, meets_bind, (yields_schedule env s).meets]
  split
  · exact World.adds_of_intents rfl
  · simp only [meets_bind, meets_read, meets_modifyWorld, meets_pure]
    exact World.adds_of_intents rfl

/-! ## Lingering -/

/-- Whether an action lingers, whatever it comes to. -/
structure Lingers (p : Intent → Prop) (act : Act α) : Prop where
  confined : Confined World.Lingering act
  issues : Issues p act

theorem Reads.lingers {act : Act α} (h : Reads act) : Lingers p act := ⟨h.confined, h.issues⟩

theorem Lingers.pure {a : α} : Lingers p (pure a) := Reads.pure.lingers

theorem Lingers.bind {x : Act α} {f : α → Act β} (hx : Lingers p x)
    (hf : ∀ a, Lingers p (f a)) : Lingers p (x >>= f) :=
  ⟨hx.confined.bind fun a => (hf a).confined, hx.issues.bind fun a => (hf a).issues⟩

theorem Lingers.meets {act : Act α} (h : Lingers p act) (env : ActEnv) (s : Stage) :
    Meets act env s (fun _ s' => s.world.Lingers p env.agent s'.world)
      fun _ s' => s.world.Lingers p env.agent s'.world :=
  ((h.confined env s).and (h.issues env s)).imp (fun _ _ h => ⟨h.1, h.2⟩) fun _ _ h => ⟨h.1, h.2⟩

theorem lingers_remember {key : MemoryKey} {value : MemoryValue} (hwalk : key ≠ .walkTarget)
    (hlook : key ≠ .lookTarget) : Lingers p (remember key value) :=
  ⟨confined_remember fun _ => ⟨hlook, fun heq => absurd heq hwalk⟩, issues_remember⟩

theorem lingers_rememberFor {key : MemoryKey} {value : MemoryValue} {ticks : UInt64}
    (hwalk : key ≠ .walkTarget) (hlook : key ≠ .lookTarget) :
    Lingers p (rememberFor key value ticks) :=
  ⟨confined_rememberFor fun _ => ⟨hlook, fun heq => absurd heq hwalk⟩, issues_rememberFor⟩

theorem lingers_forget {key : MemoryKey} (hlook : key ≠ .lookTarget) : Lingers p (forget key) :=
  ⟨confined_forget fun _ => ⟨hlook, fun _ => rfl⟩, issues_forget⟩

theorem lingers_issue {intent : Intent} (h : p intent) : Lingers p (issue intent) :=
  ⟨confined_issue intent, issues_issue h⟩

theorem lingers_activate (activity : Activity) : Lingers p (activate activity) :=
  ⟨confined_activate activity, issues_activate activity⟩

/-! ## Walking -/

/-- Whether an action that starts from a stage is about its agent's walking in one of the three ways,
whatever it comes to. -/
def StridesFrom (p : Intent → Prop) (act : Act α) (env : ActEnv) (s : Stage) : Prop :=
  Meets act env s (fun _ s' => s.world.Strides p env.agent s'.world)
    fun _ s' => s.world.Strides p env.agent s'.world

/-- Whether it is so wherever the agent has some keys. -/
def Strides (p : Intent → Prop) (keys : List MemoryKey) (act : Act α) : Prop :=
  ∀ env s, s.world.Equipped env.agent keys → StridesFrom p act env s

theorem Lingers.stridesFrom {act : Act α} (h : Lingers p act) : StridesFrom p act env s :=
  (h.meets env s).imp (fun _ _ h => .linger h) fun _ _ h => .linger h

theorem Lingers.strides {act : Act α} (h : Lingers p act) : Strides p keys act := fun _ _ _ =>
  h.stridesFrom

theorem Strides.pure {a : α} : Strides p keys (pure a) := Lingers.pure.strides

/-- An action goes on from what was read. -/
theorem StridesFrom.read {x : Act α} {a : α} {f : α → Act β} (hx : Yields x env s a)
    (hf : StridesFrom p (f a) env s) : StridesFrom p (x >>= f) env s := by
  unfold StridesFrom
  rw [meets_bind, hx.meets]
  exact hf

/-- Reading leaves the world as it is, though it may draw. -/
theorem StridesFrom.reads {x : Act α} {f : α → Act β} (hx : Reads x)
    (hf : ∀ a random, StridesFrom p (f a) env { s with random }) :
    StridesFrom p (x >>= f) env s := by
  unfold StridesFrom
  rw [meets_bind]
  refine (hx env s).imp ?_ ?_
  · rintro a ⟨_, random⟩ rfl
    exact hf a random
  · rintro _ ⟨_, random⟩ rfl
    exact .linger (.refl env.agent s.world)

/-- An action may linger first. -/
theorem Strides.bind {x : Act α} {f : α → Act β} (hx : Lingers p x) (hf : ∀ a, Strides p keys (f a)) :
    Strides p keys (x >>= f) := by
  intro env s equipped
  unfold StridesFrom
  rw [meets_bind]
  refine (hx.meets env s).imp ?_ fun _ _ h => .linger h
  intro a s' hlingers
  exact (hf a env s' (equipped.of_lingers hlingers)).imp (fun _ _ h => hlingers.strides h)
    fun _ _ h => hlingers.strides h

theorem Strides.ite {c : Prop} [Decidable c] {x y : Act α} (hx : Strides p keys x)
    (hy : Strides p keys y) : Strides p keys (if c then x else y) := by
  split
  · exact hx
  · exact hy

end Act

open Act

namespace Task

variable {env : ActEnv} {s : Stage} {keys : List MemoryKey} {p : Intent → Prop}

/-! ## Setting out -/

theorem strides_walkTo {position : Position} {speed completionRange : Float} {a : Bool}
    (hwalk : .walkTarget ∈ keys) (hlook : .lookTarget ∈ keys) :
    Strides p keys (do
      walkTo position speed completionRange
      return a) := by
  rintro env s ⟨b, hb, hkeys⟩
  let walking : Body := { b with
    memory := b.memory.put .walkTarget
      (some (.walkTarget ⟨position, speed, completionRange⟩, none)) }
  have hwalking : (s.world.mapMemory env.agent fun m => m.put .walkTarget
      (some (.walkTarget ⟨position, speed, completionRange⟩, none))).body? env.agent =
      some walking := by
    rw [World.body?_mapMemory, if_pos rfl, hb]
    rfl
  have hlooking : walking.memory.isRegistered .lookTarget := by
    rw [Blackboard.isRegistered_put]
    exact hkeys _ hlook
  unfold walkTo StridesFrom
  rw [meets_bind, meets_bind, meets_remember hb rfl (hkeys _ hwalk), meets_bind,
    meets_remember hwalking rfl hlooking, meets_issue]
  exact .walk (.refl env.agent s.world) hb (hkeys _ hwalk) (hkeys _ hlook)

theorem strides_wander {chance horizontal vertical speed : Param} {cooldown : UInt64} :
    Strides p [.walkTarget, .lookTarget] (wander chance horizontal vertical speed cooldown) := by
  unfold wander
  refine .bind (reads_number _).lingers fun p => ?_
  refine .bind (reads_chance p).lingers fun holds => ?_
  refine .ite ?_ .pure
  refine .bind (lingers_rememberFor (by decide) (by decide)) fun _ => ?_
  refine .bind reads_me.lingers fun me => ?_
  refine .bind (reads_number _).lingers fun h => ?_
  refine .bind (reads_number _).lingers fun v => ?_
  refine .bind (reads_drawDestination _).lingers fun destination => ?_
  split
  · exact .pure
  · refine .bind (reads_number _).lingers fun s => ?_
    exact strides_walkTo (by decide) (by decide)

theorem strides_moveIntoFluid {fluid : FeatureKind} {horizontal vertical : Float} {speed : Param}
    {cooldown : UInt64} :
    Strides p [.walkTarget, .lookTarget] (moveIntoFluid fluid horizontal vertical speed cooldown) := by
  unfold moveIntoFluid
  refine .bind reads_me.lingers fun me => ?_
  refine .ite .pure ?_
  refine .bind (lingers_rememberFor (by decide) (by decide)) fun _ => ?_
  refine .bind reads_world.lingers fun w => ?_
  split
  · exact .pure
  · refine .bind (reads_number _).lingers fun s => ?_
    exact strides_walkTo (by decide) (by decide)

theorem strides_fleeAttacker {speed desiredDistance : Float} :
    Strides p [.walkTarget, .lookTarget] (fleeAttacker speed desiredDistance) := by
  unfold fleeAttacker
  refine .bind reads_require.lingers fun id => ?_
  refine .bind reads_world.lingers fun w => ?_
  split
  · exact .pure
  · refine .bind reads_me.lingers fun me => ?_
    refine .ite .pure ?_
    refine .bind reads_world.lingers fun w => ?_
    split
    · exact .pure
    · exact strides_walkTo (by decide) (by decide)

/-- An agent that panics has forgotten where to walk when it asks to halt. -/
theorem strides_switchToPanicWhenHurt : Strides p keys switchToPanicWhenHurt := by
  unfold switchToPanicWhenHurt
  refine .bind (reads_isActive _).lingers fun panicking => ?_
  refine .ite .pure ?_
  refine .bind (lingers_activate _) fun activated => ?_
  refine .ite ?_ .pure
  intro env s _
  have hforgotten := (lingers_forget (by decide) : Lingers p (forget .walkTarget)).meets env s
  rw [meets_forget] at hforgotten
  unfold StridesFrom
  rw [meets_bind, meets_forget, meets_bind, meets_issue]
  refine .halt hforgotten ?_
  unfold World.remembered? World.memory?
  rw [World.body?_mapMemory, if_pos rfl]
  cases s.world.body? env.agent with
  | none => rfl
  | some b => exact Body.get?_erase_walkTarget b.memory

/-- An agent strikes only at a victim that is alive, and not out of the range of the task. -/
theorem stridesFrom_meleeAttack {range chaseSpeed : Float} {cooldown : UInt64}
    (equipped : s.world.Equipped env.agent [.walkTarget, .lookTarget])
    (hlook : ∀ position, p (.lookAt position))
    (hattack : ∀ victim near far, s.world.isAlive victim → s.world.position? env.agent = some near →
      s.world.position? victim = some far → ¬ near.distance far > range → p (.attack victim)) :
    StridesFrom p (meleeAttack range cooldown chaseSpeed) env s := by
  obtain ⟨b, hb, _⟩ := id equipped
  unfold meleeAttack
  refine .reads reads_require fun target random => ?_
  refine .read (yields_world env _) ?_
  split
  · exact (Lingers.bind (lingers_forget (by decide)) fun _ => .pure).stridesFrom
  · next victim hvictim =>
    obtain ⟨hview, halive⟩ := Option.filter_eq_some_iff.mp hvictim
    refine .read (yields_me hb) ?_
    split
    · exact strides_walkTo (by decide) (by decide) env { s with random } equipped
    · next hnear =>
      have hstruck : p (.attack target) := by
        refine hattack target b.view.position victim.position ?_ ?_ ?_ hnear
        · unfold World.isAlive
          rw [hview]
          exact halive
        · unfold World.position? World.view?
          rw [hb]
          rfl
        · unfold World.position?
          rw [hview]
          rfl
      refine Lingers.stridesFrom ?_
      refine .bind (lingers_issue (hlook _)) fun _ => ?_
      refine .bind (lingers_issue hstruck) fun _ => ?_
      exact .bind (lingers_rememberFor (by decide) (by decide)) fun _ => .pure

theorem strides_findRestingPlace {horizontal vertical : Float} {speed : Param} {cooldown : UInt64} :
    Strides p [.walkTarget, .lookTarget] (findRestingPlace horizontal vertical speed cooldown) := by
  unfold findRestingPlace
  refine .bind (lingers_rememberFor (by decide) (by decide)) fun _ => ?_
  refine .bind reads_me.lingers fun me => ?_
  refine .bind reads_world.lingers fun w => ?_
  split
  · exact .pure
  · refine .bind (lingers_remember (by decide) (by decide)) fun _ => ?_
    refine .ite .pure ?_
    refine .bind (reads_number _).lingers fun s => ?_
    exact strides_walkTo (by decide) (by decide)

/-- An agent that gives up an item forgets where to walk, and asks for nothing. -/
theorem lingers_giveUp : Lingers p giveUp := by
  unfold giveUp
  refine .bind (lingers_forget (by decide)) fun _ => ?_
  refine .bind (lingers_forget (by decide)) fun _ => ?_
  exact lingers_forget (by decide)

/-- An agent picks up only what is within its hands' reach. -/
theorem stridesFrom_moveToItem {condition : Param} {speed maxDistance : Float} {maxAttempts : UInt32}
    {disableTicks : UInt64} (equipped : s.world.Equipped env.agent [.walkTarget, .lookTarget])
    (hpickUp : ∀ item near far, s.world.position? env.agent = some near →
      s.world.itemPosition? item = some far → near.distance far ≤ pickupRange → p (.pickUp item)) :
    StridesFrom p (moveToItem condition speed maxDistance maxAttempts disableTicks) env s := by
  obtain ⟨b, hb, _⟩ := id equipped
  unfold moveToItem
  refine .reads reads_evaluate fun holds random => ?_
  split
  · exact Lingers.pure.stridesFrom
  · refine .reads reads_require fun item random => ?_
    refine .read (yields_world env _) ?_
    split
    · exact (Lingers.bind lingers_giveUp fun _ => .pure).stridesFrom
    · next position hposition =>
      refine .read (yields_me hb) ?_
      dsimp only
      split
      · exact Lingers.pure.stridesFrom
      · split
        · next hnear =>
          have htaken : p (.pickUp item) := by
            refine hpickUp item b.view.position position ?_ hposition hnear
            unfold World.position? World.view?
            rw [hb]
            rfl
          refine Lingers.stridesFrom (.bind (lingers_issue htaken) fun _ => ?_)
          exact .bind lingers_giveUp fun _ => .pure
        · refine (.bind (reads_remembered _).lingers fun tried => ?_ :
            Strides p [.walkTarget, .lookTarget] _) env { s with random } equipped
          refine .ite ?_ ?_
          · refine .bind lingers_giveUp fun _ => ?_
            exact .bind (lingers_rememberFor (by decide) (by decide)) fun _ => .pure
          · refine .bind (lingers_remember (by decide) (by decide)) fun _ => ?_
            exact strides_walkTo (by decide) (by decide)

theorem strides_pathToFlower {speed : Param} :
    Strides p [.walkTarget, .lookTarget] (pathToFlower speed) := by
  unfold pathToFlower
  refine .bind reads_require.lingers fun flower => ?_
  refine .bind reads_me.lingers fun me => ?_
  refine .ite .pure ?_
  refine .bind (reads_number _).lingers fun s => ?_
  exact strides_walkTo (by decide) (by decide)

theorem strides_followHerdLeader {tooFar closeEnough followChance : Float} {speed : Param} :
    Strides p [.walkTarget, .lookTarget] (followHerdLeader tooFar closeEnough followChance speed) := by
  unfold followHerdLeader
  refine .bind reads_require.lingers fun leaderId => ?_
  refine .bind reads_world.lingers fun w => ?_
  split
  · exact .bind (lingers_forget (by decide)) fun _ => .pure
  · refine .bind reads_followTarget?.lingers fun anchor => ?_
    split
    · exact .pure
    · refine .bind (reads_drawDestination _).lingers fun destination => ?_
      split
      · exact .pure
      · refine .bind (reads_number _).lingers fun s => ?_
        exact strides_walkTo (by decide) (by decide)

/-! ## Staying -/

theorem issues_calmDown {activity : Activity} : Issues p (calmDown activity) := by
  unfold calmDown
  refine .bind (reads_isActive _).issues fun panicking => ?_
  refine .bind (reads_isActive _).issues fun fighting => ?_
  refine .ite .pure ?_
  refine .bind (issues_activate _) fun activated => ?_
  exact .ite (.bind issues_forget fun _ => .pure) .pure

theorem issues_retaliate : Issues p retaliate := by
  unfold retaliate
  refine .bind reads_require.issues fun attacker => ?_
  refine .bind reads_world.issues fun w => ?_
  refine .ite .pure ?_
  exact .bind issues_remember fun _ => .bind (issues_activate _) fun _ => .pure

theorem issues_goToSleep {activity : Activity} (hpose : ∀ pose, p (.setPose pose)) :
    Issues p (goToSleep activity) := by
  unfold goToSleep
  refine .bind reads_me.issues fun me => ?_
  refine .bind (reads_remembered _).issues fun rest => ?_
  refine .ite .pure ?_
  refine .bind (issues_issue (hpose _)) fun _ => ?_
  exact .bind issues_remember fun _ => .bind (issues_activate _) fun _ => .pure

theorem issues_wakeUp {activity : Activity} (hpose : ∀ pose, p (.setPose pose)) :
    Issues p (wakeUp activity) := by
  unfold wakeUp
  refine .bind (reads_remembered _).issues fun drowsy => ?_
  refine .bind (reads_remembered _).issues fun hurt => ?_
  refine .ite .pure ?_
  refine .bind (issues_issue (hpose _)) fun _ => ?_
  refine .bind issues_forget fun _ => .bind issues_forget fun _ => ?_
  exact .bind (issues_activate _) fun _ => .pure

theorem issues_attendFlower {flower : Position} {arrived : Bool} {cooldown : UInt64}
    (hlook : ∀ position, p (.lookAt position)) (haspect : ∀ name, p (.setAspect name true))
    (visit : FlowerStay.Visit) :
    Issues p (attendFlower flower arrived cooldown visit) := by
  have hafter : Issues p (do
      if visit = .finished then
        remember .hasNectar .flag
        rememberFor .pollinateCooldown .flag cooldown
        issue (.setAspect nectarAspect true)
      return true) := by
    refine .ite ?_ .pure
    refine .bind issues_remember fun _ => .bind issues_rememberFor fun _ => ?_
    exact .bind (issues_issue (haspect _)) fun _ => .pure
  cases visit with
  | away => exact .pure
  | staying | finished => exact .ite (.bind (issues_issue (hlook _)) fun _ => hafter) hafter

theorem issues_claimLeader {leader : AgentId} : Issues p (claimLeader leader) :=
  .bind issues_forgetOf fun _ => issues_remember

theorem issues_findHerdLeader {checkTicks : UInt64} : Issues p (findHerdLeader checkTicks) := by
  unfold findHerdLeader
  refine .bind reads_now.issues fun now => .ite .pure ?_
  refine .bind reads_me.issues fun me => .bind reads_world.issues fun w => ?_
  split
  · exact .pure
  · refine .bind reads_require.issues fun nearby => .bind reads_world.issues fun w => ?_
    split
    · exact .pure
    · exact .bind issues_claimLeader fun _ => .pure

theorem issues_maintainHerdLeader {checkTicks : UInt64} :
    Issues p (maintainHerdLeader checkTicks) := by
  unfold maintainHerdLeader
  refine .bind reads_now.issues fun now => .ite .pure ?_
  refine .bind reads_me.issues fun me => .bind reads_require.issues fun leaderId => ?_
  refine .bind reads_world.issues fun w => ?_
  dsimp only
  split
  · exact .bind issues_forget fun _ => .pure
  · refine .bind (reads_remembered _).issues fun nearby => ?_
    split
    · exact .pure
    · exact .bind issues_claimLeader fun _ => .pure

theorem issues_countFollowers {checkTicks : UInt64} : Issues p (countFollowers checkTicks) := by
  unfold countFollowers
  refine .bind reads_now.issues fun now => .ite .pure ?_
  refine .bind reads_read.issues fun env => .bind reads_require.issues fun nearby => ?_
  refine .bind reads_world.issues fun w => .ite ?_ ?_
  · exact .bind issues_forget fun _ => .pure
  · exact .bind issues_remember fun _ => .pure

theorem issues_switchToHerd : Issues p switchToHerd := by
  unfold switchToHerd
  exact .bind (reads_isActive _).issues fun following => .ite .pure (issues_activate _)

theorem issues_switchFromHerd {activity : Activity} : Issues p (switchFromHerd activity) := by
  unfold switchFromHerd
  exact .bind (reads_isActive _).issues fun following => .ite (issues_activate _) .pure

end Task

namespace Leaf

/-- What a leaf may ask for besides movement, in a world and for an agent. -/
inductive Asks (w : World) (me : AgentId) : Leaf → Intent → Prop
  /-- A victim that is alive is attacked where it is not out of range. -/
  | attack {range chaseSpeed : Float} {cooldown : UInt64} {victim : AgentId} {near far : Position} :
      w.isAlive victim → w.position? me = some near → w.position? victim = some far →
      ¬ near.distance far > range → Asks w me (meleeAttack range cooldown chaseSpeed) (.attack victim)
  | face {range chaseSpeed : Float} {cooldown : UInt64} (position : Position) :
      Asks w me (meleeAttack range cooldown chaseSpeed) (.lookAt position)
  /-- An item that lies there is picked up where it is close. -/
  | pickUp {condition : Param} {speed maxDistance : Float} {maxAttempts : UInt32}
      {disableTicks : UInt64} {item : ItemId} {near far : Position} :
      w.position? me = some near → w.itemPosition? item = some far →
      near.distance far ≤ Task.pickupRange →
      Asks w me (moveToItem condition speed maxDistance maxAttempts disableTicks) (.pickUp item)
  | lieDown {activity : Activity} (pose : Pose) : Asks w me (goToSleep activity) (.setPose pose)
  | getUp {activity : Activity} (pose : Pose) : Asks w me (wakeUp activity) (.setPose pose)
  | admire {required cooldown : UInt64} {stay : FlowerStay} (position : Position) :
      Asks w me (pollinateFlower required cooldown stay) (.lookAt position)
  | wear {required cooldown : UInt64} {stay : FlowerStay} (name : String) :
      Asks w me (pollinateFlower required cooldown stay) (.setAspect name true)

variable {env : ActEnv} {s : Stage} {l : Leaf}

theorem Asks.still {w : World} {me : AgentId} {intent : Intent} (h : Asks w me l intent) :
    intent.Still := by
  cases h <;> rfl

theorem Asks.of_attack {w : World} {me victim : AgentId} (h : Asks w me l (.attack victim)) :
    ∃ range cooldown chaseSpeed near far, l = meleeAttack range cooldown chaseSpeed ∧
      w.isAlive victim ∧ w.position? me = some near ∧ w.position? victim = some far ∧
      ¬ near.distance far > range := by
  cases h with
  | attack halive hme hvictim hrange =>
    exact ⟨_, _, _, _, _, rfl, halive, hme, hvictim, hrange⟩

theorem Asks.of_pickUp {w : World} {me : AgentId} {item : ItemId} (h : Asks w me l (.pickUp item)) :
    ∃ near far, w.position? me = some near ∧ w.itemPosition? item = some far ∧
      near.distance far ≤ Task.pickupRange := by
  cases h with
  | pickUp hme hitem hnear => exact ⟨_, _, hme, hitem, hnear⟩

theorem adds_pollinateFlower {required cooldown : UInt64} {stay : FlowerStay} :
    s.world.Adds (Asks s.world env.agent (pollinateFlower required cooldown stay)) env.agent
      ((pollinateFlower required cooldown stay).turn env s).state.world := by
  have hlook := Task.reads_lookAtFlower env s
  unfold Meets at hlook
  unfold turn Task.pollinateFlower runOn
  split at hlook
  · next place s' heq =>
    obtain ⟨flower, near⟩ := place
    rw [heq]
    dsimp only
    obtain ⟨stay', arrived, visit⟩ := stay.visit required near flower
    have hattended : s'.world.Adds (Asks s.world env.agent (pollinateFlower required cooldown stay))
        env.agent ((Task.attendFlower flower arrived cooldown visit).runOn env s').2.world :=
      of_meets (Task.issues_attendFlower .admire .wear visit env s')
    rw [hlook] at hattended
    exact hattended
  · next fault s' heq =>
    rw [heq]
    exact World.adds_of_intents (congrArg World.intents hlook)

/-- A leaf that may not touch what is remembered of where to walk asks for no movement. -/
theorem adds_turn (h : .walkTarget ∉ l.touched) :
    s.world.Adds (l.Asks s.world env.agent) env.agent (l.turn env s).state.world := by
  cases l with
  | doNothing => exact World.adds_of_intents rfl
  | calmDown => exact of_meets (Task.issues_calmDown env s)
  | retaliate => exact of_meets (Task.issues_retaliate env s)
  | goToSleep => exact of_meets (Task.issues_goToSleep .lieDown env s)
  | wakeUp => exact of_meets (Task.issues_wakeUp .getUp env s)
  | pollinateFlower => exact adds_pollinateFlower
  | findHerdLeader => exact of_meets (Task.issues_findHerdLeader env s)
  | maintainHerdLeader => exact of_meets (Task.issues_maintainHerdLeader env s)
  | countFollowers => exact of_meets (Task.issues_countFollowers env s)
  | switchToHerd => exact of_meets (Task.issues_switchToHerd env s)
  | switchFromHerd => exact of_meets (Task.issues_switchFromHerd env s)
  | _ => exact absurd (by simp [touched]) h

/-- Such a leaf lingers. -/
theorem lingers_turn (h : .walkTarget ∉ l.touched) (hindexed : s.world.Indexed) :
    s.world.Lingers (l.Asks s.world env.agent) env.agent (l.turn env s).state.world := by
  have hkeys : .walkTarget ∉ l.touched → .lookTarget ∉ l.touched ∧
      ∀ ticks, l.pause? ≠ some (.walkTarget, ticks) ∧ l.pause? ≠ some (.lookTarget, ticks) := by
    cases l <;> simp [touched, pause?]
  obtain ⟨hlook, hpause⟩ := hkeys h
  refine ⟨(touched_turn l hindexed).imp fun now key slot hmay => ?_, adds_turn h⟩
  rcases hmay with htouched | ⟨ticks, hpaused, _⟩
  · exact ⟨fun heq => hlook (heq ▸ htouched), fun heq => absurd (heq ▸ htouched) h⟩
  · exact ⟨fun heq => (hpause ticks).2 (heq ▸ hpaused),
      fun heq => absurd (heq ▸ hpaused) (hpause ticks).1⟩

theorem strides_turn (hindexed : s.world.Indexed)
    (equipped : s.world.Equipped env.agent l.needs.memories) :
    s.world.Strides (l.Asks s.world env.agent) env.agent (l.turn env s).state.world := by
  by_cases h : .walkTarget ∈ l.touched
  · have hkeys : .lookTarget ∈ l.touched →
        ∀ key ∈ [MemoryKey.walkTarget, .lookTarget], key ∈ l.needs.memories := by
      cases l <;> simp [touched, needs]
    have walks : .lookTarget ∈ l.touched → s.world.Equipped env.agent [.walkTarget, .lookTarget] :=
      fun hlook => equipped.mono (hkeys hlook)
    cases l with
    | switchToPanicWhenHurt => exact of_meets (Task.strides_switchToPanicWhenHurt env s equipped)
    | wander => exact of_meets (Task.strides_wander env s (walks (by simp [touched])))
    | fleeAttacker => exact of_meets (Task.strides_fleeAttacker env s (walks (by simp [touched])))
    | meleeAttack =>
      exact of_meets (Task.stridesFrom_meleeAttack (walks (by simp [touched])) .face
        fun _ _ _ => .attack)
    | findRestingPlace =>
      exact of_meets (Task.strides_findRestingPlace env s (walks (by simp [touched])))
    | moveIntoFluid => exact of_meets (Task.strides_moveIntoFluid env s (walks (by simp [touched])))
    | moveToItem =>
      exact of_meets (Task.stridesFrom_moveToItem (walks (by simp [touched])) fun _ _ _ => .pickUp)
    | pathToFlower => exact of_meets (Task.strides_pathToFlower env s (walks (by simp [touched])))
    | followHerdLeader =>
      exact of_meets (Task.strides_followHerdLeader env s (walks (by simp [touched])))
    | _ => simp [touched] at h
  · exact .linger (lingers_turn h hindexed)

/-- Every leaf that is able is about its agent's walking in one of the three ways. -/
theorem strides_run (able : s.world.Able env.agent l.needs.memories) :
    s.world.Strides (l.Asks s.world env.agent) env.agent (l.run env s).state.world := by
  rcases run_cases env l s with ⟨_, _, _, heq⟩ | heq
  · rw [heq]
    obtain ⟨b, hb, _, hkeys⟩ := able.body
    exact strides_turn able.indexed ⟨b, hb, hkeys⟩
  · rw [heq]
    exact .linger (.refl env.agent s.world)

end Leaf

end Menagerie
