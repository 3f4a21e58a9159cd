import Menagerie.Proofs.Agent.Runs

/-!
# Going after an item

An agent that goes after the item it wants counts its attempts. A turn at the item leaves the want and the
count as they are, ends both, or stores a count that is one higher (`Blackboard.Attempts`). Nothing else that
agents do touches either of them (`LeafRun.attempts`). An agent that chases the item without reaching it counts
no further than it may, and gives up then (`Task.ItemTurn`).
-/

namespace Menagerie

/-- Whether a leaf is one that goes after an item. -/
def Leaf.pursues : Leaf → Bool
  | moveToItem .. => true
  | _ => false

/-- How often a leaf that goes after an item attempts to reach it. -/
def Leaf.maxAttempts? : Leaf → Option UInt32
  | moveToItem _ _ _ maxAttempts _ => some maxAttempts
  | _ => none

theorem Leaf.exists_maxAttempts_of_pursues {l : Leaf} (hl : l.pursues) :
    ∃ maxAttempts, l.maxAttempts? = some maxAttempts := by
  cases l with
  | moveToItem => exact ⟨_, rfl⟩
  | _ => cases hl

namespace Blackboard

variable {m m' m'' : Blackboard}

/-- The item that is wanted. -/
def wanted? (m : Blackboard) : Option ItemId := (m.get? .wantedItem).bind MemoryValue.item?

/-- How often it was attempted to reach the item, if that is remembered. -/
def attempts? (m : Blackboard) : Option UInt32 := (m.get? .timeTryingToReachItem).bind MemoryValue.count?

/-- What a turn at an item may do to the want and to the count of attempts. -/
inductive Attempts (m m' : Blackboard) : Prop
  | keeps : m'.state .wantedItem = m.state .wantedItem →
      m'.state .timeTryingToReachItem = m.state .timeTryingToReachItem → Attempts m m'
  /-- The agent gives up, or reaches for the item. -/
  | ends : m'.get? .wantedItem = none → m'.get? .timeTryingToReachItem = none → Attempts m m'
  | counts {item : ItemId} : m.wanted? = some item → m'.state .wantedItem = m.state .wantedItem →
      m'.state .timeTryingToReachItem = .present (.count (m.attempts?.getD 0 + 1)) none → Attempts m m'

theorem get?_congr {key : MemoryKey} (h : m'.state key = m.state key) : m'.get? key = m.get? key := by
  unfold get?
  rw [h]

end Blackboard

namespace MemoryKey

/-- What an agent remembers of the pursuit of an item. -/
def ofPursuit : List MemoryKey := [.wantedItem, .walkTarget, .timeTryingToReachItem]

end MemoryKey

namespace Blackboard

/-- A memory once the pursuit of an item is over. -/
def endPursuit (m : Blackboard) : Blackboard :=
  ((m.erase .wantedItem).erase .walkTarget).erase .timeTryingToReachItem

/-- A memory once the pursuit of an item is over, and no other is to begin for so many ticks. -/
def pausePursuit (m : Blackboard) (ticks : UInt64) : Blackboard :=
  m.endPursuit.put .disableWalkToItem (some (.flag, some (m.now.after ticks)))

/-- A memory once another attempt is counted. -/
def countAttempt (m : Blackboard) : Blackboard :=
  m.put .timeTryingToReachItem (some (.count (m.attempts?.getD 0 + 1), none))

theorem isRegistered_of_empty {m : Blackboard} {key : MemoryKey} (h : m.satisfies (.empty key)) :
    m.isRegistered key := by
  have hempty : (m.state key).isEmpty := h
  rw [isRegistered_iff]
  intro habsent
  rw [habsent] at hempty
  cases hempty

theorem get?_erase_of_eq_none {m : Blackboard} {key : MemoryKey} (h : m.get? key = none) (other : MemoryKey) :
    (m.erase other).get? key = none := by
  by_cases hkey : key = other
  · rw [hkey]
    exact get?_erase_self m other
  · refine (get?_congr ?_).trans h
    rw [state_erase, if_neg hkey]

theorem get?_endPursuit (m : Blackboard) : ∀ key ∈ MemoryKey.ofPursuit, m.endPursuit.get? key = none := by
  unfold MemoryKey.ofPursuit
  rw [List.forall_mem_cons, List.forall_mem_cons, List.forall_mem_singleton]
  refine ⟨?_, ?_, get?_erase_self _ _⟩
  · exact get?_erase_of_eq_none (get?_erase_of_eq_none (get?_erase_self m _) _) _
  · exact get?_erase_of_eq_none (get?_erase_self _ _) _

theorem isRegistered_endPursuit (m : Blackboard) (key : MemoryKey) :
    m.endPursuit.isRegistered key = m.isRegistered key := by
  unfold endPursuit
  rw [(quiet_erase _ _).registered, (quiet_erase _ _).registered, (quiet_erase _ _).registered]

theorem get?_pausePursuit (m : Blackboard) (ticks : UInt64) :
    ∀ key ∈ MemoryKey.ofPursuit, (m.pausePursuit ticks).get? key = none := by
  intro key hkey
  refine (get?_congr (state_put_of_ne _ ?_)).trans (m.get?_endPursuit key hkey)
  rintro rfl
  exact absurd hkey (by decide)

/-- A turn that ends the pursuit leaves no count. -/
theorem attempts_of_ended {m m' : Blackboard} (h : ∀ key ∈ MemoryKey.ofPursuit, m'.get? key = none) :
    m.Attempts m' ∧ m'.attempts? = none := by
  have hcount : m'.get? .timeTryingToReachItem = none := h _ (by decide)
  refine ⟨.ends (h _ (by decide)) hcount, ?_⟩
  unfold attempts?
  rw [hcount]
  rfl

end Blackboard

open Act

/-- What an action promises is to be had from what it comes to. -/
theorem Act.meets_of_runOn {α : Type} {act : Act α} {env : ActEnv} {s t : Stage}
    {outcome : Except TaskFault α} {good : α → Stage → Prop} {bad : TaskFault → Stage → Prop}
    (h : act.runOn env s = (outcome, t)) (hgood : ∀ a, outcome = .ok a → good a t)
    (hbad : ∀ fault, outcome = .error fault → bad fault t) : Meets act env s good bad := by
  unfold Meets
  rw [show (act.run env).run.run s = (outcome, t) from h]
  cases outcome with
  | ok a => exact hgood a rfl
  | error fault => exact hbad fault rfl

namespace Task

variable {condition : Param} {speed maxDistance : Float} {maxAttempts : UInt32} {disableTicks : UInt64}
  {env : ActEnv} {s t u : Stage} {b : Body} {item other : ItemId} {position place : Position}

/-- Whether an agent with a body chases an item: it wants the item, the condition of its leaf holds, and the
item lies neither too far away nor within reach. -/
structure Chases (condition : Param) (maxDistance : Float) (env : ActEnv) (s : Stage) (b : Body)
    (item : ItemId) (position : Position) : Prop where
  holds : ((Act.bool condition).runOn env s).1.toOption = some true
  wanted : b.memory.wanted? = some item
  lies : s.world.itemPosition? item = some position
  near : ¬ b.view.position.distance position > maxDistance
  apart : ¬ b.view.position.distance position ≤ pickupRange

/-- An agent chases one item, and at the place where it lies. -/
theorem Chases.unique (h : Chases condition maxDistance env s b other place)
    (hwanted : b.memory.wanted? = some item) : s.world.itemPosition? item = some place := by
  rw [← Option.some.inj (h.wanted.symm.trans hwanted)]
  exact h.lies

/-- What a turn at an item may come to. An agent that chases the item counts the attempt, or it gives up and
pauses if it has made as many as it may. -/
inductive ItemTurn (condition : Param) (maxDistance : Float) (maxAttempts : UInt32) (disableTicks : UInt64)
    (env : ActEnv) (s : Stage) (b : Body) (t : Stage) : Prop
  | idle : (∀ item position, ¬ Chases condition maxDistance env s b item position) → t.world = s.world →
      ItemTurn condition maxDistance maxAttempts disableTicks env s b t
  /-- The item is gone, or the agent reaches for it. -/
  | ends : (∀ item position, ¬ Chases condition maxDistance env s b item position) →
      t.world.body? env.agent = some { b with memory := b.memory.endPursuit } →
      ItemTurn condition maxDistance maxAttempts disableTicks env s b t
  | givesUp : maxAttempts < b.memory.attempts?.getD 0 + 1 →
      t.world.body? env.agent = some { b with memory := b.memory.pausePursuit disableTicks } →
      ItemTurn condition maxDistance maxAttempts disableTicks env s b t
  | counts {item : ItemId} {b' : Body} : b.memory.attempts?.getD 0 + 1 ≤ maxAttempts →
      b.memory.wanted? = some item → t.world.body? env.agent = some b' →
      b'.memory.state .wantedItem = b.memory.state .wantedItem →
      b'.memory.state .timeTryingToReachItem = .present (.count (b.memory.attempts?.getD 0 + 1)) none →
      ItemTurn condition maxDistance maxAttempts disableTicks env s b t

theorem meets_giveUp (hb : s.world.body? env.agent = some b) {good : Unit → Stage → Prop}
    {bad : TaskFault → Stage → Prop}
    (h : ∀ t : Stage, t.world.body? env.agent = some { b with memory := b.memory.endPursuit } →
      good () t) : Meets giveUp env s good bad := by
  unfold giveUp
  simp only [meets_bind, meets_forget]
  exact h _ (World.body?_mapMemory_self (World.body?_mapMemory_self (World.body?_mapMemory_self hb _) _) _)

/-- Walking to the item leaves the count that was stored. -/
theorem ItemTurn.of_walk (hspare : b.memory.attempts?.getD 0 + 1 ≤ maxAttempts)
    (hwanted : b.memory.wanted? = some item) (hcount : b.memory.isRegistered .timeTryingToReachItem)
    (ht : t.world.body? env.agent = some { b with memory := b.memory.countAttempt })
    (hwalk : t.world.Touched (MayKeep [.walkTarget, .lookTarget] none) env.agent u.world) :
    ItemTurn condition maxDistance maxAttempts disableTicks env s b u := by
  have hown := hwalk.own
  rw [ht, optionRel_some_left] at hown
  obtain ⟨b', hb', hown⟩ := hown
  refine .counts hspare hwanted hb' ?_ ?_
  · rw [hown.memory.state (by simp [MayKeep])]
    exact Blackboard.state_put_of_ne _ (by decide)
  · rw [hown.memory.state (by simp [MayKeep])]
    exact Blackboard.state_put_self hcount

theorem meets_moveToItem (hb : s.world.body? env.agent = some b)
    (hcount : b.memory.isRegistered .timeTryingToReachItem)
    (hpause : b.memory.isRegistered .disableWalkToItem) :
    Meets (moveToItem condition speed maxDistance maxAttempts disableTicks) env s
      (fun _ => ItemTurn condition maxDistance maxAttempts disableTicks env s b)
      fun _ => ItemTurn condition maxDistance maxAttempts disableTicks env s b := by
  obtain ⟨outcome, t, hrun⟩ : ∃ outcome t, (Act.bool condition).runOn env s = (outcome, t) :=
    ⟨_, _, rfl⟩
  -- Looking at the condition changes nothing.
  have hreads : ((Act.bool condition).runOn env s).2.world = s.world := reads_evaluate.runOn env s
  have ht : t.world = s.world := by
    rw [hrun] at hreads
    exact hreads
  have hidle (h : ∀ item position, ¬ Chases condition maxDistance env s b item position) :
      ItemTurn condition maxDistance maxAttempts disableTicks env s b t := .idle h ht
  have hunheld (hnot : outcome.toOption ≠ some true) :
      ItemTurn condition maxDistance maxAttempts disableTicks env s b t := by
    refine hidle fun item position hchases => hnot ?_
    have hholds := hchases.holds
    rw [hrun] at hholds
    exact hholds
  unfold moveToItem
  rw [meets_bind]
  refine meets_of_runOn hrun (fun holds hok => ?_) fun fault herror => hunheld ?_
  · split
    · next hfails => exact hunheld (by rw [hok]; simpa [Except.toOption] using hfails)
    rw [← ht] at hb
    cases hitem : (t.world.remembered? env.agent .wantedItem).bind MemoryValue.item? with
    | none =>
      have hnone : b.memory.wanted? = none := by
        rw [World.remembered?_of_body? hb] at hitem
        exact hitem
      rw [meets_bind]
      unfold require
      rw [meets_bind, (yields_remembered _ env t).meets, hitem]
      refine hidle fun item position hchases => ?_
      cases hnone.symm.trans hchases.wanted
    | some item =>
      have hwanted : b.memory.wanted? = some item := by
        rw [World.remembered?_of_body? hb] at hitem
        exact hitem
      rw [meets_bind, (yields_require hitem).meets, meets_bind, (yields_world env t).meets, ht]
      split
      · next hgone =>
        rw [meets_bind]
        refine meets_giveUp hb fun ended hended => .ends (fun other place hchases => ?_) hended
        cases hgone.symm.trans (hchases.unique hwanted)
      · next position hlies =>
        have hplace {other : ItemId} {place : Position}
            (hchases : Chases condition maxDistance env s b other place) : place = position :=
          Option.some.inj ((hchases.unique hwanted).symm.trans hlies)
        rw [meets_bind, (yields_me hb).meets]
        dsimp only
        split
        · next hfar => exact hidle fun _ _ hchases => hchases.near (hplace hchases ▸ hfar)
        split
        · next hreach =>
          let reaching : Stage := { t with world := t.world.issue env.agent (.pickUp item) }
          have hb' : reaching.world.body? env.agent = some b := hb
          rw [meets_bind, meets_issue, meets_bind]
          exact meets_giveUp hb' fun ended hended =>
            .ends (fun _ _ hchases => hchases.apart (hplace hchases ▸ hreach)) hended
        rw [meets_bind, (yields_remembered _ env t).meets, World.remembered?_of_body? hb]
        split
        · next hspent =>
          rw [meets_bind]
          refine meets_giveUp hb fun ended hended => ?_
          have hroom : b.memory.endPursuit.isRegistered .disableWalkToItem := by
            rw [Blackboard.isRegistered_endPursuit]
            exact hpause
          rw [meets_bind, meets_rememberFor hended rfl hroom]
          exact .givesUp hspent (World.body?_mapMemory_self hended _)
        · next hspare =>
          have hwalk : Confined (MayKeep [.walkTarget, .lookTarget] none)
              (walkTo position speed (pickupRange * 0.5)) := confined_walkTo (by decide) (by decide)
          rw [meets_bind, meets_remember hb rfl hcount, meets_bind]
          have hbody := World.body?_mapMemory_self hb fun m => m.put .timeTryingToReachItem
            (some (.count (b.memory.attempts?.getD 0 + 1), none))
          have hle := UInt32.not_lt.mp hspare
          refine (hwalk env _).imp ?_ ?_
          · exact fun _ _ hwalked => .of_walk hle hwanted hcount hbody hwalked
          · exact fun _ _ hwalked => .of_walk hle hwanted hcount hbody hwalked
  · rw [herror]
    simp [Except.toOption]

/-- What a turn may do to the want and to the count, which does not get higher than it may. -/
theorem ItemTurn.attempts (h : ItemTurn condition maxDistance maxAttempts disableTicks env s b t)
    (hb : s.world.body? env.agent = some b) :
    ∃ b', t.world.body? env.agent = some b' ∧ b.memory.Attempts b'.memory ∧
      ∀ n, b'.memory.attempts? = some n → b.memory.attempts? = some n ∨
        n = b.memory.attempts?.getD 0 + 1 ∧ n ≤ maxAttempts := by
  cases h with
  | idle _ ht => exact ⟨b, ht ▸ hb, .keeps rfl rfl, fun n hn => .inl hn⟩
  | ends _ ht =>
    obtain ⟨hattempts, hnone⟩ := Blackboard.attempts_of_ended b.memory.get?_endPursuit
    refine ⟨_, ht, hattempts, fun n hn => ?_⟩
    cases hnone.symm.trans hn
  | givesUp _ ht =>
    obtain ⟨hattempts, hnone⟩ := Blackboard.attempts_of_ended (b.memory.get?_pausePursuit disableTicks)
    refine ⟨_, ht, hattempts, fun n hn => ?_⟩
    cases hnone.symm.trans hn
  | counts hspare hwanted ht hwant hcount =>
    refine ⟨_, ht, .counts hwanted hwant hcount, fun n hn => .inr ?_⟩
    unfold Blackboard.attempts? Blackboard.get? at hn
    rw [hcount] at hn
    cases hn
    exact ⟨rfl, hspare⟩

end Task

namespace Leaf

variable {env : ActEnv} {s : Stage} {b : Body} {l : Leaf} {condition : Param} {speed maxDistance : Float}
  {maxAttempts : UInt32} {disableTicks : UInt64}

/-- A run of a leaf that goes after an item is a turn at it, if the requirements of the leaf hold. -/
theorem itemTurn_run (hl : l = .moveToItem condition speed maxDistance maxAttempts disableTicks)
    (hb : s.world.body? env.agent = some b) (h : b.memory.satisfiesAll l.needs.requirements) :
    Task.ItemTurn condition maxDistance maxAttempts disableTicks env s b (l.run env s).state := by
  rw [run_of_satisfied hb h]
  subst hl
  have hcount : b.memory.isRegistered .timeTryingToReachItem :=
    Blackboard.satisfies_registered_iff.mp
      (List.all_eq_true.mp h (.registered .timeTryingToReachItem) (by simp [needs]))
  have hpause : b.memory.isRegistered .disableWalkToItem :=
    Blackboard.isRegistered_of_empty
      (List.all_eq_true.mp h (.empty .disableWalkToItem) (by simp [needs]))
  exact of_meets (Task.meets_moveToItem hb hcount hpause)

theorem attempts_run (hl : l.maxAttempts? = some maxAttempts) (hb : s.world.body? env.agent = some b) :
    ∃ b', (l.run env s).state.world.body? env.agent = some b' ∧ b.memory.Attempts b'.memory ∧
      ∀ n, b'.memory.attempts? = some n → b.memory.attempts? = some n ∨
        n = b.memory.attempts?.getD 0 + 1 ∧ n ≤ maxAttempts := by
  cases hleaf : l with
  | moveToItem condition speed maxDistance limit disableTicks =>
    rw [hleaf] at hl
    cases hl
    rcases run_cases env l s with ⟨memory, hmemory, hsatisfied, _⟩ | heq
    · unfold World.memory? at hmemory
      rw [hb] at hmemory
      cases hmemory
      rw [← hleaf]
      exact (itemTurn_run hleaf hb hsatisfied).attempts hb
    · rw [← hleaf, heq]
      exact ⟨b, hb, .keeps rfl rfl, fun n hn => .inl hn⟩
  | _ =>
    rw [hleaf] at hl
    cases hl

/-- Other leaves are not about the item. -/
theorem not_mayKeep_of_not_pursues (hl : l.pursues = false) {key : MemoryKey}
    (hkey : key = .wantedItem ∨ key = .timeTryingToReachItem) (now : Tick) (slot : MemorySlot) :
    ¬ MayKeep l.touched l.pause? now key slot := by
  rintro (htouched | ⟨ticks, hpause, _⟩)
  · rcases hkey with rfl | rfl <;> cases l <;> simp [touched, pursues] at htouched hl
  · rcases hkey with rfl | rfl <;> cases l <;> simp [pause?] at hpause

end Leaf

namespace LeafRun

/-- Whether a run is one of an agent that goes after its item. -/
def IsTurn (r : LeafRun) (id : AgentId) : Prop := r.env.agent = id ∧ r.leaf.pursues

instance (r : LeafRun) (id : AgentId) : Decidable (r.IsTurn id) := inferInstanceAs (Decidable (_ ∧ _))

/-- Another run leaves the want of an agent and its count as they are. -/
theorem state_of_not_isTurn (r : LeafRun) (hindexed : r.stage.world.Indexed) {id : AgentId}
    (hturn : ¬ r.IsTurn id) :
    Option.Rel (fun b b' => ∀ key : MemoryKey, key = .wantedItem ∨ key = .timeTryingToReachItem →
      b'.memory.state key = b.memory.state key) (r.stage.world.body? id) (r.after.world.body? id) := by
  have htouched := r.touched hindexed
  by_cases hid : id = r.env.agent
  · subst hid
    have hother : r.leaf.pursues = false := by simpa [IsTurn] using hturn
    exact optionRel_imp (fun hown key hkey =>
      hown.memory.state fun slot => Leaf.not_mayKeep_of_not_pursues hother hkey _ slot) htouched.own
  · exact optionRel_imp (fun halike key _ => halike.memory.state key) (htouched.others id hid)

/-- Whatever runs, an agent's want and its count are as a turn at the item may leave them. -/
theorem attempts (r : LeafRun) (hindexed : r.stage.world.Indexed) (id : AgentId) :
    Option.Rel (fun b b' => b.memory.Attempts b'.memory) (r.stage.world.body? id) (r.after.world.body? id) := by
  by_cases hturn : r.IsTurn id
  · obtain ⟨rfl, hl⟩ := hturn
    cases hb : r.stage.world.body? r.env.agent with
    | none =>
      have hown := (r.touched hindexed).own
      rw [hb] at hown
      generalize r.after.world.body? r.env.agent = body at hown ⊢
      cases hown
      exact .none
    | some b =>
      obtain ⟨maxAttempts, hlimit⟩ := Leaf.exists_maxAttempts_of_pursues hl
      obtain ⟨b', hb', hattempts, _⟩ := Leaf.attempts_run hlimit hb
      exact optionRel_some_left.mpr ⟨b', hb', hattempts⟩
  · exact optionRel_imp (fun hsame => .keeps (hsame _ (.inl rfl)) (hsame _ (.inr rfl)))
      (r.state_of_not_isTurn hindexed hturn)

end LeafRun

end Menagerie
