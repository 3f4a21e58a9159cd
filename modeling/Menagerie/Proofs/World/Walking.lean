import Menagerie.Proofs.World.Intents

/-!
# Walking

Where an agent walks is kept three times: it remembers a target and looks there from when it sets out, while
its body heads there once its intents are carried out. So where a target is remembered, it is where the
body will head by then, and what the agent looks at (`World.Guided`). The last intent about movement
counts, or where the body heads already where there is none (`Movement.headed`).

An agent that acts is about its walking in one of three ways (`World.Strides`). It may linger: it
forgets where to walk at most, and asks for no movement. It may linger and then set out, or linger,
forget where to walk and ask to halt.
-/

namespace Menagerie

/-- What an agent makes of its movement. -/
inductive Movement where
  | walk (target : WalkTarget)
  | halt
  /-- Forgets where to walk, and asks for nothing. -/
  | forget
  deriving DecidableEq

namespace Movement

/-- Where a body heads after a movement. -/
def heading : Movement → Option WalkTarget → Option WalkTarget
  | walk target, _ => some target
  | halt, _ => none
  | forget, heading => heading

/-- Where a body heads after movements. -/
def headed (movements : List Movement) (heading : Option WalkTarget) : Option WalkTarget :=
  movements.foldl (fun heading movement => movement.heading heading) heading

theorem headed_append (movements more : List Movement) (heading : Option WalkTarget) :
    headed (movements ++ more) heading = headed more (headed movements heading) :=
  List.foldl_append ..

end Movement

/-- What an agent remembers of where to walk after a movement. -/
def Movement.remembered : Movement → Option MemoryValue
  | walk target => some (.walkTarget target)
  | halt | forget => none

/-- What an intent asks of movement. -/
def Intent.movement? : Intent → Option Movement
  | .walk target => some (.walk target)
  | .stopMoving => some .halt
  | _ => none

/-- Whether an intent asks for no movement. -/
def Intent.Still (intent : Intent) : Prop := intent.movement? = none

/-- What intents ask of the movement of an agent. -/
def movementsOf (id : AgentId) (intents : List (AgentId × Intent)) : List Movement :=
  intents.filterMap fun entry => if entry.1 = id then entry.2.movement? else none

theorem movementsOf_append (id : AgentId) (intents more : List (AgentId × Intent)) :
    movementsOf id (intents ++ more) = movementsOf id intents ++ movementsOf id more :=
  List.filterMap_append ..

theorem movementsOf_singleton (id me : AgentId) (intent : Intent) :
    movementsOf id [(me, intent)] = if me = id then intent.movement?.toList else [] := by
  unfold movementsOf
  by_cases hid : me = id
  · cases hmovement : intent.movement? <;> simp [hid, hmovement]
  · simp [hid]

/-! ## Carrying out intents -/

/-- What becomes of a body whose agent asked for movements. Only a halt is about what is remembered. -/
structure Body.Heeds (movements : List Movement) (b b' : Body) : Prop where
  heading : b'.heading = Movement.headed movements b.heading
  target : b'.memory.get? .walkTarget =
    if .halt ∈ movements then none else b.memory.get? .walkTarget
  look : b'.memory.state .lookTarget = b.memory.state .lookTarget
  registered : b'.memory.isRegistered .walkTarget = b.memory.isRegistered .walkTarget

namespace Body

variable {b b' b'' : Body} {movements more : List Movement}

theorem heeds_nil (hheading : b'.heading = b.heading) (hmemory : b'.memory = b.memory) :
    Heeds [] b b' := by
  refine ⟨hheading, ?_, ?_, ?_⟩
  · rw [hmemory, if_neg List.not_mem_nil]
  · rw [hmemory]
  · rw [hmemory]

theorem Heeds.trans (h : Heeds movements b b') (h' : Heeds more b' b'') :
    Heeds (movements ++ more) b b'' := by
  refine ⟨?_, ?_, h'.look.trans h.look, h'.registered.trans h.registered⟩
  · rw [Movement.headed_append, ← h.heading, h'.heading]
  · rw [h'.target, h.target]
    by_cases hlate : .halt ∈ more
    · rw [if_pos hlate, if_pos (List.mem_append_right _ hlate)]
    · rw [if_neg hlate]
      simp [List.mem_append, hlate]

theorem get?_erase_walkTarget (m : Blackboard) : (m.erase .walkTarget).get? .walkTarget = none := by
  unfold Blackboard.get?
  rw [Blackboard.state_erase, if_pos rfl]
  cases m.isRegistered .walkTarget with
  | true => rfl
  | false => rfl

theorem heeds_halted (b : Body) : Heeds [.halt] b b.halted := by
  refine ⟨rfl, ?_, ?_, (b.memory.quiet_erase .walkTarget).registered _⟩
  · rw [if_pos List.mem_cons_self]
    exact get?_erase_walkTarget b.memory
  · show (b.memory.erase .walkTarget).state .lookTarget = _
    rw [Blackboard.state_erase, if_neg (by decide)]

end Body

namespace World

variable {w w' w'' : World} {id me : AgentId}

/-- An intent is about the movement of its agent, if it is about movement at all. -/
theorem heeds_carryOut (w : World) (me : AgentId) (intent : Intent) (id : AgentId) :
    Option.Rel (Body.Heeds (movementsOf id [(me, intent)])) (w.body? id)
      ((w.carryOut me intent).body? id) := by
  rw [movementsOf_singleton]
  have hself : ∀ b : Body, Body.Heeds [] b b := fun b => Body.heeds_nil rfl rfl
  have hsame : intent.movement? = none → (w.carryOut me intent).body? id = w.body? id →
      Option.Rel (Body.Heeds (if me = id then intent.movement?.toList else [])) (w.body? id)
        ((w.carryOut me intent).body? id) := by
    intro hmovement hbody
    rw [hmovement, hbody, Option.toList_none, ite_self]
    exact optionRel_refl hself _
  have hupdate : ∀ f : Body → Body, (∀ b, Body.Heeds intent.movement?.toList b (f b)) →
      Option.Rel (Body.Heeds (if me = id then intent.movement?.toList else [])) (w.body? id)
        ((w.updateBody me f).body? id) := by
    intro f hf
    rw [body?_updateBody]
    by_cases hid : id = me
    · rw [if_pos hid, if_pos hid.symm]
      cases w.body? id with
      | none => exact .none
      | some b => exact .some (hf b)
    · rw [if_neg hid, if_neg (Ne.symm hid)]
      exact optionRel_refl hself _
  cases intent with
  | walk target => exact hupdate _ fun b => ⟨rfl, rfl, rfl, rfl⟩
  | stopMoving => exact hupdate _ Body.heeds_halted
  | lookAt p => exact hupdate _ fun _ => Body.heeds_nil rfl rfl
  | setPose pose => exact hupdate _ fun _ => Body.heeds_nil rfl rfl
  | setAspect name enabled => exact hupdate _ fun _ => Body.heeds_nil rfl rfl
  | playSound name => exact hsame rfl rfl
  | pickUp item =>
    rcases w.body?_pickUp me item id with hheld | hleft
    · show Option.Rel _ _ ((w.pickUp me item).body? id)
      rw [hheld]
      exact hupdate _ fun _ => Body.heeds_nil rfl rfl
    · exact hsame rfl hleft
  | attack victim =>
    rcases w.body?_attack me victim id with hdealt | hleft
    · show Option.Rel _ _ ((w.attack me victim).body? id)
      rw [hdealt, show Intent.movement? (.attack victim) = none from rfl, Option.toList_none, ite_self]
      exact w.each_damage (fun b => Body.heeds_nil rfl rfl) me victim attackDamage
        (fun b _ => Body.heeds_nil rfl rfl) id
    · exact hsame rfl hleft

/-- Once intents are carried out, every body has heeded what was asked of its movement. -/
theorem heeds_carryOutAll (intents : List (AgentId × Intent)) (w : World) (id : AgentId) :
    Option.Rel (Body.Heeds (movementsOf id intents)) (w.body? id)
      ((w.carryOutAll intents).body? id) := by
  induction intents generalizing w with
  | nil => exact optionRel_refl (fun b => Body.heeds_nil rfl rfl) _
  | cons entry rest ih =>
    have here := w.heeds_carryOut entry.1 entry.2 id
    have hrest := ih (w.carryOut entry.1 entry.2)
    rw [show entry :: rest = [entry] ++ rest from rfl, movementsOf_append]
    exact optionRel_comp (fun hfirst hlater => hfirst.trans hlater) here hrest

theorem heeds_settle (w : World) (id : AgentId) :
    Option.Rel (Body.Heeds (movementsOf id w.intents)) (w.body? id) (w.settle.body? id) :=
  heeds_carryOutAll w.intents { w with intents := [] } id

/-! ## Guidance -/

/-- Whether every agent that remembers where to walk looks there, and its body heads there once the
given intents are carried out. -/
def Guided (intents : List (AgentId × Intent)) (w : World) : Prop :=
  ∀ id b target, w.body? id = some b → b.memory.get? .walkTarget = some (.walkTarget target) →
    Movement.headed (movementsOf id intents) b.heading = some target ∧
      b.memory.state .lookTarget = .present (.position target.position) none

end World

/-- Whether a body still heads for what its agent remembers, and the agent looks there if it did. -/
structure Body.Unswayed (b b' : Body) : Prop where
  target : ∀ value, b'.memory.get? .walkTarget = some value →
    b.memory.get? .walkTarget = some value ∧ b'.heading = b.heading
  look : ∀ value, b.memory.state .lookTarget = .present value none →
    b'.memory.state .lookTarget = .present value none

theorem Body.Unswayed.refl (b : Body) : Unswayed b b := ⟨fun _ h => ⟨h, rfl⟩, fun _ => id⟩

theorem Body.Unswayed.trans {b b' b'' : Body} (h : Unswayed b b') (h' : Unswayed b' b'') :
    Unswayed b b'' := by
  refine ⟨fun value hvalue => ?_, fun value hvalue => h'.look value (h.look value hvalue)⟩
  obtain ⟨hbefore, hheading⟩ := h'.target value hvalue
  obtain ⟨hstart, hheading'⟩ := h.target value hbefore
  exact ⟨hstart, hheading.trans hheading'⟩

theorem Body.unswayed_of_memory {b b' : Body} (hheading : b'.heading = b.heading)
    (hmemory : b'.memory = b.memory) : Unswayed b b' := by
  refine ⟨fun value hvalue => ⟨hmemory ▸ hvalue, hheading⟩, fun value hvalue => ?_⟩
  rw [hmemory, hvalue]

namespace World

variable {w w' w'' : World} {me : AgentId} {intents intents' : List (AgentId × Intent)}

theorem Guided.of_each (h : w.Guided intents) (hbodies : w.Each Body.Unswayed w')
    (hintents : ∀ id, movementsOf id intents' = movementsOf id intents) : w'.Guided intents' := by
  intro id b' target hb' htarget
  obtain ⟨b, hb, hunswayed⟩ := hbodies.exists_of_right hb'
  obtain ⟨hbefore, hheading⟩ := hunswayed.target _ htarget
  obtain ⟨hheaded, hlook⟩ := h id b target hb hbefore
  rw [hintents, hheading]
  exact ⟨hheaded, hunswayed.look _ hlook⟩

theorem guided_settle (h : w.Guided w.intents) : w.settle.Guided [] := by
  intro id b' target hb' htarget
  have hheeds := w.heeds_settle id
  rw [hb'] at hheeds
  obtain ⟨b, hb, hheeds⟩ := optionRel_some_right.mp hheeds
  rw [hheeds.target] at htarget
  split at htarget
  · cases htarget
  · obtain ⟨hheaded, hlook⟩ := h id b target hb htarget
    refine ⟨hheeds.heading.trans hheaded, hheeds.look.trans hlook⟩

theorem unswayed_damage (w : World) (attacker victim : AgentId) (amount : Float) :
    w.Each Body.Unswayed (w.damage attacker victim amount) :=
  w.each_damage Body.Unswayed.refl attacker victim amount fun _ _ => Body.unswayed_of_memory rfl rfl

/-! ## Movement -/

theorem unswayed_stepBody (speed : Float) (target : WalkTarget) (b : Body) :
    b.Unswayed (stepBody speed target b) := by
  unfold stepBody
  dsimp only
  generalize (if target.isReachedFrom b.view.position = true then _ else _) = position
  split
  · refine ⟨fun value hvalue => ?_, fun value hvalue => ?_⟩
    · have hnone := Body.get?_erase_walkTarget b.memory
      exact nomatch hvalue.symm.trans hnone
    · show (b.memory.erase .walkTarget).state .lookTarget = _
      rw [Blackboard.state_erase, if_neg (by decide), hvalue]
  · exact Body.unswayed_of_memory rfl rfl

theorem unswayed_move (w : World) : w.Each Body.Unswayed w.move :=
  w.each_move Body.Unswayed.refl Body.Unswayed.trans unswayed_stepBody
    fun _ _ _ => Body.unswayed_of_memory rfl rfl

/-! ## Acting -/

/-- Whether an agent issued intents of some kind alone. -/
def Adds (p : Intent → Prop) (me : AgentId) (w w' : World) : Prop :=
  ∃ issued : List Intent, w'.intents = w.intents ++ issued.map (fun intent => (me, intent)) ∧
    ∀ intent ∈ issued, p intent

variable {p : Intent → Prop}

theorem adds_of_intents (h : w'.intents = w.intents) : w.Adds p me w' :=
  ⟨[], h.trans (List.append_nil _).symm, fun _ hintent => nomatch hintent⟩

theorem adds_issue {intent : Intent} (w : World) (h : p intent) : w.Adds p me (w.issue me intent) :=
  ⟨[intent], rfl, List.forall_mem_singleton.mpr h⟩

theorem Adds.mono {q : Intent → Prop} (h : w.Adds p me w') (hpq : ∀ intent, p intent → q intent) :
    w.Adds q me w' := by
  obtain ⟨issued, hintents, hp⟩ := h
  exact ⟨issued, hintents, fun intent hintent => hpq intent (hp intent hintent)⟩

theorem Adds.trans (h : w.Adds p me w') (h' : w'.Adds p me w'') : w.Adds p me w'' := by
  obtain ⟨issued, hintents, hp⟩ := h
  obtain ⟨issued', hintents', hp'⟩ := h'
  refine ⟨issued ++ issued', ?_, List.forall_mem_append.mpr ⟨hp, hp'⟩⟩
  rw [hintents', hintents, List.map_append, List.append_assoc]

theorem Adds.movementsOf (h : w.Adds Intent.Still me w') (id : AgentId) :
    movementsOf id w'.intents = movementsOf id w.intents := by
  obtain ⟨issued, hintents, hstill⟩ := h
  have hnone : Menagerie.movementsOf id (issued.map fun intent => (me, intent)) = [] := by
    refine List.filterMap_eq_nil_iff.mpr fun entry hentry => ?_
    obtain ⟨intent, hintent, rfl⟩ := List.mem_map.mp hentry
    dsimp only
    rw [hstill intent hintent, ite_self]
  rw [hintents, movementsOf_append, hnone, List.append_nil]

/-- What an agent may do to its memory while it lingers. -/
def Lingering (_ : Tick) (key : MemoryKey) (slot : MemorySlot) : Prop :=
  key ≠ .lookTarget ∧ (key = .walkTarget → slot = none)

/-- Whether an agent acts and asks for intents of some kind alone: it forgets where to walk at most. -/
structure Lingers (p : Intent → Prop) (me : AgentId) (w w' : World) : Prop where
  touched : w.Touched Lingering me w'
  adds : w.Adds p me w'

theorem Lingers.refl (me : AgentId) (w : World) : Lingers p me w w := ⟨.refl w, adds_of_intents rfl⟩

theorem Lingers.trans (h : Lingers p me w w') (h' : Lingers p me w' w'') : Lingers p me w w'' :=
  ⟨h.touched.trans h'.touched, h.adds.trans h'.adds⟩

/-- An agent sets out for a target: it remembers it, looks there, and asks to walk. -/
def setOut (w : World) (me : AgentId) (target : WalkTarget) : World :=
  ((w.mapMemory me fun m => m.put .walkTarget (some (.walkTarget target, none))).mapMemory me
    fun m => m.put .lookTarget (some (.position target.position, none))).issue me (.walk target)

/-- How an agent is about its walking while it acts. Besides movement it asks for intents of some kind
alone. -/
inductive Strides (p : Intent → Prop) (me : AgentId) (w : World) : World → Prop
  | linger {w' : World} : Lingers p me w w' → Strides p me w w'
  | walk {w' : World} {b : Body} {target : WalkTarget} : Lingers p me w w' → w'.body? me = some b →
      b.memory.isRegistered .walkTarget → b.memory.isRegistered .lookTarget →
      Strides p me w (w'.setOut me target)
  | halt {w' : World} : Lingers p me w w' → w'.remembered? me .walkTarget = none →
      Strides p me w (w'.issue me .stopMoving)

theorem Strides.mono {q : Intent → Prop} (h : Strides p me w w') (hpq : ∀ intent, p intent → q intent) :
    Strides q me w w' := by
  cases h with
  | linger hlingers => exact .linger ⟨hlingers.touched, hlingers.adds.mono hpq⟩
  | walk hlingers hb hwalk hlook =>
    exact .walk ⟨hlingers.touched, hlingers.adds.mono hpq⟩ hb hwalk hlook
  | halt hlingers hfree => exact .halt ⟨hlingers.touched, hlingers.adds.mono hpq⟩ hfree

/-- All that an agent asks for are intents of the kind, and movements. -/
theorem Strides.adds (h : Strides p me w w') :
    w.Adds (fun intent => p intent ∨ ¬ intent.Still) me w' := by
  have hlingered : ∀ {w'}, Lingers p me w w' →
      w.Adds (fun intent => p intent ∨ ¬ intent.Still) me w' :=
    fun hlingers => hlingers.adds.mono fun _ => Or.inl
  cases h with
  | linger hlingers => exact hlingered hlingers
  | walk hlingers hb hwalk hlook =>
    exact (hlingered hlingers).trans (adds_issue (mapMemory _ me _) (Or.inr nofun))
  | @halt w' hlingers => exact (hlingered hlingers).trans (w'.adds_issue (Or.inr nofun))

theorem body?_setOut (w : World) (me id : AgentId) (target : WalkTarget) :
    (w.setOut me target).body? id =
      if id = me then (w.body? id).map fun b => { b with
        memory := (b.memory.put .walkTarget (some (.walkTarget target, none))).put .lookTarget
          (some (.position target.position, none)) }
      else w.body? id := by
  have hissued : ∀ (w : World) intent, (w.issue me intent).body? id = w.body? id := fun _ _ => rfl
  unfold setOut
  rw [hissued, body?_mapMemory, body?_mapMemory]
  split
  · exact Option.map_map ..
  · rfl

end World

theorem Body.Alike.unswayed {b b' : Body} (h : Alike b b') : Unswayed b b' := by
  refine ⟨fun value hvalue => ⟨?_, h.inward.heading⟩, fun value hvalue => ?_⟩
  · unfold Blackboard.get? at hvalue ⊢
    rwa [h.memory.state] at hvalue
  · rw [h.memory.state, hvalue]

theorem Body.Touched.unswayed {b b' : Body} (h : Touched World.Lingering b b') : Unswayed b b' := by
  refine ⟨fun value hvalue => ⟨?_, h.inward.heading⟩, fun value hvalue => ?_⟩
  · rcases h.memory.slot .walkTarget with hsame | ⟨slot, hslot, hlingering⟩
    · unfold Blackboard.get? at hvalue ⊢
      rwa [Blackboard.state_congr h.memory.now hsame] at hvalue
    · rw [hlingering.2 rfl] at hslot
      obtain ⟨_, hkept⟩ := Blackboard.exists_get?_of_get? hvalue
      cases hslot.symm.trans hkept
  · rw [h.memory.state fun _ hlingering => hlingering.1 rfl, hvalue]

namespace World

variable {w w' : World} {me : AgentId} {p : Intent → Prop}

theorem Lingers.unswayed (h : Lingers p me w w') : w.Each Body.Unswayed w' := by
  intro id
  by_cases hid : id = me
  · subst hid
    exact optionRel_imp Body.Touched.unswayed h.touched.own
  · exact optionRel_imp Body.Alike.unswayed (h.touched.others id hid)

theorem Lingers.guided (h : Lingers Intent.Still me w w') (hw : w.Guided w.intents) : w'.Guided w'.intents :=
  hw.of_each h.unswayed h.adds.movementsOf

/-- What an agent asks last of its movement is what its body will heed. -/
theorem movementsOf_issue (w : World) (me id : AgentId) (intent : Intent) :
    movementsOf id (w.issue me intent).intents =
      movementsOf id w.intents ++ if me = id then intent.movement?.toList else [] := by
  rw [← movementsOf_singleton, ← movementsOf_append]
  rfl

theorem guided_setOut {b : Body} {target : WalkTarget} (h : w.Guided w.intents)
    (hb : w.body? me = some b) (hwalk : b.memory.isRegistered .walkTarget)
    (hlook : b.memory.isRegistered .lookTarget) :
    (w.setOut me target).Guided (w.setOut me target).intents := by
  intro id b' target' hb' htarget'
  rw [body?_setOut] at hb'
  rw [show (w.setOut me target).intents = (w.issue me (.walk target)).intents from rfl,
    movementsOf_issue]
  by_cases hid : id = me
  · subst hid
    rw [if_pos rfl, hb] at hb'
    cases hb'
    unfold Blackboard.get? at htarget'
    rw [Blackboard.state_put_of_ne _ (by decide), Blackboard.state_put_self hwalk] at htarget'
    cases htarget'
    refine ⟨?_, Blackboard.state_put_self ?_⟩
    · rw [if_pos rfl, Movement.headed_append]
      rfl
    · rw [Blackboard.isRegistered_put]
      exact hlook
  · rw [if_neg hid] at hb'
    rw [if_neg (Ne.symm hid), List.append_nil]
    exact h id b' target' hb' htarget'

theorem guided_issue_stopMoving (h : w.Guided w.intents) (hfree : w.remembered? me .walkTarget = none) :
    (w.issue me .stopMoving).Guided (w.issue me .stopMoving).intents := by
  intro id b target hb htarget
  rw [movementsOf_issue]
  by_cases hid : id = me
  · subst hid
    change w.body? id = some b at hb
    unfold remembered? memory? at hfree
    rw [hb] at hfree
    exact nomatch htarget.symm.trans hfree
  · rw [if_neg (Ne.symm hid), List.append_nil]
    exact h id b target hb htarget

/-- Nobody comes to remember where to walk while an agent lingers. -/
theorem Lingers.remembered? {id : AgentId} {value : MemoryValue} (h : Lingers p me w w')
    (hvalue : w'.remembered? id .walkTarget = some value) :
    w.remembered? id .walkTarget = some value := by
  obtain ⟨memory, hmemory, hget⟩ := Option.bind_eq_some_iff.mp hvalue
  obtain ⟨b', hb', rfl⟩ := Option.map_eq_some_iff.mp hmemory
  obtain ⟨b, hb, hunswayed⟩ := h.unswayed.exists_of_right hb'
  rw [remembered?_of_body? hb]
  exact (hunswayed.target value hget).1

/-- An agent that does not linger asks for one movement at the end, and remembers it. -/
theorem Strides.moves (h : Strides Intent.Still me w w') :
    (∃ movement, movement ≠ .forget ∧ w'.remembered? me .walkTarget = movement.remembered ∧
      movementsOf me w'.intents = movementsOf me w.intents ++ [movement]) ∨
      Lingers Intent.Still me w w' := by
  cases h with
  | linger hlingers => exact .inr hlingers
  | @walk w' b target hlingers hb hwalk hlook =>
    refine .inl ⟨.walk target, nofun, ?_, ?_⟩
    · have hbody := w'.body?_setOut me me target
      rw [if_pos rfl, hb] at hbody
      rw [remembered?_of_body? hbody]
      unfold Blackboard.get?
      rw [Blackboard.state_put_of_ne _ (by decide), Blackboard.state_put_self hwalk]
      rfl
    · rw [← hlingers.adds.movementsOf, show (w'.setOut me target).intents =
        (w'.issue me (.walk target)).intents from rfl, movementsOf_issue, if_pos rfl]
      rfl
  | @halt w' hlingers hfree =>
    refine .inl ⟨.halt, nofun, hfree, ?_⟩
    rw [← hlingers.adds.movementsOf, movementsOf_issue, if_pos rfl]
    rfl

/-- However an agent is about its walking, all are guided as they were. -/
theorem Strides.guided (h : Strides Intent.Still me w w') (hw : w.Guided w.intents) : w'.Guided w'.intents := by
  cases h with
  | linger hlingers => exact hlingers.guided hw
  | walk hlingers hb hwalk hlook => exact guided_setOut (hlingers.guided hw) hb hwalk hlook
  | halt hlingers hfree => exact guided_issue_stopMoving (hlingers.guided hw) hfree

end World

end Menagerie
