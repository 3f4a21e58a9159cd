import Menagerie.Proofs.World.Inward

/-!
# Intents and movement

To carry out an intent changes the body of its agent, which can be seen as before (`Body.Obeys`), or it
wounds a victim. So nobody moves while intents are carried out, and items are gone only where one was
picked up. An attack on one who is alive lands if and only if the victim is within reach (`lands_iff`), and
an item within reach is taken (`takes_of_near`).
-/

namespace Menagerie

/-- What becomes of a body when an intent of its own agent is carried out. -/
structure Body.Obeys (b b' : Body) : Prop where
  rest : b' = { b with
    memory := b'.memory, pose := b'.pose, aspects := b'.aspects, lookAt := b'.lookAt
    heading := b'.heading, inventory := b'.inventory }
  memory : b'.memory = b.memory ∨ b'.memory = b.memory.erase .walkTarget

theorem Body.Obeys.refl (b : Body) : Obeys b b := ⟨rfl, .inl rfl⟩

theorem Body.Obeys.view {b b' : Body} (h : Obeys b b') : b'.view = b.view := by rw [h.rest]

namespace World

variable {w : World} {me victim : AgentId} {item : ItemId} {near far : Position}

/-- The world after intents were carried out one after the other. -/
def carryOutAll (w : World) (intents : List (AgentId × Intent)) : World :=
  intents.foldl (fun w entry => w.carryOut entry.1 entry.2) w

/-- What is obeyed and what is a wound is what becomes of bodies. -/
theorem each_carryOut {rel : Body → Body → Prop} (hobeys : ∀ {b b'}, Body.Obeys b b' → rel b b')
    (w : World) (me : AgentId) (intent : Intent)
    (hwound : ∀ b, b.view.isAlive → rel b (b.wounded me attackDamage w.now)) :
    w.Each rel (w.carryOut me intent) := by
  have hrefl : ∀ b, rel b b := fun b => hobeys (.refl b)
  have hupdate : ∀ f : Body → Body, (∀ b, Body.Obeys b (f b)) → w.Each rel (w.updateBody me f) :=
    fun f hf => each_updateBody hrefl fun b _ => hobeys (hf b)
  cases intent with
  | walk target => exact hupdate _ fun _ => ⟨rfl, .inl rfl⟩
  | lookAt p => exact hupdate _ fun _ => ⟨rfl, .inl rfl⟩
  | stopMoving => exact hupdate _ fun _ => ⟨rfl, .inr rfl⟩
  | setPose pose => exact hupdate _ fun _ => ⟨rfl, .inl rfl⟩
  | setAspect name enabled => exact hupdate _ fun _ => ⟨rfl, .inl rfl⟩
  | playSound name => exact .refl hrefl w
  | attack victim =>
    intro id
    show Option.Rel rel (w.body? id) ((w.attack me victim).body? id)
    rcases w.body?_attack me victim id with hdealt | hleft
    · rw [hdealt]
      exact w.each_damage hrefl me victim attackDamage hwound id
    · rw [hleft]
      exact optionRel_refl hrefl _
  | pickUp item =>
    intro id
    show Option.Rel rel (w.body? id) ((w.pickUp me item).body? id)
    rcases w.body?_pickUp me item id with hheld | hleft
    · rw [hheld]
      exact hupdate (fun b => { b with inventory := b.inventory ++ [item] })
        (fun _ => ⟨rfl, .inl rfl⟩) id
    · rw [hleft]
      exact optionRel_refl hrefl _

/-- Damage is done to bodies, and of what is counted only to the deaths. -/
theorem damage_rest (w : World) (attacker victim : AgentId) (amount : Float) :
    (w.damage attacker victim amount).items = w.items ∧
      (w.damage attacker victim amount).tally.attacks = w.tally.attacks := by
  rcases w.damage_cases attacker victim amount with heq | ⟨_, _, _, _, _, _, heq⟩
  · rw [heq]
    exact ⟨rfl, rfl⟩
  · rw [heq]
    exact ⟨rfl, rfl⟩

theorem stepBody_rest (speed : Float) (target : WalkTarget) (b : Body) :
    (stepBody speed target b).lastHit = b.lastHit ∧
      ((stepBody speed target b).memory = b.memory ∨
        (stepBody speed target b).memory = b.memory.erase .walkTarget) := by
  unfold stepBody
  dsimp only
  generalize (if target.isReachedFrom b.view.position = true then _ else _) = position
  split
  · exact ⟨rfl, .inr rfl⟩
  · exact ⟨rfl, .inl rfl⟩

/-- Bodies that move make a step, and note the fluids that they are in. -/
theorem each_move {rel : Body → Body → Prop} (hrefl : ∀ b, rel b b)
    (htrans : ∀ {b b' b''}, rel b b' → rel b' b'' → rel b b'')
    (hstep : ∀ speed target b, rel b (stepBody speed target b))
    (hfluids : ∀ b inWater inLava, rel b { b with view := { b.view with inWater, inLava } })
    (w : World) : w.Each rel w.move := by
  refine .foldl hrefl htrans _ (fun id _ w => ?_) w
  unfold moveAgent
  split
  · exact .refl hrefl w
  · split
    · exact .refl hrefl w
    · split
      · exact .refl hrefl w
      · next target _ =>
        have hstepped : w.Each rel (w.updateBody id (stepBody w.movementSpeed target)) :=
          each_updateBody hrefl fun b _ => hstep _ target b
        exact hstepped.trans htrans (each_updateBody hrefl fun b _ => hfluids b _ _)

/-! ## Where agents and items are -/

/-- Nobody moves while an intent is carried out. -/
theorem position?_carryOut (w : World) (me : AgentId) (intent : Intent) (id : AgentId) :
    (w.carryOut me intent).position? id = w.position? id := by
  have hstays : w.Each (fun b b' => b'.view.position = b.view.position) (w.carryOut me intent) :=
    w.each_carryOut (fun hobeys => congrArg AgentView.position hobeys.view) me intent fun _ _ => rfl
  unfold position? view?
  rw [Option.map_map, Option.map_map]
  exact optionRel_map (fun hsame => hsame) (hstays id)

theorem position?_carryOutAll (intents : List (AgentId × Intent)) (w : World) (id : AgentId) :
    (w.carryOutAll intents).position? id = w.position? id := by
  induction intents generalizing w with
  | nil => rfl
  | cons entry rest ih => exact (ih _).trans (w.position?_carryOut entry.1 entry.2 id)

/-- An item stays where it is unless it is the one that is picked up. -/
theorem itemPosition?_carryOut (w : World) (me : AgentId) (intent : Intent) (item : ItemId) :
    intent = .pickUp item ∨ (w.carryOut me intent).itemPosition? item = w.itemPosition? item := by
  cases intent with
  | attack victim =>
    refine .inr ?_
    show (w.attack me victim).itemPosition? item = _
    rcases w.attack_cases me victim with heq | heq
    · rw [heq]
    · rw [heq]
      exact congrArg (SortedMap.get? · item) (w.damage_rest me victim attackDamage).1
  | pickUp other =>
    by_cases hitem : other = item
    · exact .inl (congrArg Intent.pickUp hitem)
    · refine .inr ?_
      show (w.pickUp me other).itemPosition? item = _
      unfold pickUp
      split
      · split
        · rfl
        · exact (SortedMap.get?_erase w.items other item).trans (if_neg (Ne.symm hitem))
      · rfl
  | _ => exact .inr rfl

theorem itemPosition?_carryOutAll (intents : List (AgentId × Intent)) (w : World) (item : ItemId) :
    (∃ other, (other, .pickUp item) ∈ intents) ∨
      (w.carryOutAll intents).itemPosition? item = w.itemPosition? item := by
  induction intents generalizing w with
  | nil => exact .inr rfl
  | cons entry rest ih =>
    obtain ⟨other, intent⟩ := entry
    rcases w.itemPosition?_carryOut other intent item with rfl | here
    · exact .inl ⟨other, List.mem_cons_self⟩
    · rcases ih (w.carryOut other intent) with ⟨later, hlater⟩ | hrest
      · exact .inl ⟨later, List.mem_cons_of_mem _ hlater⟩
      · exact .inr (hrest.trans here)

/-! ## Reach -/

/-- Whether an attack lands: the victim is wounded, and the attack is counted. -/
structure Lands (w : World) (me victim : AgentId) : Prop where
  wounded : ∃ b, w.body? victim = some b ∧ b.view.isAlive ∧
    (w.carryOut me (.attack victim)).body? victim = some (b.wounded me attackDamage w.now)
  counted : (w.carryOut me (.attack victim)).tally.attacks = w.tally.attacks + 1

/-- Whether an agent takes an item: the item is gone, the agent carries it, and it is counted. -/
structure Takes (w : World) (me : AgentId) (item : ItemId) : Prop where
  gone : (w.carryOut me (.pickUp item)).itemPosition? item = none
  held : ∃ b, w.body? me = some b ∧
    (w.carryOut me (.pickUp item)).body? me = some { b with inventory := b.inventory ++ [item] }
  counted : (w.carryOut me (.pickUp item)).tally.pickups = w.tally.pickups + 1

theorem lands_of_near (halive : w.isAlive victim) (hme : w.position? me = some near)
    (hvictim : w.position? victim = some far) (hreach : near.distance far ≤ reach) :
    w.Lands me victim := by
  obtain ⟨view, hview, hlives⟩ := (Option.any_eq_true _ _).mp halive
  obtain ⟨b, hb, rfl⟩ := Option.map_eq_some_iff.mp hview
  have hdamage : w.damage? me victim attackDamage = some (w.damage me victim attackDamage) := by
    unfold damage damage?
    rw [hb]
    dsimp only
    rw [if_pos hlives]
    split
    · rfl
    · rfl
  have hattack : w.carryOut me (.attack victim) =
      { w.damage me victim attackDamage with
        tally := { (w.damage me victim attackDamage).tally with
          attacks := (w.damage me victim attackDamage).tally.attacks + 1 } } := by
    show w.attack me victim = _
    unfold attack
    rw [hme, hvictim]
    dsimp only
    rw [if_pos hreach, hdamage]
  refine ⟨⟨b, hb, hlives, ?_⟩, ?_⟩
  · rw [hattack]
    have hwounded := w.body?_damage me victim attackDamage victim
    rw [hb, Option.map_some, if_pos ⟨rfl, hlives⟩] at hwounded
    exact hwounded
  · rw [hattack]
    exact congrArg (· + 1) (w.damage_rest me victim attackDamage).2

theorem attack_of_far (hme : w.position? me = some near) (hvictim : w.position? victim = some far)
    (hreach : ¬ near.distance far ≤ reach) : w.carryOut me (.attack victim) = w := by
  show w.attack me victim = w
  unfold attack
  rw [hme, hvictim]
  exact if_neg hreach

/-- An attack on one who is alive lands if and only if the victim is within reach. -/
theorem lands_iff (halive : w.isAlive victim) (hme : w.position? me = some near)
    (hvictim : w.position? victim = some far) :
    w.Lands me victim ↔ near.distance far ≤ reach := by
  refine ⟨fun hlands => ?_, lands_of_near halive hme hvictim⟩
  by_contra hfar
  have hcounted := hlands.counted
  rw [attack_of_far hme hvictim hfar] at hcounted
  exact absurd hcounted (Nat.ne_of_lt (Nat.lt_succ_self _))

theorem takes_of_near (hme : w.position? me = some near) (hitem : w.itemPosition? item = some far)
    (hreach : ¬ near.distance far > reach) : w.Takes me item := by
  obtain ⟨view, hview, _⟩ := Option.map_eq_some_iff.mp hme
  obtain ⟨b, hb, _⟩ := Option.map_eq_some_iff.mp hview
  have hpickUp : w.carryOut me (.pickUp item) =
      { w.updateBody me fun b => { b with inventory := b.inventory ++ [item] } with
        items := w.items.erase item
        tally := { w.tally with pickups := w.tally.pickups + 1 } } := by
    show w.pickUp me item = _
    unfold pickUp
    rw [hme, hitem]
    exact if_neg hreach
  refine ⟨?_, ⟨b, hb, ?_⟩, ?_⟩
  · rw [hpickUp]
    exact (SortedMap.get?_erase w.items item item).trans (if_pos rfl)
  · rw [hpickUp]
    refine (w.body?_updateBody me me _).trans ?_
    rw [if_pos rfl, hb]
    rfl
  · rw [hpickUp]

end World

end Menagerie
