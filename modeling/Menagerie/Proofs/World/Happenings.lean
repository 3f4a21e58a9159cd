import Mathlib.Data.List.Nodup
import Mathlib.Logic.Relation
import Menagerie.Proofs.World.Frame

/-!
# What happens in a world of itself

Whatever happens in a world of itself is made of changes of one body each, of damage, and of changes
aside from the bodies (`World.Happens`): so it is with hits, intents and movement. What is said of any
course of such happenings (`World.Unfolds`) is said of these three. A course leaves the numbers of
bodies and the time as they are (`World.Unfolds.steady`), it leaves the bodies of the dead alone
(`World.Unfolds.body?_of_dead`), and the deaths that it counts are the agents that die in it
(`World.Unfolds.toll`). Hits, intents and movement do no more to memories than to forget where to walk
(`World.Halting`), so they are quiet.
-/

namespace Menagerie

variable {may may' : Tick → MemoryKey → MemorySlot → Prop}

namespace Body

/-- Whether a body has the same number, and a memory that was touched at most. -/
structure Steady (may : Tick → MemoryKey → MemorySlot → Prop) (b b' : Body) : Prop where
  id : b'.view.id = b.view.id
  memory : b.memory.Touched may b'.memory

/-- Whether a body is steady and fares as before. -/
structure Handled (may : Tick → MemoryKey → MemorySlot → Prop) (b b' : Body) : Prop
    extends Steady may b b' where
  health : b'.view.health = b.view.health

variable {b b' b'' : Body}

theorem Steady.refl (b : Body) : Steady may b b := ⟨rfl, .refl b.memory⟩

theorem Steady.trans (h : Steady may b b') (h' : Steady may b' b'') : Steady may b b'' :=
  ⟨h'.id.trans h.id, h.memory.trans h'.memory⟩

/-- A body whose number and memory are the same is steady. -/
theorem steady_of_memory (hid : b'.view.id = b.view.id) (hmemory : b'.memory = b.memory) :
    Steady may b b' := by
  refine ⟨hid, ?_⟩
  rw [hmemory]
  exact .refl b.memory

theorem handled_of_memory (hid : b'.view.id = b.view.id) (hhealth : b'.view.health = b.view.health)
    (hmemory : b'.memory = b.memory) : Handled may b b' :=
  ⟨steady_of_memory hid hmemory, hhealth⟩

theorem Handled.isAlive (h : Handled may b b') : b'.view.isAlive = b.view.isAlive := by
  unfold AgentView.isAlive
  rw [h.health]

end Body

namespace World

variable {w w' w'' : World} {id : AgentId} {b : Body}

theorem isAlive_of_body? (hb : w.body? id = some b) : w.isAlive id = b.view.isAlive := by
  unfold isAlive view?
  rw [hb]
  rfl

theorem contains_of_body? (hb : w.body? id = some b) : w.contains id := by
  unfold contains SortedMap.contains
  exact Option.isSome_of_eq_some hb

/-- Who is handled fares as before. -/
theorem isAlive_updateBody {f : Body → Body}
    (hf : ∀ b, w.body? id = some b → Body.Handled may b (f b)) (other : AgentId) :
    (w.updateBody id f).isAlive other = w.isAlive other := by
  unfold isAlive view?
  rw [body?_updateBody]
  split
  · next heq =>
    subst heq
    cases hb : w.body? other with
    | none => rfl
    | some b => exact (hf b hb).isAlive
  · rfl

/-- What happens in a world of itself, where some agents act and memories are touched at most. -/
inductive Happens (acts : AgentId → Prop) (may : Tick → MemoryKey → MemorySlot → Prop) :
    World → World → Prop
  /-- The body of one who acts is changed. -/
  | body {w : World} {id : AgentId} {f : Body → Body} : acts id →
      (∀ b, w.body? id = some b → b.Handled may (f b)) → Happens acts may w (w.updateBody id f)
  | damage (w : World) (attacker victim : AgentId) (amount : Float) :
      Happens acts may w (w.damage attacker victim amount)
  /-- Something is changed that is no body, and no death is counted. -/
  | aside {w w' : World} : w'.bodies = w.bodies → w'.clock = w.clock → w'.intents = w.intents →
      w'.tally.deaths = w.tally.deaths → Happens acts may w w'

/-- A course of happenings. -/
abbrev Unfolds (acts : AgentId → Prop) (may : Tick → MemoryKey → MemorySlot → Prop) :
    World → World → Prop :=
  Relation.ReflTransGen (Happens acts may)

variable {acts acts' : AgentId → Prop}

/-- Damage is dealt to nobody, or to one who is alive, whose death is counted if it comes to that. -/
theorem damage_cases (w : World) (attacker victim : AgentId) (amount : Float) :
    w.damage attacker victim amount = w ∨
      ∃ b b' : Body, w.body? victim = some b ∧ b.view.isAlive ∧ b'.view.id = b.view.id ∧
        b'.memory = b.memory ∧
        w.damage attacker victim amount =
          { w with
            bodies := w.bodies.insert victim b'
            tally := { w.tally with
              deaths := w.tally.deaths + if b'.view.isAlive then 0 else 1 } } := by
  unfold damage damage?
  cases hb : w.body? victim with
  | none => exact .inl rfl
  | some b =>
    dsimp only
    by_cases halive : b.view.isAlive
    · rw [if_pos halive]
      refine .inr ⟨b, { b with
        view := { b.view with health := Number.atLeast 0.0 (b.view.health - amount) }
        lastHit := some (attacker, w.now) }, rfl, halive, rfl, rfl, ?_⟩
      split
      · rfl
      · rfl
    · rw [if_neg halive]
      exact .inl rfl

theorem body?_insert (w : World) (tally : Tally) (id other : AgentId) (b : Body) :
    ({ w with bodies := w.bodies.insert id b, tally } : World).body? other =
      if other = id then some b else w.body? other :=
  SortedMap.get?_insert w.bodies id other b

/-! ## Numbers, memories and the time -/

/-- Whether the bodies of a world are steady, and the time and the intents that wait are the same. -/
structure Steady (may : Tick → MemoryKey → MemorySlot → Prop) (w w' : World) : Prop where
  bodies : w.Each (Body.Steady may) w'
  clock : w'.clock = w.clock
  intents : w'.intents = w.intents

theorem Steady.refl (w : World) : Steady may w w := ⟨.refl Body.Steady.refl w, rfl, rfl⟩

theorem Steady.trans (h : Steady may w w') (h' : Steady may w' w'') : Steady may w w'' :=
  ⟨h.bodies.trans Body.Steady.trans h'.bodies, h'.clock.trans h.clock, h'.intents.trans h.intents⟩

theorem Happens.steady (h : Happens acts may w w') : w.Steady may w' := by
  cases h with
  | body _ hf => exact ⟨each_updateBody Body.Steady.refl fun b hb => (hf b hb).toSteady, rfl, rfl⟩
  | damage attacker victim amount =>
    rcases w.damage_cases attacker victim amount with
      heq | ⟨b, b', hb, _, hid, hmemory, heq⟩
    · rw [heq]
      exact .refl w
    · rw [heq]
      exact ⟨each_insert Body.Steady.refl hb (Body.steady_of_memory hid hmemory), rfl, rfl⟩
  | aside hbodies hclock hintents _ =>
    refine ⟨?_, hclock, hintents⟩
    intro other
    have hbody : w'.body? other = w.body? other := congrArg (SortedMap.get? · other) hbodies
    rw [hbody]
    exact optionRel_refl Body.Steady.refl _

theorem steady_damage (w : World) (attacker victim : AgentId) (amount : Float) :
    w.Steady may (w.damage attacker victim amount) :=
  have hdealt : Happens (fun _ => False) may w (w.damage attacker victim amount) :=
    .damage w attacker victim amount
  hdealt.steady

theorem Unfolds.steady (h : w.Unfolds acts may w') : w.Steady may w' := by
  induction h with
  | refl => exact .refl w
  | tail _ hlast ih => exact ih.trans hlast.steady

/-! ## The dead -/

/-- The body of one who is dead and does not act is left alone. -/
theorem Happens.body?_of_dead (h : Happens acts may w w') (hacts : ¬ acts id)
    (hb : w.body? id = some b) (hdead : ¬ b.view.isAlive) : w'.body? id = some b := by
  cases h with
  | body hacting _ =>
    rw [body?_updateBody, if_neg, hb]
    rintro rfl
    exact hacts hacting
  | damage attacker victim amount =>
    rcases w.damage_cases attacker victim amount with heq | ⟨other, b', hother, halive, _, _, heq⟩
    · rw [heq, hb]
    · rw [heq, body?_insert, if_neg, hb]
      rintro rfl
      rw [hb] at hother
      cases hother
      exact hdead halive
  | aside hbodies _ _ _ =>
    rw [← hb]
    exact congrArg (SortedMap.get? · id) hbodies

theorem Unfolds.body?_of_dead (h : w.Unfolds acts may w') (hacts : ¬ acts id)
    (hb : w.body? id = some b) (hdead : ¬ b.view.isAlive) : w'.body? id = some b := by
  induction h with
  | refl => exact hb
  | tail _ hlast ih => exact hlast.body?_of_dead hacts ih hdead

/-! ## The toll -/

/-- The agents of a world that are alive in it, and not in another. -/
def died (w w' : World) : List AgentId :=
  w.bodies.keys.filter fun id => w.isAlive id && !w'.isAlive id

/-- Whether two worlds have the same agents, nobody comes back from the dead, and the deaths that are
counted are the agents that died. -/
structure Toll (w w' : World) : Prop where
  keys : w'.bodies.keys = w.bodies.keys
  alive : ∀ id, w'.isAlive id → w.isAlive id
  deaths : w'.tally.deaths = w.tally.deaths + (w.died w').length

/-- Where all fare as before, nobody died. -/
theorem toll_of_isAlive (hkeys : w'.bodies.keys = w.bodies.keys)
    (halive : ∀ id, w'.isAlive id = w.isAlive id) (hdeaths : w'.tally.deaths = w.tally.deaths) :
    Toll w w' := by
  refine ⟨hkeys, fun id h => halive id ▸ h, ?_⟩
  have hnone : w.died w' = [] := by
    unfold died
    rw [List.filter_eq_nil_iff]
    intro id _
    rw [halive]
    cases w.isAlive id <;> simp
  rw [hnone, hdeaths]
  rfl

theorem Toll.refl (w : World) : Toll w w := toll_of_isAlive rfl (fun _ => rfl) rfl

theorem Toll.trans (h : Toll w w') (h' : Toll w' w'') : Toll w w'' := by
  refine ⟨h'.keys.trans h.keys, fun id hid => h.alive id (h'.alive id hid), ?_⟩
  have hdied : (w.died w'').length = (w.died w').length + (w'.died w'').length := by
    unfold died
    rw [h.keys]
    -- An agent that dies in the whole dies in one of the two parts, as nobody comes back.
    induction w.bodies.keys with
    | nil => rfl
    | cons id rest ih =>
      have hback := h.alive id
      have hback' := h'.alive id
      simp only [List.filter_cons]
      cases hw : w.isAlive id <;> cases hw' : w'.isAlive id <;> cases hw'' : w''.isAlive id <;>
        simp [hw, hw', hw''] at hback hback' ih ⊢ <;> omega
  rw [h'.deaths, h.deaths, hdied]
  omega

/-- Where one who was alive is replaced, the death is the only one. -/
theorem toll_insert (hb : w.body? id = some b) (halive : b.view.isAlive) (b' : Body) :
    w.Toll { w with
      bodies := w.bodies.insert id b'
      tally := { w.tally with deaths := w.tally.deaths + if b'.view.isAlive then 0 else 1 } } := by
  have hbefore : w.isAlive id = true := (isAlive_of_body? hb).trans halive
  generalize hw' : ({ w with bodies := _, tally := _ } : World) = w'
  have hafter : ∀ other, w'.isAlive other = if other = id then b'.view.isAlive else w.isAlive other := by
    intro other
    unfold isAlive view?
    rw [← hw', body?_insert]
    split
    · rfl
    · rfl
  refine ⟨?_, ?_, ?_⟩
  · rw [← hw']
    refine SortedMap.keys_congr fun other => ?_
    rw [Bool.eq_iff_iff, SortedMap.contains_insert]
    refine ⟨?_, .inr⟩
    rintro (rfl | hother)
    · exact contains_of_body? hb
    · exact hother
  · intro other hother
    rw [hafter] at hother
    split at hother
    · next heq => rw [heq, hbefore]
    · exact hother
  · rw [← hw']
    refine congrArg (w.tally.deaths + ·) ?_
    rw [hw']
    unfold died
    by_cases hb' : b'.view.isAlive
    · rw [if_pos hb', List.filter_eq_nil_iff.mpr]
      · rfl
      · intro other _
        rw [hafter]
        split
        · simp [hb']
        · simp
    · have honly : ∀ other ∈ w.bodies.keys, (w.isAlive other && !w'.isAlive other) = (other == id) := by
        intro other _
        rw [hafter]
        by_cases hother : other = id
        · subst hother
          simp [hbefore, hb']
        · simp [hother]
      rw [if_neg hb', List.filter_congr honly, ← List.countP_eq_length_filter]
      exact (List.count_eq_one_of_mem w.bodies.nodup_keys
        (SortedMap.mem_keys.mpr (contains_of_body? hb))).symm

theorem Happens.toll (h : Happens acts may w w') : w.Toll w' := by
  cases h with
  | @body id f _ hf =>
    exact toll_of_isAlive (SortedMap.keys_modify w.bodies id f) (isAlive_updateBody hf) rfl
  | damage attacker victim amount =>
    rcases w.damage_cases attacker victim amount with heq | ⟨b, b', hb, halive, _, _, heq⟩
    · rw [heq]
      exact .refl w
    · rw [heq]
      exact toll_insert hb halive b'
  | aside hbodies _ _ hdeaths =>
    refine toll_of_isAlive (congrArg SortedMap.keys hbodies) ?_ hdeaths
    intro id
    unfold isAlive view? body?
    rw [hbodies]

theorem Unfolds.toll (h : w.Unfolds acts may w') : w.Toll w' := by
  induction h with
  | refl => exact .refl w
  | tail _ hlast ih => exact ih.trans hlast.toll

/-! ## Hits, intents and movement -/

theorem Unfolds.mono (h : w.Unfolds acts may w') (hacts : ∀ id, acts id → acts' id)
    (hmay : ∀ now key slot, may now key slot → may' now key slot) : w.Unfolds acts' may' w' := by
  refine Relation.ReflTransGen.mono ?_ _ _ h
  intro w w' happens
  cases happens with
  | body hacting hf =>
    refine .body (hacts _ hacting) fun b hb => ?_
    exact ⟨⟨(hf b hb).id, (hf b hb).memory.imp hmay⟩, (hf b hb).health⟩
  | damage attacker victim amount => exact .damage w attacker victim amount
  | aside hbodies hclock hintents hdeaths => exact .aside hbodies hclock hintents hdeaths

theorem Unfolds.foldl {α : Type} {f : World → α → World} (l : List α)
    (h : ∀ a ∈ l, ∀ w, Unfolds acts may w (f w a)) (w : World) :
    w.Unfolds acts may (l.foldl f w) := by
  induction l generalizing w with
  | nil => exact .refl
  | cons a rest ih =>
    rw [List.forall_mem_cons] at h
    exact (h.1 w).trans (ih h.2 (f w a))

/-- What one after the other does for the living goes on for those who were alive at the start. -/
theorem Unfolds.foldl_alive {α : Type} {f : World → α → World} (l : List α)
    (h : ∀ a ∈ l, ∀ w : World, Unfolds (fun id => w.isAlive id) may w (f w a)) (w : World) :
    w.Unfolds (fun id => w.isAlive id) may (l.foldl f w) := by
  induction l generalizing w with
  | nil => exact .refl
  | cons a rest ih =>
    rw [List.forall_mem_cons] at h
    have here := h.1 w
    exact here.trans ((ih h.2 (f w a)).mono here.toll.alive fun _ _ _ => id)

/-- Whether all that is done to a memory is to forget where to walk. -/
def Halting (_ : Tick) (key : MemoryKey) (slot : MemorySlot) : Prop :=
  key = .walkTarget ∧ slot = none

theorem Unfolds.quiet (h : w.Unfolds acts Halting w') : w.Quiet w' :=
  h.steady.bodies.imp fun hsteady =>
    ⟨hsteady.id, hsteady.memory.quiet fun _ _ _ hhalting => hhalting.2⟩

theorem handled_halted (b : Body) : b.Handled Halting b.halted :=
  ⟨⟨rfl, Blackboard.touched_put ⟨rfl, rfl⟩⟩, rfl⟩

theorem unfolds_attack (w : World) (id victim : AgentId) :
    w.Unfolds acts may (w.attack id victim) := by
  unfold attack
  split
  · split
    · split
      · next hit hhit =>
        have hdamage : w.damage id victim attackDamage = hit := by
          unfold damage
          rw [hhit]
          rfl
        have hdealt : w.Unfolds acts may hit :=
          hdamage ▸ .single (.damage w id victim attackDamage)
        exact hdealt.tail (.aside rfl rfl rfl rfl)
      · exact .refl
    · exact .refl
  · exact .refl

theorem unfolds_carryOut (hacts : acts id) (w : World) (intent : Intent) :
    w.Unfolds acts Halting (w.carryOut id intent) := by
  have hbody : ∀ f : Body → Body, (∀ b, Body.Handled Halting b (f b)) →
      w.Unfolds acts Halting (w.updateBody id f) := fun f hf =>
    .single (.body hacts fun b _ => hf b)
  cases intent with
  | walk target => exact hbody _ fun _ => Body.handled_of_memory rfl rfl rfl
  | lookAt p => exact hbody _ fun _ => Body.handled_of_memory rfl rfl rfl
  | stopMoving => exact hbody _ handled_halted
  | attack victim => exact unfolds_attack w id victim
  | pickUp item =>
    show w.Unfolds acts Halting (w.pickUp id item)
    unfold pickUp
    split
    · split
      · exact .refl
      · have hheld : w.Unfolds acts Halting
            (w.updateBody id fun b => { b with inventory := b.inventory ++ [item] }) :=
          hbody _ fun _ => Body.handled_of_memory rfl rfl rfl
        exact hheld.tail (.aside rfl rfl rfl rfl)
    · exact .refl
  | setPose pose => exact hbody _ fun _ => Body.handled_of_memory rfl rfl rfl
  | setAspect name enabled => exact hbody _ fun _ => Body.handled_of_memory rfl rfl rfl
  | playSound name => exact .refl

/-- Intents are carried out by those who issued them. -/
theorem unfolds_settle (w : World) :
    Unfolds (fun id => ∃ intent, (id, intent) ∈ w.intents) Halting { w with intents := [] }
      w.settle :=
  .foldl _ (fun entry hentry w' => unfolds_carryOut ⟨entry.2, hentry⟩ w' entry.2) _

theorem handled_stepBody (speed : Float) (target : WalkTarget) (b : Body) :
    b.Handled Halting (stepBody speed target b) := by
  unfold stepBody
  dsimp only
  generalize (if target.isReachedFrom b.view.position = true then _ else _) = position
  split
  · exact ⟨⟨rfl, Blackboard.touched_put ⟨rfl, rfl⟩⟩, rfl⟩
  · exact Body.handled_of_memory rfl rfl rfl

/-- Only the living move. -/
theorem unfolds_moveAgent (w : World) (id : AgentId) :
    w.Unfolds (fun id => w.isAlive id) Halting (w.moveAgent id) := by
  unfold moveAgent
  cases hb : w.body? id with
  | none => exact .refl
  | some b =>
    dsimp only
    by_cases halive : b.view.isAlive
    · have hw : w.isAlive id = true := (isAlive_of_body? hb).trans halive
      split
      · exact .refl
      · split
        · exact .refl
        · next target _ =>
          have hstep : w.Unfolds (fun id => w.isAlive id) Halting
              (w.updateBody id (stepBody w.movementSpeed target)) :=
            .single (.body hw fun b _ => handled_stepBody _ target b)
          exact hstep.tail (.body hw fun _ _ => Body.handled_of_memory rfl rfl rfl)
    · simp only [halive, Bool.not_false, Bool.true_or, if_true]
      exact .refl

theorem unfolds_move (w : World) : w.Unfolds (fun id => w.isAlive id) Halting w.move :=
  .foldl_alive _ (fun id _ w => unfolds_moveAgent w id) w

/-! ## Quiet -/

theorem quiet_damage (w : World) (attacker victim : AgentId) (amount : Float) :
    w.Quiet (w.damage attacker victim amount) :=
  have hdealt : w.Unfolds (fun _ => False) Halting (w.damage attacker victim amount) :=
    .single (.damage w attacker victim amount)
  hdealt.quiet

theorem quiet_settle (w : World) : w.Quiet w.settle := w.unfolds_settle.quiet

theorem quiet_move (w : World) : w.Quiet w.move := w.unfolds_move.quiet

end World

end Menagerie
