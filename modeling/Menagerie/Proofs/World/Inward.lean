import Menagerie.Proofs.World.Happenings
import Menagerie.Sensor.Sense

/-!
# What changes of bodies

Much of what goes on concerns no more of a body than what its agent remembers and which of its activities
are active (`Body.Inward`). Damage is the opposite of this: it changes how the victim fares and who hit it
last, and nothing that it remembers (`World.body?_damage`).
-/

namespace Menagerie

namespace Body

/-- Whether all that differs of a body is what its agent remembers and which activities are active. -/
def Inward (b b' : Body) : Prop := b' = { b with memory := b'.memory, schedule := b'.schedule }

variable {b b' b'' : Body}

theorem Inward.refl (b : Body) : Inward b b := rfl

theorem Inward.trans (h : Inward b b') (h' : Inward b' b'') : Inward b b'' := by
  unfold Inward at h h' ⊢
  rw [h'.trans (by rw [h])]

theorem Inward.heading (h : Inward b b') : b'.heading = b.heading := by rw [h]

theorem Inward.lastHit (h : Inward b b') : b'.lastHit = b.lastHit := by rw [h]

theorem Inward.view (h : Inward b b') : b'.view = b.view := by rw [h]

theorem Alike.inward (h : Alike b b') : Inward b b' := h.rest.trans (by rw [h.rest])

theorem Touched.inward {may : Tick → MemoryKey → MemorySlot → Prop} (h : Touched may b b') :
    Inward b b' := h.rest

/-- The body after damage was dealt to it. -/
def wounded (attacker : AgentId) (amount : Float) (now : Tick) (b : Body) : Body :=
  { b with
    view := { b.view with health := Number.atLeast 0.0 (b.view.health - amount) }
    lastHit := some (attacker, now) }

end Body

namespace World

variable {w w' : World} {id me : AgentId} {may : Tick → MemoryKey → MemorySlot → Prop}

/-- Runs of leaves change bodies inwardly. -/
theorem Touched.inward (h : w.Touched may me w') : w.Each Body.Inward w' := by
  intro id
  by_cases hid : id = me
  · subst hid
    exact optionRel_imp Body.Touched.inward h.own
  · exact optionRel_imp Body.Alike.inward (h.others id hid)

/-- To update memories is to put others in their place. -/
theorem each_updateMemories {rel : Body → Body → Prop} (hrefl : ∀ b, rel b b)
    (htrans : ∀ {b b' b''}, rel b b' → rel b' b'' → rel b b'')
    (hmemory : ∀ b memory, rel b { b with memory }) (w : World) (id : AgentId) (us : List MemoryUpdate) :
    w.Each rel (w.updateMemories id us).2 := by
  induction us generalizing w with
  | nil => exact .refl hrefl w
  | cons u rest ih =>
    rw [updateMemories]
    unfold updateMemory
    cases w.memory? id with
    | none => exact ih w
    | some memory =>
      dsimp only
      cases memory.update u with
      | error e => exact .refl hrefl w
      | ok m =>
        have hupdated : w.Each rel (w.updateBody id fun b => { b with memory := m }) :=
          each_updateBody hrefl fun b _ => hmemory b m
        exact hupdated.trans htrans (ih _)

/-! ## Damage -/

/-- Damage wounds the victim, if it is alive, and nobody else. -/
theorem body?_damage (w : World) (attacker victim : AgentId) (amount : Float) (id : AgentId) :
    (w.damage attacker victim amount).body? id =
      (w.body? id).map fun b =>
        if id = victim ∧ b.view.isAlive then b.wounded attacker amount w.now else b := by
  unfold damage damage?
  cases hb : w.body? victim with
  | none =>
    show w.body? id = _
    by_cases hid : id = victim
    · rw [hid, hb]
      rfl
    · simp [hid]
  | some b =>
    dsimp only
    by_cases halive : b.view.isAlive
    · rw [if_pos halive]
      have hbody : ∀ tally, ({ w with
          bodies := w.bodies.insert victim (b.wounded attacker amount w.now), tally } : World).body? id =
          (w.body? id).map fun b =>
            if id = victim ∧ b.view.isAlive then b.wounded attacker amount w.now else b := by
        intro tally
        rw [body?_insert]
        by_cases hid : id = victim
        · rw [if_pos hid, hid, hb]
          simp [halive]
        · rw [if_neg hid]
          simp [hid]
      split
      · exact hbody w.tally
      · exact hbody _
    · rw [if_neg halive]
      show w.body? id = _
      by_cases hid : id = victim
      · rw [hid, hb]
        simp [halive]
      · simp [hid]

/-- What holds of whoever is wounded holds of all where damage is dealt. -/
theorem each_damage {rel : Body → Body → Prop} (hrefl : ∀ b, rel b b) (w : World)
    (attacker victim : AgentId) (amount : Float)
    (hwound : ∀ b, b.view.isAlive → rel b (b.wounded attacker amount w.now)) :
    w.Each rel (w.damage attacker victim amount) := by
  intro id
  rw [body?_damage]
  cases w.body? id with
  | none => exact .none
  | some b =>
    dsimp only [Option.map_some]
    split
    · next hvictim => exact .some (hwound b hvictim.2)
    · exact .some (hrefl b)

/-- An attack is dropped, or it is damage that is counted as an attack. -/
theorem attack_cases (w : World) (me victim : AgentId) :
    w.attack me victim = w ∨ w.attack me victim =
      { w.damage me victim attackDamage with
        tally := { (w.damage me victim attackDamage).tally with
          attacks := (w.damage me victim attackDamage).tally.attacks + 1 } } := by
  unfold attack
  split
  · split
    · split
      · next hit hhit =>
        have hdamage : w.damage me victim attackDamage = hit := by
          unfold damage
          rw [hhit]
          rfl
        rw [hdamage]
        exact .inr rfl
      · exact .inl rfl
    · exact .inl rfl
  · exact .inl rfl

/-- Of bodies an attack is damage to the victim, or nothing at all. -/
theorem body?_attack (w : World) (me victim id : AgentId) :
    (w.attack me victim).body? id = (w.damage me victim attackDamage).body? id ∨
      (w.attack me victim).body? id = w.body? id := by
  rcases w.attack_cases me victim with heq | heq
  · rw [heq]
    exact .inr rfl
  · rw [heq]
    exact .inl rfl

/-- To pick up an item is to carry one more, or nothing at all. -/
theorem body?_pickUp (w : World) (me : AgentId) (item : ItemId) (id : AgentId) :
    (w.pickUp me item).body? id =
        (w.updateBody me fun b => { b with inventory := b.inventory ++ [item] }).body? id ∨
      (w.pickUp me item).body? id = w.body? id := by
  unfold pickUp
  split
  · split
    · exact .inr rfl
    · exact .inl rfl
  · exact .inr rfl

end World

end Menagerie
