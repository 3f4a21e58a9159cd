import Menagerie.Proofs.World.Deeds

/-!
# Deeds and traits

No deed takes what an agent remembers of a trait apart from what its body will show (`Does.mirrors`):
a deed is not about the trait at all, or it writes the memory and issues the intent. Nor does any deed
end that nectar is remembered (`Does.each_retains`).
-/

namespace Menagerie

variable {trait : Trait} {me : AgentId} {w w' : World} {d : Deed}

namespace World

theorem each_sameTrait_mapMemory {id : AgentId} {f : Blackboard → Blackboard}
    (hf : ∀ m holds, trait.Recorded m holds → trait.Recorded (f m) holds) :
    w.Each (Body.SameTrait trait) (w.mapMemory id f) :=
  each_updateBody Body.SameTrait.refl fun b _ => ⟨trait.shown_congr rfl rfl, hf b.memory⟩

/-- An agent writes of a trait what it is about to show. -/
theorem mirrors_declare {f : Blackboard → Blackboard} {holds : Bool}
    (hw : w.Mirrors trait w.intents)
    (hf : ∀ b, w.body? me = some b → trait.Recorded (f b.memory) holds) :
    ((w.mapMemory me f).issue me (trait.intent holds)).Mirrors trait
      ((w.mapMemory me f).issue me (trait.intent holds)).intents := by
  intro id b' hb'
  have hafter := trait.after_concat id w.intents (me, trait.intent holds) (trait.shown b')
  rw [trait.set?_intent trait, if_pos rfl] at hafter
  change trait.Recorded b'.memory (trait.after id (w.intents ++ [(me, trait.intent holds)]) _)
  change (w.mapMemory me f).body? id = some b' at hb'
  unfold mapMemory at hb'
  rw [body?_updateBody] at hb'
  rw [hafter]
  by_cases hid : id = me
  · subst hid
    rw [if_pos rfl] at hb'
    obtain ⟨b, hb, rfl⟩ := Option.map_eq_some_iff.mp hb'
    rw [if_pos rfl]
    exact hf b hb
  · rw [if_neg hid] at hb'
    rw [if_neg (Ne.symm hid)]
    exact hw id b' hb'

end World

namespace Deed

/-- A deed is about a trait, or changes nothing about it. -/
theorem trait_cases (h : d.Sound me w) (trait : Trait) :
    d = .acquire trait ∨ d = .shed trait ∨
      (w.Each (Body.SameTrait trait) (d.apply me w) ∧
        ∀ id holds, trait.after id (d.apply me w).intents holds = trait.after id w.intents holds) := by
  have hissue : ∀ intent, trait.set? intent = none → ∀ id holds,
      trait.after id (w.intents ++ [(me, intent)]) holds = trait.after id w.intents holds := by
    intro intent hintent id holds
    rw [trait.after_concat, hintent]
    exact ite_self _
  have hput : ∀ (w : World) (id : AgentId) (key : MemoryKey) (slot : MemorySlot), trait.key ≠ key →
      w.Each (Body.SameTrait trait) (w.mapMemory id fun m => m.put key slot) :=
    fun w id key slot hkey => World.each_sameTrait_mapMemory fun m holds hm => hm.put_of_ne hkey slot
  cases h with
  | store _ hkey =>
    have hfree := (ne_of_not_mem_reserved hkey).2
    exact .inr (.inr ⟨hput _ _ _ _ (Trait.key_ne_of_not_mem_keys hfree trait), fun _ _ => rfl⟩)
  | forget hkey =>
    exact .inr (.inr ⟨hput _ _ _ _ (Trait.key_ne_of_not_mem_keys hkey trait), fun _ _ => rfl⟩)
  | follow _ _ =>
    have hkey : trait.key ≠ .herdLeader := Trait.key_ne_of_not_mem_keys (by decide) trait
    refine .inr (.inr ⟨?_, fun _ _ => rfl⟩)
    exact World.Each.trans Body.SameTrait.trans (hput _ _ _ _ hkey) (hput _ _ _ _ hkey)
  | schedule s =>
    refine .inr (.inr ⟨?_, fun _ _ => rfl⟩)
    exact World.each_updateBody Body.SameTrait.refl
      fun b _ => ⟨trait.shown_congr rfl rfl, fun _ => id⟩
  | issue hintent =>
    exact .inr (.inr ⟨World.Each.refl Body.SameTrait.refl w, hissue _ (hintent trait)⟩)
  | @acquire other b hb hkey =>
    by_cases heq : trait = other
    · exact .inl (heq ▸ rfl)
    · refine .inr (.inr ⟨hput _ _ _ _ (Trait.key_ne_key heq), hissue _ ?_⟩)
      rw [Trait.set?_intent, if_neg heq]
  | @shed other hother =>
    by_cases heq : trait = other
    · exact .inr (.inl (heq ▸ rfl))
    · refine .inr (.inr ⟨hput _ _ _ _ (Trait.key_ne_key heq), hissue _ ?_⟩)
      rw [Trait.set?_intent, if_neg heq]

theorem mirrors_apply (h : d.Sound me w) (hw : w.Mirrors trait w.intents) :
    (d.apply me w).Mirrors trait (d.apply me w).intents := by
  rcases trait_cases h trait with rfl | rfl | ⟨hbodies, hintents⟩
  · cases h with
    | acquire hb hkey =>
      refine World.mirrors_declare hw fun b' hb' => ?_
      rw [hb] at hb'
      cases hb'
      exact Trait.recorded_put hkey
  · exact World.mirrors_declare hw fun b _ => Trait.recorded_erase b.memory
  · intro id b' hb'
    rw [hintents]
    exact hw.of_each hbodies id b' hb'

end Deed

theorem Does.mirrors (h : Does me w w') (hw : w.Mirrors trait w.intents) :
    w'.Mirrors trait w'.intents := by
  induction h with
  | refl => exact hw
  | tail _ hlast ih =>
    obtain ⟨d, hsound, rfl⟩ := hlast
    exact d.mirrors_apply hsound ih

/-! ## Nectar -/

/-- Whether a trait that is recorded of one body is recorded of another. -/
def Body.Retains (trait : Trait) (b b' : Body) : Prop :=
  trait.Recorded b.memory true → trait.Recorded b'.memory true

theorem Body.Retains.refl (b : Body) : Retains trait b b := id

theorem Body.Retains.trans {b b' b'' : Body} (h : Retains trait b b') (h' : Retains trait b' b'') :
    Retains trait b b'' := h' ∘ h

/-- A trait that is acquired is recorded. -/
theorem Deed.recorded_acquire (h : (Deed.acquire trait).Sound me w) :
    ∃ b, (Deed.apply me w (.acquire trait)).body? me = some b ∧ trait.Recorded b.memory true := by
  cases h with
  | @acquire _ b hb hkey =>
    refine ⟨{ b with memory := b.memory.put trait.key (some (.flag, none)) }, ?_,
      Trait.recorded_put hkey⟩
    show (w.updateBody me _).body? me = _
    rw [World.body?_updateBody, if_pos rfl, hb]
    rfl

theorem Deed.each_retains_apply (h : d.Sound me w) :
    w.Each (Body.Retains .nectar) (d.apply me w) := by
  rcases trait_cases h .nectar with rfl | rfl | ⟨hbodies, _⟩
  · refine World.each_updateBody Body.Retains.refl fun b _ hb => Trait.recorded_put ?_
    rw [Blackboard.isRegistered_iff, show b.memory.state _ = _ from hb]
    exact nofun
  · cases h with
    | shed hnectar => exact absurd rfl hnectar
  · exact hbodies.imp fun hsame => hsame.recorded true

theorem Does.each_retains (h : Does me w w') : w.Each (Body.Retains .nectar) w' := by
  induction h with
  | refl => exact World.Each.refl Body.Retains.refl w
  | tail _ hlast ih =>
    obtain ⟨d, hsound, rfl⟩ := hlast
    exact World.Each.trans Body.Retains.trans ih (d.each_retains_apply hsound)

end Menagerie
