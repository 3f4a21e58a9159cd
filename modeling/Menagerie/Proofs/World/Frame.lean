import Menagerie.Proofs.Activity.Schedule
import Menagerie.Proofs.Memory.Change
import Menagerie.Proofs.World.Deeds

/-!
# What acting for an agent leaves alone

`World.Touched` says how far a world may differ from another after actions of one agent: of other agents
nothing can be told apart, of the agent's own body only what it remembers and which of its activities
are active, and of the rest of the world only the intents, to which those of the agent were added.
-/

namespace Menagerie

namespace Body

variable {b b' b'' : Body} {may may' : Tick → MemoryKey → MemorySlot → Prop}

/-- Whether two bodies cannot be told apart. -/
structure Alike (b b' : Body) : Prop where
  rest : b' = { b with memory := b'.memory }
  memory : b.memory.Alike b'.memory

/-- Whether a body is the same but for its memory, which may be touched, and for its schedule, of which
activities may have been made active. -/
structure Touched (may : Tick → MemoryKey → MemorySlot → Prop) (b b' : Body) : Prop where
  rest : b' = { b with memory := b'.memory, schedule := b'.schedule }
  memory : b.memory.Touched may b'.memory
  schedule : b.schedule.Switches b'.schedule

theorem Alike.refl (b : Body) : Alike b b := ⟨rfl, .refl b.memory⟩

theorem Alike.trans (h : Alike b b') (h' : Alike b' b'') : Alike b b'' :=
  ⟨h'.rest.trans (by rw [h.rest]), h.memory.trans h'.memory⟩

theorem Touched.refl (b : Body) : Touched may b b := ⟨rfl, .refl b.memory, .refl b.schedule⟩

theorem Touched.trans (h : Touched may b b') (h' : Touched may b' b'') : Touched may b b'' :=
  ⟨h'.rest.trans (by rw [h.rest]), h.memory.trans h'.memory, h.schedule.trans h'.schedule⟩

theorem Touched.imp (h : Touched may b b')
    (himp : ∀ now key slot, may now key slot → may' now key slot) : Touched may' b b' :=
  ⟨h.rest, h.memory.imp himp, h.schedule⟩

theorem Alike.view (h : Alike b b') : b'.view = b.view := by
  rw [h.rest]

theorem Touched.view (h : Touched may b b') : b'.view = b.view := by
  rw [h.rest]

end Body

namespace World

/-- Whether a world is the same but for what an agent did. -/
structure Touched (may : Tick → MemoryKey → MemorySlot → Prop) (me : AgentId) (w w' : World) :
    Prop where
  others : ∀ id, id ≠ me → Option.Rel Body.Alike (w.body? id) (w'.body? id)
  own : Option.Rel (Body.Touched may) (w.body? me) (w'.body? me)
  rest : w' = { w with bodies := w'.bodies, intents := w'.intents }
  issued : ∃ issued : List Intent, w'.intents = w.intents ++ issued.map fun intent => (me, intent)

variable {may may' : Tick → MemoryKey → MemorySlot → Prop} {me id : AgentId} {w w' w'' : World}

namespace Touched

theorem refl (w : World) : Touched may me w w :=
  ⟨fun _ _ => optionRel_refl Body.Alike.refl _, optionRel_refl Body.Touched.refl _, rfl, [],
    (List.append_nil _).symm⟩

theorem trans (h : Touched may me w w') (h' : Touched may me w' w'') : Touched may me w w'' := by
  obtain ⟨issued, hissued⟩ := h.issued
  obtain ⟨issued', hissued'⟩ := h'.issued
  refine ⟨?_, optionRel_trans Body.Touched.trans h.own h'.own, h'.rest.trans (by rw [h.rest]),
    issued ++ issued', ?_⟩
  · exact fun id hid => optionRel_trans Body.Alike.trans (h.others id hid) (h'.others id hid)
  · rw [hissued', hissued, List.map_append, List.append_assoc]

theorem imp (h : Touched may me w w')
    (himp : ∀ now key slot, may now key slot → may' now key slot) : Touched may' me w w' :=
  ⟨h.others, optionRel_imp (Body.Touched.imp · himp) h.own, h.rest, h.issued⟩

theorem clock (h : Touched may me w w') : w'.clock = w.clock := by
  rw [h.rest]

theorem tally (h : Touched may me w w') : w'.tally = w.tally := by
  rw [h.rest]

/-- What can be seen of agents is the same. -/
theorem view? (h : Touched may me w w') (id : AgentId) : w'.view? id = w.view? id := by
  by_cases hid : id = me
  · subst hid
    exact optionRel_map Body.Touched.view h.own
  · exact optionRel_map Body.Alike.view (h.others id hid)

theorem isAlive (h : Touched may me w w') (id : AgentId) : w'.isAlive id = w.isAlive id := by
  unfold World.isAlive
  rw [h.view?]

/-- What other agents remember is the same. -/
theorem remembered? (h : Touched may me w w') (hid : id ≠ me) (key : MemoryKey) :
    w'.remembered? id key = w.remembered? id key := by
  have hrel := h.others id hid
  unfold World.remembered? World.memory?
  generalize w.body? id = body, w'.body? id = body' at hrel ⊢
  cases hrel with
  | none => rfl
  | @some b b' halike =>
    show b'.memory.get? key = b.memory.get? key
    unfold Blackboard.get?
    rw [halike.memory.state]

end Touched

/-! ## The changes that tasks make -/

/-- A change of the agent's own body. -/
theorem touched_updateBody {f : Body → Body}
    (h : ∀ b, w.body? me = some b → b.Touched may (f b)) : Touched may me w (w.updateBody me f) := by
  refine ⟨?_, ?_, rfl, [], (List.append_nil _).symm⟩
  · intro id hid
    rw [body?_updateBody, if_neg hid]
    exact optionRel_refl Body.Alike.refl _
  · rw [body?_updateBody, if_pos rfl]
    cases hb : w.body? me with
    | none => exact .none
    | some b => exact .some (h b hb)

/-- A change of another body that cannot be told. -/
theorem touched_updateBody_of_ne {f : Body → Body} (hne : id ≠ me)
    (h : ∀ b, w.body? id = some b → b.Alike (f b)) : Touched may me w (w.updateBody id f) := by
  refine ⟨?_, ?_, rfl, [], (List.append_nil _).symm⟩
  · intro other _
    rw [body?_updateBody]
    split
    · next heq =>
      subst heq
      cases hb : w.body? other with
      | none => exact .none
      | some b => exact .some (h b hb)
    · exact optionRel_refl Body.Alike.refl _
  · rw [body?_updateBody, if_neg hne.symm]
    exact optionRel_refl Body.Touched.refl _

/-- A change of what the agent keeps under a key. -/
theorem touched_put {key : MemoryKey} {slot : MemorySlot}
    (h : ∀ b, w.body? me = some b → may b.memory.now key slot) :
    Touched may me w (w.mapMemory me fun m => m.put key slot) :=
  touched_updateBody fun b hb => ⟨rfl, Blackboard.touched_put (h b hb), .refl b.schedule⟩

theorem touched_issue (w : World) (intent : Intent) : Touched may me w (w.issue me intent) :=
  ⟨fun _ _ => optionRel_refl Body.Alike.refl _, optionRel_refl Body.Touched.refl _, rfl, [intent],
    rfl⟩

end World

end Menagerie
