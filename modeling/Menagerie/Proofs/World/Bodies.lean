import Menagerie.Proofs.Memory.Blackboard
import Menagerie.World.Effects

/-!
# What happens to bodies

`World.Each` states that two worlds have bodies under the same numbers, and how each body of the one
stands to that of the other. A change is quiet that changes no body's number and no registered key,
keeps the kinds of values and names no leader (`Body.Quiet`).
-/

namespace Menagerie

section OptionRel

variable {α : Type} {rel rel' : α → α → Prop} {x y z : Option α}

theorem optionRel_refl (hrefl : ∀ a, rel a a) (x : Option α) : Option.Rel rel x x := by
  cases x with
  | none => exact .none
  | some a => exact .some (hrefl a)

theorem optionRel_trans (htrans : ∀ {a b c}, rel a b → rel b c → rel a c) (h : Option.Rel rel x y)
    (h' : Option.Rel rel y z) : Option.Rel rel x z := by
  cases h with
  | none => exact h'
  | some hab =>
    cases h' with
    | some hbc => exact .some (htrans hab hbc)

/-- Relations one after the other. -/
theorem optionRel_comp {rel'' : α → α → Prop} (hcomp : ∀ {a b c}, rel a b → rel' b c → rel'' a c)
    (h : Option.Rel rel x y) (h' : Option.Rel rel' y z) : Option.Rel rel'' x z := by
  cases h with
  | none =>
    cases h'
    exact .none
  | some hab =>
    cases h' with
    | some hbc => exact .some (hcomp hab hbc)

theorem optionRel_and (h : Option.Rel rel x y) (h' : Option.Rel rel' x y) :
    Option.Rel (fun a b => rel a b ∧ rel' a b) x y := by
  cases h with
  | none => exact .none
  | some hab => exact .some ⟨hab, Option.rel_some_some.mp h'⟩

theorem optionRel_imp (himp : ∀ {a b}, rel a b → rel' a b) (h : Option.Rel rel x y) :
    Option.Rel rel' x y := by
  cases h with
  | none => exact .none
  | some hab => exact .some (himp hab)

theorem optionRel_none_left : Option.Rel rel none y ↔ y = none := by
  cases y with
  | none => simp
  | some b => simp

theorem optionRel_some_left {a : α} : Option.Rel rel (some a) y ↔ ∃ b, y = some b ∧ rel a b := by
  cases y with
  | none => simp
  | some b => simp

theorem optionRel_some_right {b : α} : Option.Rel rel x (some b) ↔ ∃ a, x = some a ∧ rel a b := by
  cases x with
  | none => simp
  | some a => simp

/-- What is the same of related values is the same of options of them. -/
theorem optionRel_map {β : Type} {f : α → β} (hf : ∀ {a b}, rel a b → f b = f a)
    (h : Option.Rel rel x y) : y.map f = x.map f := by
  cases h with
  | none => rfl
  | some hab => exact congrArg some (hf hab)

end OptionRel

/-- What is the same of a body whatever its agent does. -/
structure Body.Kept (b b' : Body) : Prop where
  id : b'.view.id = b.view.id
  memory : b.memory.Kept b'.memory

/-- What is the same of a body where nothing is done about leaders. -/
structure Body.Quiet (b b' : Body) : Prop where
  id : b'.view.id = b.view.id
  memory : b.memory.Quiet b'.memory

namespace Body

variable {b b' b'' : Body}

theorem Kept.refl (b : Body) : Kept b b := ⟨rfl, .refl b.memory⟩

theorem Kept.trans (h : Kept b b') (h' : Kept b' b'') : Kept b b'' :=
  ⟨h'.id.trans h.id, h.memory.trans h'.memory⟩

theorem Quiet.kept (h : Quiet b b') : Kept b b' := ⟨h.id, h.memory.toKept⟩

theorem Quiet.refl (b : Body) : Quiet b b := ⟨rfl, .refl b.memory⟩

theorem Quiet.trans (h : Quiet b b') (h' : Quiet b' b'') : Quiet b b'' :=
  ⟨h'.id.trans h.id, h.memory.trans h'.memory⟩

/-- A body whose number and memory are the same is quiet. -/
theorem quiet_of_memory (id : b'.view.id = b.view.id) (memory : b'.memory = b.memory) :
    Quiet b b' := ⟨id, memory ▸ .refl b.memory⟩

end Body

namespace World

/-- Whether two worlds have bodies under the same numbers, each of which stands to the other so. -/
def Each (rel : Body → Body → Prop) (w w' : World) : Prop :=
  ∀ id, Option.Rel rel (w.body? id) (w'.body? id)

abbrev Kept : World → World → Prop := Each Body.Kept

abbrev Quiet : World → World → Prop := Each Body.Quiet

namespace Each

variable {rel rel' : Body → Body → Prop} {w w' w'' : World}

theorem refl (hrefl : ∀ b, rel b b) (w : World) : Each rel w w := fun _ => optionRel_refl hrefl _

theorem trans (htrans : ∀ {b b' b''}, rel b b' → rel b' b'' → rel b b'') (h : Each rel w w')
    (h' : Each rel w' w'') : Each rel w w'' := fun id => optionRel_trans htrans (h id) (h' id)

theorem imp (h : Each rel w w') (himp : ∀ {b b'}, rel b b' → rel' b b') : Each rel' w w' :=
  fun id => optionRel_imp himp (h id)

theorem and (h : Each rel w w') (h' : Each rel' w w') :
    Each (fun b b' => rel b b' ∧ rel' b b') w w' := fun id => optionRel_and (h id) (h' id)

/-- A body of the first world is one of the second. -/
theorem exists_of_left (h : Each rel w w') {id : AgentId} {b : Body} (hb : w.body? id = some b) :
    ∃ b', w'.body? id = some b' ∧ rel b b' := by
  specialize h id
  rw [hb] at h
  exact optionRel_some_left.mp h

/-- A body of the second world is one of the first. -/
theorem exists_of_right (h : Each rel w w') {id : AgentId} {b' : Body}
    (hb' : w'.body? id = some b') : ∃ b, w.body? id = some b ∧ rel b b' := by
  specialize h id
  rw [hb'] at h
  exact optionRel_some_right.mp h

theorem foldl {α : Type} {f : World → α → World} (hrefl : ∀ b, rel b b)
    (htrans : ∀ {b b' b''}, rel b b' → rel b' b'' → rel b b'') (l : List α)
    (h : ∀ a ∈ l, ∀ w, Each rel w (f w a)) (w : World) : Each rel w (l.foldl f w) := by
  induction l generalizing w with
  | nil => exact .refl hrefl w
  | cons a rest ih =>
    rw [List.forall_mem_cons] at h
    exact (h.1 w).trans htrans (ih h.2 (f w a))

end Each

variable {rel : Body → Body → Prop} {w : World}

theorem body?_updateBody (w : World) (id other : AgentId) (f : Body → Body) :
    (w.updateBody id f).body? other =
      if other = id then (w.body? other).map f else w.body? other :=
  SortedMap.get?_modify w.bodies id other f

theorem body?_insertBody (w : World) (b : Body) (id : AgentId) :
    (w.insertBody b).body? id = if id = b.view.id then some b else w.body? id :=
  SortedMap.get?_insert w.bodies b.view.id id b

theorem body?_removeBody (w : World) (id other : AgentId) :
    (w.removeBody id).body? other = if other = id then none else w.body? other :=
  SortedMap.get?_erase w.bodies id other

theorem body?_of_removeBody {id other : AgentId} {b : Body}
    (h : (w.removeBody id).body? other = some b) : w.body? other = some b := by
  rw [body?_removeBody] at h
  split at h
  · cases h
  · exact h

theorem remembered?_of_body? {id : AgentId} {b : Body} (hb : w.body? id = some b) (key : MemoryKey) :
    w.remembered? id key = b.memory.get? key := by
  unfold remembered? memory?
  rw [hb]
  rfl

/-- Only what becomes of the body that is there matters. -/
theorem updateBody_congr {id : AgentId} {f g : Body → Body}
    (h : ∀ b, w.body? id = some b → f b = g b) : w.updateBody id f = w.updateBody id g := by
  have hbodies : w.bodies.modify id f = w.bodies.modify id g := by
    refine SortedMap.ext_get? fun other => ?_
    rw [SortedMap.get?_modify, SortedMap.get?_modify]
    split
    · next heq =>
      subst heq
      exact Option.map_congr h
    · rfl
  unfold updateBody
  rw [hbodies]

theorem each_updateBody {id : AgentId} {f : Body → Body} (hrefl : ∀ b, rel b b)
    (h : ∀ b, w.body? id = some b → rel b (f b)) : Each rel w (w.updateBody id f) := by
  intro other
  rw [body?_updateBody]
  split
  · next heq =>
    subst heq
    cases hb : w.body? other with
    | none => exact .none
    | some b => exact .some (h b hb)
  · exact Each.refl hrefl w other

/-- Putting a body in the place of another. -/
theorem each_insert {id : AgentId} {b b' : Body} (hrefl : ∀ b, rel b b) (hb : w.body? id = some b)
    (h : rel b b') : Each rel w { w with bodies := w.bodies.insert id b' } := by
  intro other
  have hget : ({ w with bodies := w.bodies.insert id b' } : World).body? other =
      if other = id then some b' else w.body? other := SortedMap.get?_insert w.bodies id other b'
  rw [hget]
  split
  · next heq =>
    rw [heq, hb]
    exact .some h
  · exact Each.refl hrefl w other

namespace Quiet

theorem refl (w : World) : Quiet w w := Each.refl Body.Quiet.refl w

theorem trans {w w' w'' : World} (h : Quiet w w') (h' : Quiet w' w'') : Quiet w w'' :=
  Each.trans Body.Quiet.trans h h'

theorem kept {w w' : World} (h : Quiet w w') : Kept w w' := Each.imp h Body.Quiet.kept

theorem foldl {α : Type} {f : World → α → World} (l : List α)
    (h : ∀ a ∈ l, ∀ w, Quiet w (f w a)) (w : World) : Quiet w (l.foldl f w) :=
  Each.foldl Body.Quiet.refl Body.Quiet.trans l h w

end Quiet

theorem quiet_updateBody {id : AgentId} {f : Body → Body}
    (h : ∀ b, w.body? id = some b → b.Quiet (f b)) : Quiet w (w.updateBody id f) :=
  each_updateBody Body.Quiet.refl h

/-- Worlds with the same bodies. -/
theorem quiet_of_bodies {w' : World} (h : w'.bodies = w.bodies) : Quiet w w' := by
  intro id
  have hbody : w'.body? id = w.body? id := congrArg (SortedMap.get? · id) h
  rw [hbody]
  exact Quiet.refl w id

theorem quiet_advance (w : World) : Quiet w w.advance := by
  have h := SortedMap.mapWithState_keeps w.bodies
    (fun _ b dropped => ({ b with memory := (b.memory.advance w.now.next).2 },
      dropped + (b.memory.advance w.now.next).1))
    (fun _ => True) (fun _ b b' => b.Quiet b')
    (fun _ b _ _ _ => ⟨trivial, rfl, b.memory.quiet_advance _⟩) (s := 0) trivial
  exact h.2

end World

end Menagerie
