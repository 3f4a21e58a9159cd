import Menagerie.Proofs.Memory.Change
import Menagerie.Proofs.World.Bodies
import Menagerie.Task.Foraging

/-!
# Traits

A trait of an agent can be seen of its body, and the agent remembers that it has it. An agent that
acquires a trait or sheds it remembers so at once, while its body follows when the intents are carried
out. So what is remembered of a trait is what the body will show by then (`World.Mirrors`): the last
intent about the trait counts, or what the body shows already where there is none.
-/

namespace Menagerie

/-- What can be seen of an agent, and is remembered by it. -/
inductive Trait where
  /-- It sleeps. -/
  | sleep
  /-- It carries nectar. -/
  | nectar
  deriving DecidableEq

namespace Trait

variable {trait : Trait} {m m' : Blackboard} {holds : Bool}

/-- The key under which an agent remembers a trait. -/
def key : Trait → MemoryKey
  | sleep => .sleeping
  | nectar => .hasNectar

/-- The keys of all traits. -/
def keys : List MemoryKey := [.sleeping, .hasNectar]

theorem key_ne_of_not_mem_keys {key : MemoryKey} (h : key ∉ keys) (trait : Trait) :
    trait.key ≠ key := by
  rintro rfl
  revert h
  cases trait <;> decide

theorem key_ne_key {trait other : Trait} (h : trait ≠ other) : trait.key ≠ other.key := by
  revert h
  cases trait <;> cases other <;> decide

/-- Whether a body shows a trait. -/
def shown : Trait → Body → Bool
  | sleep, b => b.pose == .sleeping
  | nectar, b => b.aspects.contains Task.nectarAspect

/-- The intent to show a trait, or to show it no longer. -/
def intent : Trait → Bool → Intent
  | sleep, holds => .setPose (if holds then .sleeping else .standing)
  | nectar, holds => .setAspect Task.nectarAspect holds

/-- What an intent makes of a trait, if it is about it. -/
def set? (trait : Trait) : Intent → Option Bool
  | .setPose pose => if trait = sleep then some (pose == .sleeping) else none
  | .setAspect name enabled => if trait = nectar ∧ name = Task.nectarAspect then some enabled else none
  | _ => none

theorem set?_intent (trait other : Trait) (holds : Bool) :
    other.set? (trait.intent holds) = if other = trait then some holds else none := by
  cases trait <;> cases other <;> cases holds <;> simp [set?, intent]

/-- What a body shows of a trait once intents of an agent are carried out. -/
def after (trait : Trait) (id : AgentId) (intents : List (AgentId × Intent)) (holds : Bool) : Bool :=
  intents.foldl
    (fun holds entry => if entry.1 = id then (trait.set? entry.2).getD holds else holds) holds

theorem after_concat (trait : Trait) (id : AgentId) (intents : List (AgentId × Intent))
    (entry : AgentId × Intent) (holds : Bool) :
    trait.after id (intents ++ [entry]) holds =
      if entry.1 = id then (trait.set? entry.2).getD (trait.after id intents holds)
      else trait.after id intents holds :=
  List.foldl_append ..

/-- Whether a memory has it recorded for good that its agent has a trait, or has nothing recorded of
it. -/
def Recorded (trait : Trait) (m : Blackboard) : Bool → Prop
  | true => m.state trait.key = .present .flag none
  | false => m.get? trait.key = none

theorem Recorded.hasValue (h : trait.Recorded m holds) : m.hasValue trait.key = holds := by
  cases holds with
  | true =>
    unfold Blackboard.hasValue
    rw [show m.state trait.key = .present .flag none from h]
    rfl
  | false =>
    rw [← Blackboard.isSome_get?, show m.get? trait.key = none from h]
    rfl

/-- Time leaves what is recorded. -/
theorem Recorded.of_lapsed {now : Tick} (h : trait.Recorded m holds)
    (hstate : m'.state trait.key = (m.state trait.key).lapsed now) : trait.Recorded m' holds := by
  cases holds with
  | true =>
    rw [show m.state trait.key = .present .flag none from h] at hstate
    exact hstate
  | false =>
    have hnone : m.get? trait.key = none := h
    show m'.get? trait.key = none
    unfold Blackboard.get? at hnone ⊢
    rw [hstate]
    cases hbefore : m.state trait.key with
    | absent | registered => rfl
    | present value expiresAt =>
      rw [hbefore] at hnone
      cases hnone

theorem Recorded.of_state (h : trait.Recorded m holds)
    (hstate : m'.state trait.key = m.state trait.key) : trait.Recorded m' holds :=
  h.of_lapsed (hstate.trans (m.lapsed_state trait.key).symm)

/-- What is put under another key leaves a trait as it was recorded. -/
theorem Recorded.put_of_ne {key : MemoryKey} (h : trait.Recorded m holds) (hkey : trait.key ≠ key)
    (slot : MemorySlot) : trait.Recorded (m.put key slot) holds := by
  have hput : m.Touched (fun _ other _ => other = key) (m.put key slot) := Blackboard.touched_put rfl
  exact h.of_state (hput.state fun _ => hkey)

theorem recorded_put (h : m.isRegistered trait.key) :
    trait.Recorded (m.put trait.key (some (.flag, none))) true := by
  obtain ⟨slot, hslot⟩ := Option.isSome_iff_exists.mp h
  show (m.put trait.key _).state trait.key = _
  unfold Blackboard.state Blackboard.put
  rw [SortedMap.get?_modify, if_pos rfl, hslot]
  rfl

theorem recorded_erase (m : Blackboard) : trait.Recorded (m.erase trait.key) false := by
  show (m.erase trait.key).get? trait.key = none
  unfold Blackboard.get?
  rw [Blackboard.state_erase, if_pos rfl]
  cases m.isRegistered trait.key with
  | true => rfl
  | false => rfl

end Trait

/-- What a body shows of a trait is a matter of how it holds itself. -/
theorem Trait.shown_congr {b b' : Body} (trait : Trait) (hpose : b'.pose = b.pose)
    (haspects : b'.aspects = b.aspects) : trait.shown b' = trait.shown b := by
  cases trait with
  | sleep => exact congrArg (· == Pose.sleeping) hpose
  | nectar => exact congrArg (·.contains Task.nectarAspect) haspects

/-- Whether two bodies show the same of a trait. -/
def Body.ShowsSame (trait : Trait) (b b' : Body) : Prop := trait.shown b' = trait.shown b

theorem Body.ShowsSame.refl {trait : Trait} (b : Body) : ShowsSame trait b b := rfl

/-- Whether two bodies are the same as far as a trait goes. -/
structure Body.SameTrait (trait : Trait) (b b' : Body) : Prop where
  shown : ShowsSame trait b b'
  recorded : ∀ holds, trait.Recorded b.memory holds → trait.Recorded b'.memory holds

theorem Body.SameTrait.refl {trait : Trait} (b : Body) : SameTrait trait b b := ⟨rfl, fun _ => id⟩

theorem Body.SameTrait.trans {trait : Trait} {b b' b'' : Body} (h : SameTrait trait b b')
    (h' : SameTrait trait b' b'') : SameTrait trait b b'' :=
  ⟨h'.shown.trans h.shown, fun holds hm => h'.recorded holds (h.recorded holds hm)⟩

namespace World

variable {trait : Trait} {w w' : World} {intents : List (AgentId × Intent)}

/-- Whether what agents remember of a trait is what their bodies show once the given intents are
carried out. -/
def Mirrors (trait : Trait) (intents : List (AgentId × Intent)) (w : World) : Prop :=
  ∀ id b, w.body? id = some b → trait.Recorded b.memory (trait.after id intents (trait.shown b))

theorem Mirrors.of_each (h : w.Mirrors trait intents) (hbodies : w.Each (Body.SameTrait trait) w') :
    w'.Mirrors trait intents := by
  intro id b' hb'
  obtain ⟨b, hb, hsame⟩ := hbodies.exists_of_right hb'
  rw [hsame.shown]
  exact hsame.recorded _ (h id b hb)

end World

end Menagerie
