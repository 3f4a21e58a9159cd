import Mathlib.Logic.Relation
import Menagerie.Proofs.World.Traits

/-!
# What agents do

A `Deed` is one change that a task makes for its agent. All deeds but one are about the agent alone:
only taking a leader touches another agent, which then follows nobody any more. What is remembered of a
trait is written together with the intent to show it, so that this is one deed. What any number of
deeds come to is `Does`. It is between worlds, as draws leave the world alone.

Deeds keep what every operation keeps of bodies (`Does.kept`), and they never close a circle of agents
that follow each other (`Does.acyclic`): an agent that is taken as a leader follows nobody, so the new
link ends there.
-/

namespace Menagerie

/-- One change that a task makes. -/
inductive Deed where
  | store (key : MemoryKey) (value : MemoryValue) (expiresAt : Option Tick)
  | forget (key : MemoryKey)
  /-- Takes a leader, which no longer follows anyone. -/
  | follow (leader : AgentId)
  | schedule (schedule : Schedule)
  | issue (intent : Intent)
  /-- Remembers a trait, and is about to show it. -/
  | acquire (trait : Trait)
  /-- Forgets a trait, and is about to show it no longer. -/
  | shed (trait : Trait)

namespace World

/-- The world with the memory of one agent changed; nothing happens where there is none. -/
def mapMemory (w : World) (id : AgentId) (f : Blackboard → Blackboard) : World :=
  w.updateBody id fun b => { b with memory := f b.memory }

theorem body?_mapMemory (w : World) (id other : AgentId) (f : Blackboard → Blackboard) :
    (w.mapMemory id f).body? other =
      if other = id then (w.body? other).map fun b => { b with memory := f b.memory }
      else w.body? other :=
  w.body?_updateBody id other _

theorem body?_mapMemory_self {w : World} {id : AgentId} {b : Body} (hb : w.body? id = some b)
    (f : Blackboard → Blackboard) :
    (w.mapMemory id f).body? id = some { b with memory := f b.memory } := by
  rw [body?_mapMemory, if_pos rfl, hb]
  rfl

theorem remembered?_mapMemory_self {w : World} {id : AgentId} {f : Blackboard → Blackboard} {b : Body}
    (hb : w.body? id = some b) (key : MemoryKey) :
    (w.mapMemory id f).remembered? id key = (f b.memory).get? key :=
  remembered?_of_body? (body?_mapMemory_self hb f) key

theorem kept_mapMemory {w : World} {id : AgentId} {f : Blackboard → Blackboard}
    (h : ∀ m : Blackboard, m.Kept (f m)) : w.Kept (w.mapMemory id f) :=
  each_updateBody Body.Kept.refl fun b _ => ⟨rfl, h b.memory⟩

theorem quiet_mapMemory {w : World} {id : AgentId} {f : Blackboard → Blackboard}
    (h : ∀ m : Blackboard, m.Quiet (f m)) : w.Quiet (w.mapMemory id f) :=
  quiet_updateBody fun b _ => ⟨rfl, h b.memory⟩

end World

namespace Deed

/-- The world after a deed of an agent. -/
def apply (me : AgentId) (w : World) : Deed → World
  | store key value expiresAt => w.mapMemory me fun m => m.put key (some (value, expiresAt))
  | forget key => w.mapMemory me fun m => m.erase key
  | follow leader =>
    (w.mapMemory leader fun m => m.erase .herdLeader).mapMemory me fun m =>
      m.put .herdLeader (some (.agent leader, none))
  | schedule s => w.updateBody me fun b => { b with schedule := s }
  | issue intent => w.issue me intent
  | acquire trait =>
    (w.mapMemory me fun m => m.put trait.key (some (.flag, none))).issue me (trait.intent true)
  | shed trait => (w.mapMemory me fun m => m.erase trait.key).issue me (trait.intent false)

/-- The keys under which other deeds than `store` keep values. -/
def reserved : List MemoryKey := .herdLeader :: Trait.keys

theorem ne_of_not_mem_reserved {key : MemoryKey} (h : key ∉ reserved) :
    key ≠ .herdLeader ∧ key ∉ Trait.keys :=
  not_or.mp (mt List.mem_cons.mpr h)

/-- What holds of every deed when it is done. -/
inductive Sound (me : AgentId) (w : World) : Deed → Prop
  | store {key : MemoryKey} {value : MemoryValue} {expiresAt : Option Tick} :
      value.kind = key.kind → key ∉ reserved → Sound me w (.store key value expiresAt)
  | forget {key : MemoryKey} : key ∉ Trait.keys → Sound me w (.forget key)
  /-- A leader is another agent that follows nobody. -/
  | follow {leader : AgentId} :
      leader ≠ me → (w.remembered? leader .herdLeader = none) → Sound me w (.follow leader)
  | schedule (schedule : Schedule) : Sound me w (.schedule schedule)
  | issue {intent : Intent} : (∀ trait : Trait, trait.set? intent = none) → Sound me w (.issue intent)
  | acquire {trait : Trait} {b : Body} : w.body? me = some b → b.memory.isRegistered trait.key →
      Sound me w (.acquire trait)
  /-- Nectar is kept for good. -/
  | shed {trait : Trait} : trait ≠ .nectar → Sound me w (.shed trait)

end Deed

/-- Whether an agent gets from one world to another by sound deeds. -/
def Does (me : AgentId) : World → World → Prop :=
  Relation.ReflTransGen fun w w' => ∃ d : Deed, d.Sound me w ∧ w' = d.apply me w

namespace Does

variable {me : AgentId} {w w' w'' : World}

theorem refl (me : AgentId) (w : World) : Does me w w := Relation.ReflTransGen.refl

theorem trans (h : Does me w w') (h' : Does me w' w'') : Does me w w'' :=
  Relation.ReflTransGen.trans h h'

theorem single {d : Deed} (h : d.Sound me w) : Does me w (d.apply me w) :=
  Relation.ReflTransGen.single ⟨d, h, rfl⟩

end Does

namespace Deed

variable {me : AgentId} {w : World} {d : Deed}

theorem quiet_schedule (me : AgentId) (w : World) (s : Schedule) :
    w.Quiet (apply me w (.schedule s)) :=
  World.quiet_updateBody fun _ _ => Body.quiet_of_memory rfl rfl

theorem quiet_issue (me : AgentId) (w : World) (intent : Intent) :
    w.Quiet (apply me w (.issue intent)) := World.quiet_of_bodies rfl

theorem quiet_forget (me : AgentId) (w : World) (key : MemoryKey) :
    w.Quiet (apply me w (.forget key)) := World.quiet_mapMemory fun m => m.quiet_erase key

theorem quiet_store (me : AgentId) (w : World) {key : MemoryKey} {value : MemoryValue}
    {expiresAt : Option Tick} (hkind : value.kind = key.kind) (hkey : key ≠ .herdLeader) :
    w.Quiet (apply me w (.store key value expiresAt)) := by
  refine World.quiet_mapMemory fun m => Blackboard.quiet_put ?_ fun heq => absurd heq hkey
  rintro _ _ ⟨⟩
  exact hkind

theorem quiet_acquire (me : AgentId) (w : World) (trait : Trait) :
    w.Quiet (apply me w (.acquire trait)) := by
  have hremembered : w.Quiet (w.mapMemory me fun m => m.put trait.key (some (.flag, none))) := by
    cases trait <;> exact quiet_store me w rfl (by decide)
  exact hremembered.trans (quiet_issue me _ _)

theorem quiet_shed (me : AgentId) (w : World) (trait : Trait) :
    w.Quiet (apply me w (.shed trait)) :=
  (quiet_forget me w trait.key).trans (quiet_issue me _ _)

theorem kept_follow (me : AgentId) (w : World) (leader : AgentId) :
    w.Kept (apply me w (.follow leader)) := by
  have hfree : w.Quiet (w.mapMemory leader fun m => m.erase .herdLeader) :=
    World.quiet_mapMemory fun m => m.quiet_erase _
  refine World.Each.trans Body.Kept.trans hfree.kept (World.kept_mapMemory fun m => ?_)
  refine Blackboard.kept_put ?_
  rintro _ _ ⟨⟩
  rfl

theorem kept_apply (h : d.Sound me w) : w.Kept (d.apply me w) := by
  cases h with
  | store hkind hkey => exact (quiet_store me w hkind (ne_of_not_mem_reserved hkey).1).kept
  | forget => exact (quiet_forget me w _).kept
  | follow _ _ => exact kept_follow me w _
  | schedule => exact (quiet_schedule me w _).kept
  | issue => exact (quiet_issue me w _).kept
  | acquire => exact (quiet_acquire me w _).kept
  | shed => exact (quiet_shed me w _).kept

end Deed

theorem Does.kept {me : AgentId} {w w' : World} (h : Does me w w') : w.Kept w' := by
  induction h with
  | refl => exact World.Each.refl Body.Kept.refl w
  | tail _ hlast ih =>
    obtain ⟨d, hsound, rfl⟩ := hlast
    exact World.Each.trans Body.Kept.trans ih (d.kept_apply hsound)

/-! ## Circles of leaders -/

namespace World

/-- Whether an agent keeps another as its leader. -/
def Follows (w : World) (follower leader : AgentId) : Prop :=
  ∃ b, w.body? follower = some b ∧ b.memory.Names leader

/-- Whether no chain of leaders returns to its start. -/
def Acyclic (w : World) : Prop := ∀ id, ¬ Relation.TransGen w.Follows id id

theorem Acyclic.of_imp {w w' : World} (h : w.Acyclic)
    (himp : ∀ a b, w'.Follows a b → w.Follows a b) : w'.Acyclic := fun id hid =>
  h id (Relation.TransGen.mono himp id id hid)

/-- Where nobody takes a leader, no circle closes. -/
theorem Acyclic.of_quiet {w w' : World} (h : w.Acyclic) (quiet : w.Quiet w') : w'.Acyclic := by
  refine h.of_imp ?_
  rintro a b ⟨body', hbody', hnames⟩
  obtain ⟨body, hbody, hquiet⟩ := quiet.exists_of_right hbody'
  exact ⟨body, hbody, hquiet.memory.leader b hnames⟩

/-- A new link closes no circle if it leads to an agent that follows nobody. -/
theorem Acyclic.of_link {w w' : World} (h : w.Acyclic) (leader : AgentId)
    (hlink : ∀ a b, w'.Follows a b → w.Follows a b ∨ b = leader)
    (hfree : ∀ b, ¬ w'.Follows leader b) : w'.Acyclic := by
  have hpath : ∀ {a b}, Relation.TransGen w'.Follows a b →
      Relation.TransGen w.Follows a b ∨ b = leader := by
    intro a b hab
    induction hab with
    | single hab => exact (hlink _ _ hab).imp_left .single
    | tail _ hlast ih =>
      obtain ih | rfl := ih
      · exact (hlink _ _ hlast).imp_left (.tail ih)
      · exact absurd hlast (hfree _)
  intro id hid
  obtain hid' | rfl := hpath hid
  · exact h id hid'
  · obtain ⟨b, hb, _⟩ := Relation.TransGen.head'_iff.mp hid
    exact hfree b hb

end World

theorem World.follows_of_mapMemory_put {w : World} {me leader a b : AgentId}
    (h : (w.mapMemory me fun m => m.put .herdLeader (some (.agent leader, none))).Follows a b) :
    w.Follows a b ∨ a = me ∧ b = leader := by
  obtain ⟨body', hbody', expiresAt, hvalue⟩ := h
  unfold mapMemory at hbody'
  rw [body?_updateBody] at hbody'
  split at hbody'
  · next ha =>
    obtain ⟨body, hbody, rfl⟩ := Option.map_eq_some_iff.mp hbody'
    obtain ⟨_, heq⟩ | hvalue := Blackboard.get?_put hvalue
    · cases heq
      exact .inr ⟨ha, rfl⟩
    · exact .inl ⟨body, hbody, expiresAt, hvalue⟩
  · exact .inl ⟨body', hbody', expiresAt, hvalue⟩

theorem World.not_follows_of_mapMemory_erase {w : World} {a b : AgentId} :
    ¬ (w.mapMemory a fun m => m.erase .herdLeader).Follows a b := by
  rintro ⟨body', hbody', expiresAt, hvalue⟩
  unfold mapMemory at hbody'
  rw [body?_updateBody, if_pos rfl] at hbody'
  obtain ⟨body, _, rfl⟩ := Option.map_eq_some_iff.mp hbody'
  unfold Blackboard.erase at hvalue
  rw [SortedMap.get?_modify, if_pos rfl] at hvalue
  obtain ⟨_, _, heq⟩ := Option.map_eq_some_iff.mp hvalue
  cases heq

theorem Deed.acyclic_follow {me leader : AgentId} {w : World} (hne : leader ≠ me)
    (hw : w.Acyclic) : (Deed.apply me w (.follow leader)).Acyclic := by
  have hfreed : (w.mapMemory leader fun m => m.erase .herdLeader).Acyclic :=
    hw.of_quiet (World.quiet_mapMemory fun m => m.quiet_erase _)
  refine hfreed.of_link leader ?_ ?_
  · intro a b hab
    exact (World.follows_of_mapMemory_put hab).imp_right And.right
  · intro b hb
    obtain hb | ⟨heq, _⟩ := World.follows_of_mapMemory_put hb
    · exact World.not_follows_of_mapMemory_erase hb
    · exact hne heq

theorem Deed.acyclic_apply {me : AgentId} {w : World} {d : Deed} (h : d.Sound me w)
    (hw : w.Acyclic) : (d.apply me w).Acyclic := by
  cases h with
  | store hkind hkey => exact hw.of_quiet (quiet_store me w hkind (ne_of_not_mem_reserved hkey).1)
  | forget => exact hw.of_quiet (quiet_forget me w _)
  | follow hne _ => exact acyclic_follow hne hw
  | schedule => exact hw.of_quiet (quiet_schedule me w _)
  | issue => exact hw.of_quiet (quiet_issue me w _)
  | acquire => exact hw.of_quiet (quiet_acquire me w _)
  | shed => exact hw.of_quiet (quiet_shed me w _)

theorem Does.acyclic {me : AgentId} {w w' : World} (h : Does me w w') (hw : w.Acyclic) :
    w'.Acyclic := by
  induction h with
  | refl => exact hw
  | tail _ hlast ih =>
    obtain ⟨d, hsound, rfl⟩ := hlast
    exact d.acyclic_apply hsound ih

end Menagerie
