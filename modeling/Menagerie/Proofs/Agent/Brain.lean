import Menagerie.Proofs.Agent.Faults
import Menagerie.Proofs.Task.Run

/-!
# What brains do

A brain ticks its behaviors for one agent, one after the other. Where the agent is able to act with
all memories of the brain, and each behavior makes do with them (`Brain.Manned`), a tick of the brain
does sound deeds of the agent, leaves such a brain, and raises no fault but because of what value a
parameter has (`Brain.conducted_tick`).
-/

namespace Menagerie

section FirstToApply

variable {ε ν σ φ : Type}

/-- What ticking nodes in order raises is raised by one of them. -/
theorem forall_mem_raisedFirst {tick : ν → σ → Ticked ε ν σ} {raised : ν → σ → List φ}
    {p : ν → Prop} {inv : σ → Prop} {bad : ε → Prop} {bad' : φ → Prop} {nodes : List ν}
    (htick : ∀ n ∈ nodes, ∀ s, inv s → (tick n s).Keeps p inv bad)
    (hraised : ∀ n ∈ nodes, ∀ s, inv s → ∀ fault ∈ raised n s, bad' fault) {s : σ} (hs : inv s) :
    ∀ fault ∈ raisedFirst tick raised nodes s, bad' fault := by
  induction nodes generalizing s with
  | nil => exact fun fault hfault => nomatch hfault
  | cons n rest ih =>
    rw [List.forall_mem_cons] at htick hraised
    have here := hraised.1 s hs
    rw [raisedFirst]
    split
    · exact List.forall_mem_append.mpr ⟨here, ih htick.2 hraised.2 (htick.1 s hs).state⟩
    · exact here

end FirstToApply

/-- What the tick of a part of a brain comes to: the part and the stage that it leaves, and the faults
that it raises. -/
structure Conducted (me : AgentId) (w : World) {ν : Type} (manned : ν → Prop) (left : ν × Stage)
    (raised : List TaskFault) : Prop where
  manned : manned left.1
  does : Does me w left.2.world
  faults : ∀ fault ∈ raised, fault.cause.OfValue

variable {env : ActEnv} {w : World} {keys : List MemoryKey} {s : Stage}

namespace Bucket

/-- Whether the behaviors of a bucket make do with the given keys. -/
def Manned (keys : List MemoryKey) (b : Bucket) : Prop :=
  ∀ c ∈ b.behaviors, c.behavior.Manned keys

theorem keeps_tickCounted {c : CountedBehavior} (able : w.Able env.agent keys)
    (hc : c.behavior.Manned keys) (hs : Does env.agent w s.world) :
    (c.tick env s).Keeps (fun c => c.behavior.Manned keys) (fun s => Does env.agent w s.world)
      (fun _ => False) := by
  have h := Behavior.keeps_tick able hc hs
  unfold CountedBehavior.tick
  dsimp only
  split
  · exact ⟨h.node, h.state, fun e he => nomatch he⟩
  · exact ⟨h.node, h.state, fun e he => nomatch he⟩

theorem raised_ofValue {c : CountedBehavior} (able : w.Able env.agent keys)
    (hc : c.behavior.Manned keys) (hs : Does env.agent w s.world) :
    ∀ fault ∈ c.raised env s, fault.cause.OfValue := by
  have h := Behavior.keeps_tick able hc hs
  unfold CountedBehavior.raised
  split
  · exact fun fault hfault => nomatch hfault
  · next fault heq => exact List.forall_mem_singleton.mpr (h.fault fault heq)

theorem conducted_tick {b : Bucket} (able : w.Able env.agent keys) (hb : b.Manned keys)
    (hs : Does env.agent w s.world) :
    Conducted env.agent w (Manned keys) (b.tick env s) (b.raised env s) := by
  have htick := fun c hc s hs => keeps_tickCounted (s := s) able (hb c hc) hs
  have h := Ticked.Keeps.firstToApply hb htick hs
  refine ⟨h.node, h.state, ?_⟩
  exact forall_mem_raisedFirst htick (fun c hc s hs => raised_ofValue able (hb c hc) hs) hs

end Bucket

namespace Brain

theorem conducted_tickBuckets {buckets : List Bucket} (able : w.Able env.agent keys)
    (hbuckets : ∀ b ∈ buckets, b.Manned keys) (hs : Does env.agent w s.world) :
    Conducted env.agent w (fun buckets => ∀ b ∈ buckets, b.Manned keys) (tickBuckets env buckets s)
      (raisedInBuckets env buckets s) := by
  induction buckets generalizing s with
  | nil => exact ⟨hbuckets, hs, fun fault hfault => nomatch hfault⟩
  | cons b rest ih =>
    rw [List.forall_mem_cons] at hbuckets
    have here := Bucket.conducted_tick able hbuckets.1 hs
    have others := ih hbuckets.2 here.does
    exact ⟨List.forall_mem_cons.mpr ⟨here.manned, others.manned⟩, others.does,
      List.forall_mem_append.mpr ⟨here.faults, others.faults⟩⟩

/-- Whether the behaviors of all activities make do with the given keys. -/
def MannedActivities (keys : List MemoryKey) (activities : SortedMap Activity (List Bucket)) : Prop :=
  ∀ label buckets, activities.get? label = some buckets → ∀ b ∈ buckets, b.Manned keys

theorem MannedActivities.insert {activities : SortedMap Activity (List Bucket)}
    {buckets : List Bucket} (h : MannedActivities keys activities) (label : Activity)
    (hbuckets : ∀ b ∈ buckets, b.Manned keys) :
    MannedActivities keys (activities.insert label buckets) := by
  intro other buckets' hbuckets'
  rw [SortedMap.get?_insert] at hbuckets'
  split at hbuckets'
  · cases hbuckets'
    exact hbuckets
  · exact h other buckets' hbuckets'

theorem conducted_tickActivities (env : ActEnv) (labels : List Activity)
    {activities : SortedMap Activity (List Bucket)} (able : w.Able env.agent keys)
    (hactivities : MannedActivities keys activities) (hs : Does env.agent w s.world) :
    Conducted env.agent w (MannedActivities keys) (tickActivities env labels activities s)
      (raisedInActivities env labels activities s) := by
  induction labels generalizing activities s with
  | nil => exact ⟨hactivities, hs, fun fault hfault => nomatch hfault⟩
  | cons label rest ih =>
    rw [tickActivities, raisedInActivities]
    cases hbuckets : activities.get? label with
    | none => exact ih hactivities hs
    | some buckets =>
      have here := conducted_tickBuckets able (hactivities label buckets hbuckets) hs
      have others := ih (hactivities.insert label here.manned) here.does
      exact ⟨others.manned, others.does, List.forall_mem_append.mpr ⟨here.faults, others.faults⟩⟩

/-- Whether all behaviors of a brain make do with its memories, and its sensors too. -/
structure Manned (b : Brain) : Prop where
  behaviors : MannedActivities b.memories.keys b.activities
  sensors : ∀ kind ∈ b.sensors.keys, ∀ key ∈ kind.memories, key ∈ b.memories.keys

/-! ## Making a brain -/

/-- The behaviors that are placed under an activity and a priority. -/
def placedAt (grouped : SortedMap Activity Ranks) (label : Activity) (priority : UInt32) :
    List Behavior :=
  (((grouped.get? label).getD .empty).get? priority).getD []

/-- A task is placed behind what is under its activity and priority, and nothing else changes. -/
theorem placedAt_place (grouped : SortedMap Activity Ranks) (task : CompiledTask) (label : Activity)
    (priority : UInt32) :
    placedAt (place grouped task) label priority = placedAt grouped label priority ++
      if label = task.activity ∧ priority = task.priority then task.behaviors else [] := by
  unfold placedAt place
  dsimp only
  rw [SortedMap.get?_insert]
  by_cases hlabel : label = task.activity
  · subst hlabel
    rw [if_pos rfl, Option.getD_some, SortedMap.get?_insert]
    by_cases hpriority : priority = task.priority
    · subst hpriority
      simp
    · simp [hpriority]
  · simp [hlabel]

theorem mem_placedAt_foldl {tasks : List CompiledTask} {grouped : SortedMap Activity Ranks}
    {b : Behavior} :
    (∃ label priority, b ∈ placedAt (tasks.foldl place grouped) label priority) ↔
      (∃ label priority, b ∈ placedAt grouped label priority) ∨ ∃ t ∈ tasks, b ∈ t.behaviors := by
  induction tasks generalizing grouped with
  | nil => simp
  | cons t rest ih =>
    rw [List.foldl_cons, ih]
    simp only [placedAt_place, List.mem_append, exists_or, List.mem_cons, or_and_right, exists_eq_left,
      or_assoc]
    simp

/-- A behavior is among those of a brain. -/
def Behaves (brain : Brain) (b : Behavior) : Prop :=
  ∃ label, ∃ bucket ∈ brain.buckets label, ∃ c ∈ bucket.behaviors, c.behavior = b

theorem exists_mem_bucketsOf {ranks : Ranks} {b : Behavior} :
    (∃ bucket ∈ bucketsOf ranks, ∃ c ∈ bucket.behaviors, c.behavior = b) ↔
      ∃ priority, b ∈ (ranks.get? priority).getD [] := by
  constructor
  · rintro ⟨bucket, hbucket, c, hc, rfl⟩
    obtain ⟨⟨priority, behaviors⟩, hmem, rfl⟩ := List.mem_map.mp hbucket
    have hget : ranks.get? priority = some behaviors :=
      SortedMap.get?_eq_some_iff.mpr (List.mem_filter.mp hmem).1
    obtain ⟨behavior, hbehavior, rfl⟩ := List.mem_map.mp hc
    refine ⟨priority, ?_⟩
    rw [hget]
    exact hbehavior
  · rintro ⟨priority, hb⟩
    cases hget : ranks.get? priority with
    | none =>
      rw [hget] at hb
      cases hb
    | some behaviors =>
      rw [hget, Option.getD_some] at hb
      -- A rank that has a behavior is not among those that are left out.
      have hfull : (!behaviors.isEmpty) = true := by
        rw [List.isEmpty_eq_false_iff.mpr (List.ne_nil_of_mem hb)]
        rfl
      have hmem : (priority, behaviors) ∈ ranks.toList.filter fun rank => !rank.2.isEmpty :=
        List.mem_filter.mpr ⟨SortedMap.get?_eq_some_iff.mp hget, hfull⟩
      exact ⟨_, List.mem_map_of_mem hmem, _, List.mem_map_of_mem hb, rfl⟩

/-- The buckets of an activity are made of what was placed under it. -/
theorem buckets_ofTasks {agent : AgentId} {table : VariableTable} {tasks : List CompiledTask}
    {memories : SortedSet MemoryKey} {sensors : SortedSet SensorKind} (label : Activity) :
    (ofTasks agent table tasks memories sensors).buckets label =
      bucketsOf (((tasks.foldl place .empty).get? label).getD .empty) := by
  unfold buckets ofTasks
  dsimp only
  rw [SortedMap.get?_map]
  cases (tasks.foldl place .empty).get? label with
  | none => rfl
  | some ranks => rfl

/-- A brain behaves as the tasks do that it is made of. -/
theorem behaves_ofTasks {agent : AgentId} {table : VariableTable} {tasks : List CompiledTask}
    {memories : SortedSet MemoryKey} {sensors : SortedSet SensorKind} {b : Behavior} :
    (ofTasks agent table tasks memories sensors).Behaves b ↔ ∃ t ∈ tasks, b ∈ t.behaviors := by
  unfold Behaves
  simp only [buckets_ofTasks, exists_mem_bucketsOf]
  refine mem_placedAt_foldl.trans (or_iff_right ?_)
  rintro ⟨_, _, ⟨⟩⟩

/-- A leaf is among the behaviors of a brain, at any depth. -/
def Has (brain : Brain) (l : Leaf) : Prop := ∃ b, brain.Behaves b ∧ b.Has l

theorem has_ofTasks {agent : AgentId} {table : VariableTable} {tasks : List CompiledTask}
    {memories : SortedSet MemoryKey} {sensors : SortedSet SensorKind} {l : Leaf} :
    (ofTasks agent table tasks memories sensors).Has l ↔
      ∃ t ∈ tasks, ∃ b ∈ t.behaviors, b.Has l := by
  unfold Brain.Has
  simp only [behaves_ofTasks]
  constructor
  · rintro ⟨b, ⟨t, ht, hb⟩, hl⟩
    exact ⟨t, ht, b, hb, hl⟩
  · rintro ⟨t, ht, b, hb, hl⟩
    exact ⟨b, ⟨t, ht, hb⟩, hl⟩

/-- A brain is manned if its leaves and sensors make do with its memories. -/
theorem manned_of_has {brain : Brain}
    (hleaves : ∀ l, brain.Has l → ∀ key ∈ l.needs.memories, brain.memories.contains key)
    (hsensors : ∀ kind, brain.sensors.contains kind → ∀ key ∈ kind.memories, brain.memories.contains key) :
    brain.Manned := by
  refine ⟨?behaviors, ?sensors⟩
  case behaviors =>
    intro label buckets hbuckets bucket hbucket c hc
    have hbehaves : brain.Behaves c.behavior := by
      refine ⟨label, bucket, ?_, c, hc, rfl⟩
      unfold Brain.buckets
      rw [hbuckets]
      exact hbucket
    refine c.behavior.every_of_has fun l hl key hkey => ?_
    exact SortedMap.mem_keys.mpr (hleaves l ⟨_, hbehaves, hl⟩ key hkey)
  case sensors =>
    intro kind hkind key hkey
    exact SortedMap.mem_keys.mpr (hsensors kind (SortedMap.mem_keys.mp hkind) key hkey)

/-! ## Ticks of a brain -/

/-- What is the same of a brain after a tick. -/
structure Kept (b b' : Brain) : Prop where
  agent : b'.agent = b.agent
  memories : b'.memories = b.memories
  manned : b.Manned → b'.Manned

theorem conducted_tick (limit : Nat) {b : Brain} (able : s.world.Able b.agent b.memories.keys)
    (hb : b.Manned) :
    Conducted b.agent s.world b.Kept (b.tick limit s) (b.raised limit s) := by
  unfold tick raised
  cases s.world.schedule? b.agent with
  | none => exact ⟨⟨rfl, rfl, id⟩, .refl _ _, fun fault hfault => nomatch hfault⟩
  | some schedule =>
    have h := conducted_tickActivities ⟨b.agent, limit, b.table⟩ schedule.active able hb.behaviors
      (.refl _ _)
    exact ⟨⟨rfl, rfl, fun _ => ⟨h.manned, hb.sensors⟩⟩, h.does, h.faults⟩

end Brain

end Menagerie
