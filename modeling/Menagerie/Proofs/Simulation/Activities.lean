import Menagerie.Proofs.Simulation.Invariants

/-!
# Which activities are active

The schedule that an agent starts with has the core activity in a group of its own and the other activities of
its template in one more (`Schedule.Lays`). Whatever activities are made active, it stays so: the core activity
is active, and so is one other if there is any. Tasks do no more to schedules than to make activities active
(`Engine.covers_guides`), and nothing else in a tick concerns them, so that this holds of every agent in every
state that a run reaches, and also while its tasks run (`Simulation.activities_disciplined`).
-/

namespace Menagerie

namespace Schedule

variable {s s' : Schedule} {activities : List Activity} {a : Activity}

/-- The core activity in a group of its own, and perhaps one more group. -/
def coreAnd : Option ActivityGroup → Schedule
  | none => ⟨SortedMap.empty.insert Engine.coreGroup ⟨[.core], .core⟩⟩
  | some group =>
    ⟨(SortedMap.empty.insert Engine.coreGroup ⟨[.core], .core⟩).insert Engine.behaviorGroup group⟩

theorem active_coreAnd (group? : Option ActivityGroup) :
    (coreAnd group?).active = .core :: (group?.map ActivityGroup.active).toList := by
  cases group? with
  | none => rfl
  | some group => rfl

theorem groupOf?_coreAnd (group? : Option ActivityGroup) (a : Activity) :
    (coreAnd group?).groupOf? a =
      if a = .core then some Engine.coreGroup
      else if group?.any (fun group => group.members.contains a) then some Engine.behaviorGroup
      else none := by
  have hcore : [Activity.core].contains a = decide (a = .core) := by
    rw [List.contains_cons, List.contains_nil, Bool.or_false]
    rfl
  have hlist : (coreAnd group?).groups.toList = (Engine.coreGroup, ⟨[.core], .core⟩) ::
      (group?.map fun group => (Engine.behaviorGroup, group)).toList := by
    cases group? with
    | none => rfl
    | some group => rfl
  unfold groupOf?
  rw [hlist, List.find?_cons]
  dsimp only
  rw [hcore]
  by_cases ha : a = .core
  · rw [decide_eq_true ha, if_pos ha]
    rfl
  · rw [decide_eq_false ha, if_neg ha]
    cases group? with
    | none => rfl
    | some group =>
      rw [Option.map_some, Option.toList_some, List.find?_singleton, Option.any_some]
      dsimp only
      split
      · rfl
      · rfl

/-- The core activity is active already, and others are made active in the group beside it. -/
theorem activate_coreAnd (group? : Option ActivityGroup)
    (hcore : ∀ group, group? = some group → .core ∉ group.members) (a : Activity) :
    (coreAnd group?).activate a = coreAnd (group?.map fun group => group.activated a) := by
  have hnumber := groupOf?_coreAnd group? a
  unfold activate activate?
  by_cases ha : a = .core
  · subst ha
    rw [if_pos rfl] at hnumber
    rw [hnumber]
    cases group? with
    | none => rfl
    | some group =>
      show _ = coreAnd (some (group.activated .core))
      rw [ActivityGroup.activated_of_not_mem (hcore group rfl)]
      rfl
  · rw [if_neg ha] at hnumber
    cases group? with
    | none =>
      rw [hnumber]
      rfl
    | some group =>
      rw [Option.any_some] at hnumber
      rw [hnumber]
      show _ = coreAnd (some (group.activated a))
      by_cases hin : a ∈ group.members
      · rw [if_pos (List.contains_iff_mem.mpr hin), ActivityGroup.activated_of_mem hin]
        rfl
      · rw [if_neg (hin ∘ List.contains_iff_mem.mp), ActivityGroup.activated_of_not_mem hin]
        rfl

/-- Whether the core activity is in a group of its own, and if there are any other activities, some of them
are in one more group, with one of them active. -/
inductive Lays (activities : List Activity) : Schedule → Prop
  | core : activities = [] → Lays activities (coreAnd none)
  | others (group : ActivityGroup) : group.active ∈ group.members →
    (∀ a ∈ group.members, a ∈ activities ∧ a ≠ .core) → Lays activities (coreAnd (some group))

theorem Lays.activate (h : Lays activities s) (a : Activity) : Lays activities (s.activate a) := by
  cases h with
  | core hnone =>
    rw [activate_coreAnd none nofun]
    exact .core hnone
  | others group hactive hmembers =>
    have hcore : .core ∉ group.members := fun hin => (hmembers _ hin).2 rfl
    have hactivated := activate_coreAnd (some group) (fun _ heq => Option.some.inj heq ▸ hcore) a
    rw [hactivated, Option.map_some]
    by_cases hin : a ∈ group.members
    · rw [ActivityGroup.activated_of_mem hin]
      exact .others _ hin hmembers
    · rw [ActivityGroup.activated_of_not_mem hin]
      exact .others group hactive hmembers

theorem Lays.switches (h : Lays activities s) (hs' : s.Switches s') : Lays activities s' := by
  refine hs'.keeps h fun s a s' hs ha => ?_
  have hactivated : s.activate a = s' := by
    unfold Schedule.activate
    rw [ha]
    rfl
  rw [← hactivated]
  exact hs.activate a

theorem Lays.active (h : Lays activities s) :
    (activities = [] ∧ s.active = [.core]) ∨
      ∃ a ∈ activities, a ≠ .core ∧ s.active = [.core, a] := by
  cases h with
  | core hnone => exact .inl ⟨hnone, active_coreAnd none⟩
  | others group hactive hmembers =>
    obtain ⟨hlisted, hcore⟩ := hmembers _ hactive
    exact .inr ⟨group.active, hlisted, hcore, active_coreAnd (some group)⟩

/-! ## The schedule that an agent starts with -/

/-- Another activity comes to the group beside the core activity, unless it is there. -/
theorem add_coreAnd (group : ActivityGroup) (ha : a ≠ .core) :
    ∃ members, (coreAnd (some group)).add Engine.behaviorGroup a = coreAnd (some ⟨members, group.active⟩) ∧
      ∀ x, x ∈ members ↔ x ∈ group.members ∨ x = a := by
  have hcontains : (coreAnd (some group)).contains a = group.members.contains a := by
    unfold contains
    rw [groupOf?_coreAnd, if_neg ha, Option.any_some]
    cases group.members.contains a with
    | true => rfl
    | false => rfl
  by_cases hin : a ∈ group.members
  · refine ⟨group.members, if_pos ?_, fun x => ⟨.inl, ?_⟩⟩
    · rw [hcontains]
      exact List.contains_iff_mem.mpr hin
    · rintro (hx | rfl)
      · exact hx
      · exact hin
  · refine ⟨group.members ++ [a], ?_, fun x => by rw [List.mem_append, List.mem_singleton]⟩
    refine (if_neg ?_).trans rfl
    rw [hcontains]
    exact fun h => hin (List.contains_iff_mem.mp h)

theorem foldl_add_coreAnd (hcore : .core ∉ activities) (group : ActivityGroup) :
    ∃ members, activities.foldl (fun s a => s.add Engine.behaviorGroup a) (coreAnd (some group)) =
        coreAnd (some ⟨members, group.active⟩) ∧
      ∀ x, x ∈ members ↔ x ∈ group.members ∨ x ∈ activities := by
  induction activities generalizing group with
  | nil => exact ⟨group.members, rfl, fun x => (or_iff_left List.not_mem_nil).symm⟩
  | cons a rest ih =>
    rw [List.mem_cons, not_or] at hcore
    obtain ⟨members, hadded, hmembers⟩ := add_coreAnd group (Ne.symm hcore.1)
    obtain ⟨members', hfolded, hmembers'⟩ := ih hcore.2 ⟨members, group.active⟩
    refine ⟨members', ?_, fun x => ?_⟩
    · rw [List.foldl_cons, hadded]
      exact hfolded
    · rw [hmembers', hmembers, List.mem_cons, or_assoc]

end Schedule

/-- The activity beside the core one that agents start with: the default one if it is among those that are
scheduled, or the first of them. -/
def Template.firstActivity? (t : Template) : Option Activity :=
  t.scheduled.head?.map fun first => if t.defaultActivity ∈ t.scheduled then t.defaultActivity else first

theorem Template.core_not_mem_scheduled (t : Template) : .core ∉ t.scheduled := by
  unfold scheduled
  simp

namespace Engine

open Schedule

/-- Without other activities there is the core one alone; else the others come to the group beside it, in which
the default one is active if it is among them, and the first if it is not. -/
theorem exists_schedule_eq (t : Template) :
    (t.scheduled = [] ∧ schedule t = coreAnd none) ∨
      ∃ first members, t.scheduled.head? = some first ∧ (∀ a, a ∈ members ↔ a ∈ t.scheduled) ∧
        schedule t = coreAnd (some ⟨members,
          if t.defaultActivity ∈ t.scheduled then t.defaultActivity else first⟩) := by
  have hcore := t.core_not_mem_scheduled
  have hstart : schedule t =
      (t.scheduled.foldl (fun s a => s.add behaviorGroup a) (coreAnd none)).activate
        t.defaultActivity := rfl
  cases hscheduled : t.scheduled with
  | nil =>
    refine .inl ⟨rfl, ?_⟩
    rw [hstart, hscheduled]
    exact activate_coreAnd none nofun _
  | cons first rest =>
    rw [hscheduled, List.mem_cons, not_or] at hcore
    have hfirst : (coreAnd none).add behaviorGroup first = coreAnd (some ⟨[first], first⟩) := by
      refine (if_neg ?_).trans rfl
      unfold Schedule.contains
      rw [groupOf?_coreAnd, if_neg (Ne.symm hcore.1)]
      exact Bool.false_ne_true
    obtain ⟨members, hfolded, hmembers⟩ := foldl_add_coreAnd hcore.2 ⟨[first], first⟩
    have hall : ∀ a, a ∈ members ↔ a ∈ first :: rest := fun a => by
      rw [hmembers, List.mem_singleton, List.mem_cons]
    have hout : .core ∉ members := fun hin =>
      (List.mem_cons.mp ((hall _).mp hin)).elim hcore.1 hcore.2
    refine .inr ⟨first, members, rfl, hall, ?_⟩
    have hactivated := activate_coreAnd (some ⟨members, first⟩)
      (fun _ heq => Option.some.inj heq ▸ hout) t.defaultActivity
    rw [hstart, hscheduled, List.foldl_cons, hfirst, hfolded, hactivated, Option.map_some]
    by_cases hin : t.defaultActivity ∈ members
    · rw [ActivityGroup.activated_of_mem hin, if_pos ((hall _).mp hin)]
    · rw [ActivityGroup.activated_of_not_mem hin, if_neg (hin ∘ (hall _).mpr)]

/-- An agent starts with the core activity active, and beside it with the default one or the first. -/
theorem lays_schedule (t : Template) : (schedule t).Lays t.scheduled := by
  obtain ⟨hnone, heq⟩ | ⟨first, members, hfirst, hmembers, heq⟩ := exists_schedule_eq t
  · rw [heq]
    exact .core hnone
  · rw [heq]
    refine .others _ ?_ fun a ha => ⟨(hmembers a).mp ha, ?_⟩
    · dsimp only
      rw [hmembers]
      split
      · next hdefault => exact hdefault
      · exact List.mem_of_head? hfirst
    · rintro rfl
      exact t.core_not_mem_scheduled ((hmembers _).mp ha)

theorem active_schedule (t : Template) : (schedule t).active = .core :: t.firstActivity?.toList := by
  unfold Template.firstActivity?
  obtain ⟨hnone, heq⟩ | ⟨first, members, hfirst, _, heq⟩ := exists_schedule_eq t
  · rw [heq, hnone]
    rfl
  · rw [heq, hfirst, active_coreAnd]
    rfl

/-! ## Bodies and their schedules -/

/-- Whether the schedule of a body is laid out as that of its template. -/
def Guides (e : Engine) (b : Body) : Prop :=
  ∃ name t, e.template name = .ok t ∧ b.template = t.name ∧ b.schedule.Lays t.scheduled

/-- Whether the activities that are active are the core one alone where the template has no other, and else the
core one and after it one of the others. -/
def Engages (e : Engine) (b : Body) : Prop :=
  ∃ name t, e.template name = .ok t ∧ b.template = t.name ∧
    ((t.scheduled = [] ∧ b.schedule.active = [.core]) ∨
      ∃ a ∈ t.scheduled, a ≠ .core ∧ b.schedule.active = [.core, a])

theorem Guides.engages {e : Engine} {b : Body} (h : e.Guides b) : e.Engages b := by
  obtain ⟨name, t, ht, htemplate, hlays⟩ := h
  exact ⟨name, t, ht, htemplate, hlays.active⟩

end Engine

theorem Schedule.isActive_iff {s : Schedule} {a : Activity} : s.isActive a ↔ a ∈ s.active := by
  unfold isActive active
  rw [List.any_eq_true, List.mem_map]
  refine exists_congr fun group => and_congr_right fun _ => ?_
  rw [beq_iff_eq]

theorem Engine.Engages.isActive_core {e : Engine} {b : Body} (h : e.Engages b) :
    b.schedule.isActive .core := by
  rw [Schedule.isActive_iff]
  obtain ⟨_, _, _, _, ⟨_, hactive⟩ | ⟨_, _, _, hactive⟩⟩ := h
  · rw [hactive]
    exact .head _
  · rw [hactive]
    exact .head _

/-- Nothing is done to schedules in a tick but to make activities active. -/
theorem Engine.covers_guides (e : Engine) (deals : Float → Prop) :
    Body.Covers deals fun b b' => e.Guides b → e.Guides b' where
  refl _ := id
  trans h h' := h' ∘ h
  thinks b _ schedule hschedule := by
    rintro ⟨name, t, ht, htemplate, hlays⟩
    exact ⟨name, t, ht, htemplate, hlays.switches hschedule⟩
  obeys h := by
    rw [h.rest]
    exact id
  moves h := by
    rw [h]
    exact id
  wounds _ _ _ _ _ _ := id

namespace Simulation

variable {engine : Engine} {scenario : Scenario} {s : Simulation} {newcomer : Spawn} {id : AgentId}

theorem sustains_guides (engine : Engine) (spawns : Spawn → Prop) (deals : Float → Prop) :
    Sustains engine spawns deals engine.Guides where
  newborn newcomer _ t _ _ _ ht := ⟨newcomer.template, t, ht, rfl, Engine.lays_schedule t⟩
  covers := engine.covers_guides deals

/-- A newcomer starts with the schedule of its template. -/
theorem schedule_of_spawn (h : (s.spawn newcomer).1 = .ok id) :
    ∃ t b, s.engine.template newcomer.template = .ok t ∧
      (s.spawn newcomer).2.world.body? id = some b ∧ b.schedule = Engine.schedule t := by
  obtain ⟨_, random, heq, _⟩ | ⟨own, t, brain, random, ht, _, _, heq⟩ := s.spawn_outcomes newcomer
  · rw [heq] at h
    cases h
  · rw [heq] at h ⊢
    cases h
    exact ⟨t, _, ht, (World.body?_insertBody ..).trans (if_pos rfl), rfl⟩

/-- In every state that a run reaches the schedules of all agents are laid out as those of their templates. -/
theorem Reachable.every_guides (h : Reachable engine scenario s) : s.world.Every engine.Guides := by
  obtain ⟨requests, rfl⟩ := reachable_iff.mp h
  exact (sustains_guides engine _ _).attempts

/-- It is so while tasks run, too. -/
theorem Reachable.every_guides_of_mem_runs (h : Reachable engine scenario s) :
    ∀ r ∈ s.runs, r.after.world.Every engine.Guides := by
  have hcovers := engine.covers_guides fun _ => True
  have hthinking : s.whenThinking.world.Every engine.Guides :=
    h.every_guides.of_each (each_whenThinking hcovers fun _ _ => trivial)
  have hruns := Leads.forall_mem (p := fun w => w.Indexed ∧ w.Every engine.Guides) ?_ s.leads_think
    ⟨h.orderly.whenThinking.world.indexed, hthinking⟩
  · exact fun r hr => (hruns r hr).2.2
  · rintro r _ ⟨hindexed, hguides⟩
    have htouched := r.touched hindexed
    exact ⟨hindexed.of_touched htouched, hguides.of_each (htouched.covered hcovers)⟩

/-- However a schedule comes about by adding activities and making them active, each of its groups has
activities, of which one is active, and no activity is in two groups. To make an activity active concerns its own
group alone; it fails and changes nothing where there is no such group.

Agents start with the core activity active, and after it with the default one of their template if that is
scheduled, or else with the first that is, if any. In every state that a run reaches, and whatever tasks have
done in the middle of a tick, the active activities of an agent are the core one, and after it one other of its
template where there are others. So no task ever makes the core activity inactive. -/
theorem activities_disciplined (engine : Engine) (scenario : Scenario) :
    (∀ schedule : Schedule, schedule.Built →
      (∀ number group, schedule.groups.get? number = some group →
        group.members ≠ [] ∧ group.active ∈ group.members) ∧
      (∀ a number number', schedule.Holds number a → schedule.Holds number' a → number = number') ∧
      ∀ a, (schedule.activate? a).isSome = schedule.contains a ∧
        (¬ schedule.contains a → schedule.activate a = schedule) ∧
        ∀ number, (schedule.activate a).groups.get? number =
          (schedule.groups.get? number).map fun group =>
            if a ∈ group.members then { group with active := a } else group) ∧
    (∀ id b, (ofScenario engine scenario).world.body? id = some b → ∃ newcomer ∈ scenario.agents, ∃ t,
      engine.template newcomer.template = .ok t ∧ b.template = t.name ∧
        b.schedule.active = .core :: t.firstActivity?.toList) ∧
    ∀ s, Reachable engine scenario s →
      (∀ newcomer id, (s.spawn newcomer).1 = .ok id → ∃ t b, engine.template newcomer.template = .ok t ∧
        (s.spawn newcomer).2.world.body? id = some b ∧
          b.schedule.active = .core :: t.firstActivity?.toList) ∧
      (∀ id b, s.world.body? id = some b → engine.Engages b) ∧
      ∀ r ∈ s.runs, ∀ id b, r.after.world.body? id = some b →
        engine.Engages b ∧ b.schedule.isActive .core := by
  refine ⟨fun schedule hbuilt => ⟨fun number group hgroup => ?_, hbuilt.disciplined.apart, fun a => ?_⟩,
    every_ofScenario fun newcomer hmem t _ _ _ ht => ⟨newcomer, hmem, t, ht, rfl, Engine.active_schedule t⟩,
    fun s h => ⟨fun newcomer id hspawned => ?_, fun id b hb => (h.every_guides id b hb).engages,
      fun r hr id b hb => ?_⟩⟩
  · have hactive := hbuilt.disciplined.active number group hgroup
    exact ⟨List.ne_nil_of_mem hactive, hactive⟩
  · refine ⟨schedule.isSome_activate? a, fun hnone => ?_, hbuilt.disciplined.get?_activate a⟩
    rw [← schedule.isSome_activate?, Option.not_isSome_iff_eq_none] at hnone
    unfold Schedule.activate
    rw [hnone]
    rfl
  · obtain ⟨t, b, ht, hb, hschedule⟩ := schedule_of_spawn hspawned
    exact ⟨t, b, h.paired.engine ▸ ht, hb, hschedule ▸ Engine.active_schedule t⟩
  · have hengages := (h.every_guides_of_mem_runs r hr id b hb).engages
    exact ⟨hengages, hengages.isActive_core⟩

/-- A wolf that idles is hit, and its first task makes it panic in the tick that follows. -/
theorem activities_disciplined_wolf :
    let wolf : Template :=
      { name := "wolf", species := "wolf", enabled := true, maxHealth := 20.0
        defaultActivity := .idle, overrides := .empty, declarations := [], herd := {}
        activities := [⟨.panic, []⟩, ⟨.core, [⟨0, .leaf (.switchToPanicWhenHurt (.bool true))⟩]⟩, ⟨.idle, []⟩] }
    let engine : Engine := { templates := { templates := .ofList [("wolf", wolf)] } }
    let scenario : Scenario :=
      { agents := [{ template := "wolf", position := ⟨0, 0, 0⟩ }], hits := [⟨⟨1⟩, ⟨9⟩, ⟨1⟩, 3.0⟩] }
    let start := ofScenario engine scenario
    let s := start.step
    Reachable engine scenario s ∧
      (start.world.body? ⟨1⟩).map (fun b => b.schedule.active) = some [.core, .idle] ∧
      (s.world.body? ⟨1⟩).map (fun b => b.schedule.active) = some [.core, .panic] ∧
      ∀ id b, s.world.body? id = some b → engine.Engages b := by
  intro wolf engine scenario start s
  have reachable : Reachable engine scenario s := .step .start
  obtain ⟨_, hengages, _⟩ := (activities_disciplined engine scenario).2.2 s reachable
  exact ⟨reachable, by decide +kernel, by decide +kernel, hengages⟩

end Simulation

end Menagerie
