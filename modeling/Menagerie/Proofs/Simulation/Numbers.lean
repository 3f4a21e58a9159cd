import Menagerie.Proofs.Simulation.Consistency

/-!
# Numbers for newcomers

An agent that spawns without a number of its own gets the one after the highest in use. As a number goes out
of use only where its agent is taken out (`Reachable.contains_attempt`), such a number is a new one as long
as the agents with the highest numbers stay (`Reachable.le_of_used`). Nothing is kept of the numbers that
agents had before: once the agent with the highest is gone its number can be given again, and whoever
remembers it remembers a newcomer (`reused_wolves`).
-/

namespace Menagerie

namespace World

variable {w w' : World} {id : AgentId}

theorem contains_iff : w.contains id ↔ ∃ b, w.body? id = some b := Option.isSome_iff_exists

theorem Each.contains {rel : Body → Body → Prop} (h : w.Each rel w') (id : AgentId) :
    w'.contains id = w.contains id := by
  rw [Bool.eq_iff_iff, contains_iff, contains_iff]
  constructor
  · rintro ⟨b', hb'⟩
    obtain ⟨b, hb, _⟩ := h.exists_of_right hb'
    exact ⟨b, hb⟩
  · rintro ⟨b, hb⟩
    obtain ⟨b', hb', _⟩ := h.exists_of_left hb
    exact ⟨b', hb'⟩

theorem contains_insertBody {b : Body} :
    (w.insertBody b).contains id ↔ w.contains id ∨ b.view.id = id := by
  rw [contains_iff, contains_iff, body?_insertBody]
  by_cases hid : id = b.view.id
  · rw [if_pos hid]
    exact ⟨fun _ => .inr hid.symm, fun _ => ⟨b, rfl⟩⟩
  · rw [if_neg hid]
    exact (or_iff_left (Ne.symm hid)).symm

end World

namespace Simulation

variable {engine : Engine} {scenario : Scenario} {s : Simulation} {id other : AgentId}
  {newcomer : Spawn} {requests : List Request}

/-! ## The number after the highest -/

theorem le_foldl_max (l : List UInt32) (a : UInt32) :
    a ≤ l.foldl max a ∧ ∀ x ∈ l, x ≤ l.foldl max a := by
  induction l generalizing a with
  | nil => exact ⟨UInt32.le_refl a, fun x hx => nomatch hx⟩
  | cons x rest ih =>
    obtain ⟨hstart, hrest⟩ := ih (max a x)
    have hmax : a ≤ max a x ∧ x ≤ max a x := by
      rw [show max a x = if a ≤ x then x else a from rfl]
      split
      · next h => exact ⟨h, UInt32.le_refl x⟩
      · next h => exact ⟨UInt32.le_refl a, UInt32.le_of_lt (UInt32.not_le.mp h)⟩
    refine ⟨UInt32.le_trans hmax.1 hstart, List.forall_mem_cons.mpr ⟨?_, hrest⟩⟩
    exact UInt32.le_trans hmax.2 hstart

theorem lt_succ_of_le {m n : UInt32} (h : n + 1 ≠ 0) (hle : m ≤ n) : m < n + 1 := by
  have hsum : (n + 1).toNat = (n.toNat + 1) % 2 ^ 32 := UInt32.toNat_add n 1
  have hzero : (n + 1).toNat ≠ 0 := fun hzero => h (UInt32.toNat_inj.mp hzero)
  have hlt := n.toNat_lt
  rw [UInt32.le_iff_toNat_le] at hle
  rw [UInt32.lt_iff_toNat_lt]
  omega

/-- Everybody who is there has a lower number than the next one to be given, unless that wraps around. -/
theorem lt_nextId (h : s.world.Indexed) (hwrap : s.nextId.number ≠ 0) (hthere : s.world.contains id) :
    id.number < s.nextId.number := by
  obtain ⟨b, hb⟩ := World.contains_iff.mp hthere
  have hmem : b.view.id.number ∈ s.world.bodies.values.map fun b => b.view.id.number :=
    List.mem_map.mpr ⟨b, List.mem_map.mpr ⟨_, SortedMap.get?_eq_some_iff.mp hb, rfl⟩, rfl⟩
  have hle := (le_foldl_max _ 0).2 _ hmem
  rw [h id b hb] at hle
  exact lt_succ_of_le hwrap hle

/-- The number after the highest is free, unless it wraps around. -/
theorem not_contains_nextId (h : s.world.Indexed) (hwrap : s.nextId.number ≠ 0) :
    ¬ s.world.contains s.nextId := fun hthere => UInt32.lt_irrefl _ (lt_nextId h hwrap hthere)

/-- A newcomer comes in under the number that was found for it, and nobody else is concerned. -/
theorem of_spawn_eq_ok (h : (s.spawn newcomer).1 = .ok id) :
    s.idFor newcomer = .ok id ∧ ∀ other, other ≠ id →
      (s.spawn newcomer).2.world.body? other = s.world.body? other ∧
      (s.spawn newcomer).2.brains.get? other = s.brains.get? other := by
  obtain ⟨_, random, heq, _⟩ | ⟨_, t, brain, random, hid, _, heq⟩ := s.spawn_cases newcomer
  · rw [heq] at h
    cases h
  · rw [heq] at h ⊢
    cases h
    refine ⟨hid, fun other hne => ⟨?_, ?_⟩⟩
    · exact (World.body?_insertBody ..).trans (if_neg hne)
    · exact (SortedMap.get?_insert ..).trans (if_neg hne)

/-! ## Numbers go out of use -/

/-- Whoever spawns comes to those who are there. -/
theorem contains_spawn_iff : (s.spawn newcomer).2.world.contains id ↔
    s.world.contains id ∨ (s.spawn newcomer).1 = .ok id := by
  obtain ⟨_, random, heq, _⟩ | ⟨own, t, brain, random, _, _, heq⟩ := s.spawn_cases newcomer
  · rw [heq]
    exact (or_iff_left nofun).symm
  · rw [heq]
    refine World.contains_insertBody.trans (or_congr_right ⟨?_, ?_⟩)
    · rintro rfl
      rfl
    · rintro ⟨⟩
      rfl

/-- Only where an agent is asked to be taken out its number goes out of use. -/
theorem Reachable.contains_attempt (h : Reachable engine scenario s) {request : Request}
    (hstays : request ≠ .despawn id) (hthere : s.world.contains id) :
    (s.attempt request).2.world.contains id := by
  cases request with
  | spawn newcomer => exact contains_spawn_iff.mpr (.inl hthere)
  | despawn other =>
    refine attempt_of_outcome (p := fun s' => s'.world.contains id) hthere fun _ hs' => ?_
    obtain ⟨b, hb⟩ := World.contains_iff.mp hthere
    have hne : id ≠ other := fun heq => hstays (by rw [heq])
    rw [eq_of_despawn hs']
    refine World.contains_of_body? (b := b) ?_
    rw [World.body?_removeBody, if_neg hne]
    exact hb
  | hit attacker victim damage =>
    refine attempt_of_outcome (p := fun s' => s'.world.contains id) hthere fun _ hs' => ?_
    rw [eq_of_hit hs', (World.quiet_damage s.world attacker victim damage).contains]
    exact hthere
  | step =>
    show s.step.world.contains id
    rw [h.orderly.each_registers_step.contains]
    exact hthere

/-! ## Numbers that agents had -/

/-- Whether there was an agent with a number before requests or after some of them. -/
def Used (s : Simulation) (requests : List Request) (id : AgentId) : Prop :=
  ∃ earlier, earlier <+: requests ∧ (s.attempts earlier).world.contains id

theorem used_nil : s.Used [] id ↔ s.world.contains id := by
  refine ⟨?_, fun hthere => ⟨[], List.prefix_rfl, hthere⟩⟩
  rintro ⟨earlier, hearlier, hthere⟩
  rw [List.prefix_nil.mp hearlier] at hthere
  exact hthere

theorem used_cons {request : Request} : s.Used (request :: requests) id ↔
    s.world.contains id ∨ (s.attempt request).2.Used requests id := by
  constructor
  · rintro ⟨earlier, hearlier, hthere⟩
    cases earlier with
    | nil => exact .inl hthere
    | cons first earlier =>
      obtain ⟨rfl, hrest⟩ := List.cons_prefix_cons.mp hearlier
      exact .inr ⟨earlier, hrest, hthere⟩
  · rintro (hthere | ⟨earlier, hearlier, hthere⟩)
    · exact ⟨[], List.nil_prefix, hthere⟩
    · exact ⟨request :: earlier, List.cons_prefix_cons.mpr ⟨rfl, hearlier⟩, hthere⟩

/-- Whether a request leaves the agents with the highest numbers: if it takes one out, there is another
with a higher number. -/
def Request.LeavesHighest (s : Simulation) : Request → Prop
  | .despawn id => s.world.contains id → ∃ other, s.world.contains other ∧ id.number < other.number
  | .spawn _ | .hit .. | .step => True

/-- Whether requests leave the agents with the highest numbers. -/
def LeavesHighest (s : Simulation) : List Request → Prop
  | [] => True
  | request :: rest => request.LeavesHighest s ∧ (s.attempt request).2.LeavesHighest rest

/-- A request that leaves the agents with the highest numbers leaves somebody above each number. -/
theorem Reachable.le_attempt (h : Reachable engine scenario s) {request : Request}
    (leaves : request.LeavesHighest s) (hthere : s.world.contains id) :
    ∃ other, (s.attempt request).2.world.contains other ∧ id.number ≤ other.number := by
  by_cases hout : request = .despawn id
  · subst hout
    obtain ⟨other, hother, hlt⟩ := leaves hthere
    refine ⟨other, h.contains_attempt ?_ hother, UInt32.le_of_lt hlt⟩
    rintro ⟨⟩
    exact UInt32.lt_irrefl _ hlt
  · exact ⟨id, h.contains_attempt hout hthere, UInt32.le_refl _⟩

/-- As long as the agents with the highest numbers stay, no number was in use that is above all that are. -/
theorem Reachable.le_of_used (h : Reachable engine scenario s) (leaves : s.LeavesHighest requests)
    (hused : s.Used requests id) :
    ∃ other, (s.attempts requests).world.contains other ∧ id.number ≤ other.number := by
  induction requests generalizing s id with
  | nil => exact ⟨id, used_nil.mp hused, UInt32.le_refl _⟩
  | cons request rest ih =>
    rcases used_cons.mp hused with hthere | hused
    · obtain ⟨next, hnext, hle⟩ := h.le_attempt leaves.1 hthere
      have hnextUsed : (s.attempt request).2.Used rest next := ⟨[], List.nil_prefix, hnext⟩
      obtain ⟨other, hother, hle'⟩ := ih (h.attempt request) leaves.2 hnextUsed
      exact ⟨other, hother, UInt32.le_trans hle hle'⟩
    · exact ih (h.attempt request) leaves.2 hused

/-- An agent that was there is there still, or was asked to be taken out. -/
theorem Reachable.contains_or_of_used (h : Reachable engine scenario s) (hused : s.Used requests id) :
    (s.attempts requests).world.contains id ∨ ∃ earlier later,
      requests = earlier ++ .despawn id :: later ∧ (s.attempts earlier).world.contains id := by
  induction requests generalizing s with
  | nil => exact .inl (used_nil.mp hused)
  | cons request rest ih =>
    have hlater : (s.attempt request).2.Used rest id →
        (s.attempts (request :: rest)).world.contains id ∨ ∃ earlier later,
          request :: rest = earlier ++ .despawn id :: later ∧
            (s.attempts earlier).world.contains id := by
      intro hused
      rcases ih (h.attempt request) hused with hthere | ⟨earlier, later, rfl, hthere⟩
      · exact .inl hthere
      · exact .inr ⟨request :: earlier, later, rfl, hthere⟩
    rcases used_cons.mp hused with hthere | hused
    · by_cases hout : request = .despawn id
      · exact .inr ⟨[], rest, by rw [hout]; rfl, hthere⟩
      · exact hlater ⟨[], List.nil_prefix, h.contains_attempt hout hthere⟩
    · exact hlater hused

/-- A number that is given to a newcomer was in use before exactly where it belongs to an agent who was
asked to be taken out, or wraps around to the number 0 of an agent who is there. As long as the agents with
the highest numbers stay and the number does not wrap around, it is a new one, and whatever number was in use
before stands for the same agent, or for nobody, after the newcomer came in as it did before. -/
theorem used_iff_of_spawn (engine : Engine) (scenario : Scenario) (requests : List Request)
    {newcomer : Spawn} {id : AgentId} :
    let start := ofScenario engine scenario
    let s := start.attempts requests
    let s' := start.attempts (requests ++ [.spawn newcomer])
    newcomer.id = none → (s.spawn newcomer).1 = .ok id →
      (start.Used requests id ↔ (id.number = 0 ∧ s.world.contains id) ∨ ∃ earlier later,
        requests = earlier ++ .despawn id :: later ∧ (start.attempts earlier).world.contains id) ∧
      (start.LeavesHighest requests → id.number ≠ 0 →
        ¬ start.Used requests id ∧ ∀ other, start.Used requests other →
          s'.world.body? other = s.world.body? other ∧
          s'.brains.get? other = s.brains.get? other) := by
  intro start s s' hnone hspawned
  have reachable : Reachable engine scenario start := .start
  have hindexed : s.world.Indexed := (reachable.attempts requests).orderly.world.indexed
  obtain ⟨hid, hothers⟩ := of_spawn_eq_ok hspawned
  have hnext : id = s.nextId := by
    unfold idFor at hid
    rw [hnone] at hid
    cases hid
    rfl
  refine ⟨⟨fun hused => ?_, ?_⟩, fun leaves hwrap => ?_⟩
  · rcases reachable.contains_or_of_used hused with hthere | hout
    · refine .inl ⟨?_, hthere⟩
      by_contra hwrap
      rw [hnext] at hwrap hthere
      exact not_contains_nextId hindexed hwrap hthere
    · exact .inr hout
  · rintro (⟨_, hthere⟩ | ⟨earlier, later, rfl, hthere⟩)
    · exact ⟨requests, List.prefix_rfl, hthere⟩
    · exact ⟨earlier, List.prefix_append _ _, hthere⟩
  · have hnew : ¬ start.Used requests id := by
      intro hused
      obtain ⟨other, hother, hle⟩ := reachable.le_of_used leaves hused
      rw [hnext] at hwrap hle
      exact UInt32.not_le.mpr (lt_nextId hindexed hwrap hother) hle
    refine ⟨hnew, fun other hother => ?_⟩
    have hs' : s' = (s.spawn newcomer).2 := attempts_concat ..
    have hne : other ≠ id := fun heq => hnew (heq ▸ hother)
    rw [hs']
    exact hothers other hne

/-- Of three wolves the second is taken out. The next one gets a number that no wolf had, and nobody else
is concerned. -/
theorem used_iff_of_spawn_wolves :
    let wolf : Template :=
      { name := "wolf", species := "wolf", enabled := true, maxHealth := 20.0
        defaultActivity := .core, overrides := .empty, declarations := [], herd := {}
        activities := [⟨.core, [⟨0, .leaf .doNothing⟩]⟩] }
    let engine : Engine := { templates := { templates := .ofList [("wolf", wolf)] } }
    let newcomer : Spawn := { template := "wolf", position := ⟨0, 0, 0⟩ }
    let scenario : Scenario := { agents := [newcomer, newcomer, newcomer] }
    let start := ofScenario engine scenario
    let requests := [.despawn ⟨2⟩, .step]
    let s := start.attempts requests
    let s' := start.attempts (requests ++ [.spawn newcomer])
    newcomer.id = none ∧ (s.spawn newcomer).1 = .ok ⟨4⟩ ∧ start.LeavesHighest requests ∧
      ¬ start.Used requests ⟨4⟩ ∧ ∀ other, start.Used requests other →
        s'.world.body? other = s.world.body? other ∧
        s'.brains.get? other = s.brains.get? other := by
  intro wolf engine newcomer scenario start requests s s'
  have hspawned : (s.spawn newcomer).1 = .ok ⟨4⟩ := eq_ok_of_toOption (by decide +kernel)
  have leaves : start.LeavesHighest requests :=
    ⟨fun _ => ⟨⟨3⟩, by decide +kernel, by decide⟩, trivial, trivial⟩
  have hnone : newcomer.id = none := rfl
  obtain ⟨_, hfresh⟩ := used_iff_of_spawn engine scenario requests hnone hspawned
  obtain ⟨hnew, hothers⟩ := hfresh leaves (by decide)
  exact ⟨hnone, hspawned, leaves, hnew, hothers⟩

/-- A wolf follows another, who is taken out. The next to come in, a stray, gets the number of the leader,
and is the leader that the wolf remembers. -/
theorem reused_wolves :
    let wolf : Template :=
      { name := "wolf", species := "wolf", enabled := true, maxHealth := 20.0
        defaultActivity := .core, overrides := .empty, declarations := []
        herd := { toleratedLeaders := [⟨"wolf", true⟩] }
        activities := [⟨.core, [⟨0, .leaf (.findHerdLeader (.number 1.0))⟩]⟩] }
    let stray : Template :=
      { wolf with name := "stray", species := "stray", herd := {} }
    let engine : Engine :=
      { templates := { templates := .ofList [("wolf", wolf), ("stray", stray)] } }
    let scenario : Scenario :=
      { agents := [{ template := "wolf", position := ⟨0, 0, 0⟩ },
          { template := "wolf", position := ⟨1, 0, 0⟩ }] }
    let start := ofScenario engine scenario
    let requests := [.step, .despawn ⟨2⟩]
    let s := start.attempts requests
    let newcomer : Spawn := { template := "stray", position := ⟨0, 0, 0⟩ }
    let s' := (s.spawn newcomer).2
    newcomer.id = none ∧ (s.spawn newcomer).1.toOption = some ⟨2⟩ ∧ start.Used requests ⟨2⟩ ∧
      (start.step.world.body? ⟨2⟩).map Body.template = some "wolf" ∧
      s.leader? ⟨1⟩ = some ⟨2⟩ ∧ s.world.body? ⟨2⟩ = none ∧ s'.leader? ⟨1⟩ = some ⟨2⟩ ∧
      (s'.world.body? ⟨2⟩).map Body.template = some "stray" := by
  intro wolf stray engine scenario start requests s newcomer s'
  refine ⟨rfl, by decide +kernel, ⟨[], List.nil_prefix, by decide +kernel⟩, by decide +kernel,
    by decide +kernel, ?_, by decide +kernel, by decide +kernel⟩
  exact Option.isNone_iff_eq_none.mp (by decide +kernel)

end Simulation

end Menagerie
