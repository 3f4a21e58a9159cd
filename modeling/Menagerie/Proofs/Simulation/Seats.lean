import Menagerie.Proofs.Agent.Turns
import Menagerie.Proofs.Simulation.Activities
import Menagerie.Proofs.Simulation.Nectar
import Menagerie.Proofs.Simulation.Turns
import Menagerie.Proofs.Template.Provision

/-!
# What a leaf does from tick to tick

As long as an agent stays in its place, so do the leaves of its brain, each in its `Seat`. In a tick the leaf in
a seat is run once at most (`Simulation.turn?`), and all that a tick runs are such turns
(`Reachable.mem_runs_iff`). What a turn leaves of a leaf is in its seat at the next tick, and nothing else
changes there (`Reachable.leafAt?_step`, `leafAt?_attempt`).
-/

namespace Menagerie

open Std

/-- Where a leaf is kept: by which agent, for which activity, and in which place among the leaves for it. -/
structure Seat where
  agent : AgentId
  activity : Activity
  index : Nat
  deriving DecidableEq, Repr

namespace Simulation

variable {engine : Engine} {scenario : Scenario} {s : Simulation} {seat : Seat} {r : LeafRun}

/-- The leaf in a seat. -/
def leafAt? (s : Simulation) (seat : Seat) : Option Leaf :=
  (s.brains.get? seat.agent).bind fun brain => brain.leafAt? seat.activity seat.index

/-- The run of the leaf in a seat in the next tick, if it has a turn. -/
def turn? (s : Simulation) (seat : Seat) : Option LeafRun :=
  let stage := s.stageFor seat.agent
  (s.brains.get? seat.agent).bind fun brain =>
    if stage.world.isAlive seat.agent then
      brain.turn? s.whenThinking.engine.chainLimit seat.activity seat.index stage
    else none

/-- No activity of an agent is active twice when it has its turn. -/
theorem Reachable.focused (h : Reachable engine scenario s) {id : AgentId} {brain : Brain}
    (hbrain : s.brains.get? id = some brain) : brain.Focused (s.stageFor id) := by
  obtain ⟨_, hschedule, _⟩ := h.orderly.exists_runs_eq hbrain
  intro schedule hactive
  rw [h.orderly.assigned id brain hbrain, hschedule] at hactive
  obtain ⟨b, hb, rfl⟩ := Option.map_eq_some_iff.mp hactive
  obtain ⟨_, _, _, _, ⟨_, hcore⟩ | ⟨a, _, hne, hcore⟩⟩ := (h.every_guides id b hb).engages
  · rw [hcore]
    exact List.nodup_singleton _
  · rw [hcore]
    exact List.nodup_cons.mpr ⟨fun hmem => hne (List.mem_singleton.mp hmem).symm, List.nodup_singleton _⟩

/-! ## Turns -/

/-- A turn is of a leaf of an agent that lives. -/
theorem exists_of_turn? (h : s.turn? seat = some r) : ∃ brain, s.brains.get? seat.agent = some brain ∧
    (s.stageFor seat.agent).world.isAlive seat.agent ∧
    brain.turn? s.whenThinking.engine.chainLimit seat.activity seat.index (s.stageFor seat.agent) = some r := by
  obtain ⟨brain, hbrain, hturn⟩ := Option.bind_eq_some_iff.mp h
  split at hturn
  · next halive => exact ⟨brain, hbrain, halive, hturn⟩
  · cases hturn

theorem Reachable.leafAt?_of_turn? (h : Reachable engine scenario s) (hturn : s.turn? seat = some r) :
    s.leafAt? seat = some r.leaf := by
  obtain ⟨brain, hbrain, _, hown⟩ := exists_of_turn? hturn
  unfold leafAt?
  rw [hbrain]
  exact Brain.leafAt?_of_turn? (h.focused hbrain) hown

/-- A turn is run in the tick, for the agent of the seat. -/
theorem Reachable.mem_runs_of_turn? (h : Reachable engine scenario s) (hturn : s.turn? seat = some r) :
    r ∈ s.runs ∧ r.env.agent = seat.agent := by
  obtain ⟨brain, hbrain, halive, hown⟩ := exists_of_turn? hturn
  obtain ⟨_, _, earlier, later, hruns⟩ := h.orderly.exists_runs_eq hbrain
  have hmem := (Brain.mem_runs_iff (h.focused hbrain)).mpr ⟨_, _, hown⟩
  refine ⟨?_, (brain.agent_of_mem_runs _ _ r hmem).trans (h.orderly.assigned _ brain hbrain)⟩
  rw [hruns, if_pos halive]
  exact List.mem_append_right _ (List.mem_append_left _ hmem)

/-- What is run is run by the brain of an agent that lives, when the agent has its turn. -/
theorem exists_of_mem_runsFrom {limit : Nat} {entries : List (AgentId × Brain)}
    (hascending : entries.Pairwise fun a b => compare a.1 b.1 = .lt) {start : Stage}
    (hr : r ∈ runsFrom limit entries start) :
    ∃ id brain, SortedMap.Entries.get? id entries = some brain ∧
      (SortedMap.Entries.stateAt (thinkFor limit) id entries start).world.isAlive id ∧
      r ∈ brain.runs limit (SortedMap.Entries.stateAt (thinkFor limit) id entries start) := by
  induction entries generalizing start with
  | nil => cases hr
  | cons entry rest ih =>
    obtain ⟨first, firstBrain⟩ := entry
    rw [List.pairwise_cons] at hascending
    rcases List.mem_append.mp hr with hhere | hlater
    · have hself : compare first first = .eq := ReflCmp.compare_self
      refine ⟨first, firstBrain, ?_⟩
      rw [SortedMap.Entries.get?, SortedMap.Entries.stateAt, hself]
      split at hhere
      · next halive => exact ⟨rfl, halive, hhere⟩
      · cases hhere
    · obtain ⟨id, brain, hbrain, halive, hmem⟩ := ih hascending.2 hlater
      have hin : (id, brain) ∈ rest := (SortedMap.Entries.get?_eq_some_iff hascending.2).mp hbrain
      have hgt : compare id first = .gt := OrientedCmp.gt_of_lt (hascending.1 _ hin)
      refine ⟨id, brain, ?_⟩
      rw [SortedMap.Entries.get?, SortedMap.Entries.stateAt, hgt]
      exact ⟨hbrain, halive, hmem⟩

/-- What a tick runs are the turns of leaves in their seats. -/
theorem Reachable.mem_runs_iff (h : Reachable engine scenario s) :
    r ∈ s.runs ↔ ∃ seat, s.turn? seat = some r := by
  constructor
  · intro hr
    obtain ⟨id, brain, hbrain, halive, hmem⟩ := exists_of_mem_runsFrom s.whenThinking.brains.ascending hr
    have hget : s.brains.get? id = some brain := hbrain
    obtain ⟨activity, index, hturn⟩ := (Brain.mem_runs_iff (h.focused hget)).mp hmem
    refine ⟨⟨id, activity, index⟩, ?_⟩
    unfold turn?
    rw [hget]
    exact (if_pos halive).trans hturn
  · rintro ⟨seat, hturn⟩
    exact (h.mem_runs_of_turn? hturn).1

/-! ## Seats from tick to tick -/

/-- After a tick there is in a seat what its turn left there, and the same leaf as before if it had none. -/
theorem Reachable.leafAt?_step (h : Reachable engine scenario s) (seat : Seat) :
    s.step.leafAt? seat = ((s.turn? seat).map LeafRun.left).or (s.leafAt? seat) := by
  have hget : s.step.brains.get? seat.agent = (s.brains.get? seat.agent).map fun brain =>
      (thinkFor s.whenThinking.engine.chainLimit seat.agent brain (s.stageFor seat.agent)).1 :=
    SortedMap.Entries.get?_mapWithState ..
  unfold leafAt? turn?
  rw [hget]
  cases hbrain : s.brains.get? seat.agent with
  | none => rfl
  | some brain =>
    rw [Option.map_some, Option.bind_some, Option.bind_some, Option.bind_some]
    unfold thinkFor
    split
    · exact Brain.leafAt?_tick _ (h.focused hbrain) _ _
    · rfl

/-! ## Agents come and go -/

variable {id : AgentId}

/-- Whether all leaves that an agent has are fresh. -/
def Fresh (s : Simulation) (id : AgentId) : Prop :=
  ∀ brain, s.brains.get? id = some brain → ∀ l, brain.Has l → l.Fresh

theorem Fresh.of_leafAt? (h : s.Fresh seat.agent) {l : Leaf} (hl : s.leafAt? seat = some l) : l.Fresh := by
  obtain ⟨brain, hbrain, hl⟩ := Option.bind_eq_some_iff.mp hl
  exact h brain hbrain l (Brain.has_of_leafAt? hl)

theorem fresh_of_get?_eq_none (h : s.brains.get? id = none) : s.Fresh id := by
  intro brain hbrain
  rw [h] at hbrain
  cases hbrain

/-- Who spawns has fresh leaves, and the brains of others are as they were. -/
theorem fresh_spawn (newcomer : Spawn) (id : AgentId) :
    ((s.spawn newcomer).1.toOption = some id → (s.spawn newcomer).2.Fresh id) ∧
      ((s.spawn newcomer).1.toOption ≠ some id →
        (s.spawn newcomer).2.brains.get? id = s.brains.get? id) := by
  obtain ⟨_, random, heq, _⟩ | ⟨other, t, brain, random, _, hbrain, heq⟩ := s.spawn_cases newcomer
  · rw [heq]
    exact ⟨nofun, fun _ => rfl⟩
  · rw [heq]
    constructor
    · rintro ⟨⟩ own hown l hl
      rw [SortedMap.get?_insert, if_pos rfl] at hown
      cases hown
      exact (Engine.gathered_of_instantiate hbrain).fresh l (.inl hl)
    · intro hother
      rw [SortedMap.get?_insert, if_neg fun hid => hother (congrArg some hid.symm)]

theorem fresh_ofScenario (engine : Engine) (scenario : Scenario) (id : AgentId) :
    (ofScenario engine scenario).Fresh id := by
  refine ofScenario_of_spawn (p := fun s => s.Fresh id) engine scenario (fun _ _ => nofun) ?_ fun _ _ h => h
  intro s newcomer h
  obtain ⟨hnew, hothers⟩ := s.fresh_spawn newcomer id
  by_cases hid : (s.spawn newcomer).1.toOption = some id
  · exact hnew hid
  · unfold Fresh
    rw [hothers hid]
    exact h

/-- The brain of an agent that stays in its place is as it was, whatever else is asked for than a tick. -/
theorem brain_attempt {request : Request} (hnostep : request ≠ .step) (hpresent : s.world.contains id)
    (hleaves : request.Leaves id s) : (s.attempt request).2.brains.get? id = s.brains.get? id := by
  cases request with
  | spawn newcomer => exact (s.fresh_spawn newcomer id).2 (hleaves hpresent)
  | despawn other =>
    refine attempt_of_outcome (p := fun s' => s'.brains.get? id = s.brains.get? id) rfl fun s' hs' => ?_
    rw [eq_of_despawn hs', SortedMap.get?_erase, if_neg (Ne.symm hleaves)]
  | hit attacker victim damage =>
    refine attempt_of_outcome (p := fun s' => s'.brains.get? id = s.brains.get? id) rfl fun s' hs' => ?_
    rw [eq_of_hit hs']
  | step => exact absurd rfl hnostep

/-- An agent that comes or goes has fresh leaves if it has any. -/
theorem Reachable.fresh_attempt (h : Reachable engine scenario s) {request : Request}
    (hnostep : request ≠ .step) (hmoves : ¬ (s.world.contains id ∧ request.Leaves id s)) :
    (s.attempt request).2.Fresh id := by
  have hpresent {brain : Brain} (hbrain : s.brains.get? id = some brain) : s.world.contains id := by
    have hpair := h.paired.pairs id
    rw [hbrain] at hpair
    cases hb : s.world.body? id with
    | some b => exact World.contains_of_body? hb
    | none =>
      rw [hb] at hpair
      cases hpair
  have habsent (hleaves : request.Leaves id s) : s.brains.get? id = none := by
    cases hbrain : s.brains.get? id with
    | none => rfl
    | some brain => exact absurd ⟨hpresent hbrain, hleaves⟩ hmoves
  cases request with
  | spawn newcomer =>
    obtain ⟨hnew, hothers⟩ := s.fresh_spawn newcomer id
    by_cases hid : (s.spawn newcomer).1.toOption = some id
    · exact hnew hid
    · exact fresh_of_get?_eq_none ((hothers hid).trans (habsent fun _ => hid))
  | despawn other =>
    by_cases hother : other = id
    · subst hother
      rw [Simulation.attempt, Simulation.despawn]
      split
      · refine fresh_of_get?_eq_none ?_
        show (s.brains.erase other).get? other = none
        rw [SortedMap.get?_erase, if_pos rfl]
      · next hnone => exact fresh_of_get?_eq_none (Option.not_isSome_iff_eq_none.mp hnone)
    · refine attempt_of_outcome (p := fun s' => s'.Fresh id) (fresh_of_get?_eq_none (habsent hother)) ?_
      intro s' hs'
      rw [eq_of_despawn hs']
      refine fresh_of_get?_eq_none ?_
      rw [SortedMap.get?_erase, habsent hother]
      exact ite_self none
  | hit attacker victim damage =>
    refine attempt_of_outcome (p := fun s' => s'.Fresh id) (fresh_of_get?_eq_none (habsent trivial)) ?_
    intro s' hs'
    rw [eq_of_hit hs']
    exact fresh_of_get?_eq_none (habsent trivial)
  | step => exact absurd rfl hnostep

end Simulation

end Menagerie
