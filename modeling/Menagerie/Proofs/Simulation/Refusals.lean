import Menagerie.Proofs.Simulation.Numbers
import Menagerie.Proofs.Simulation.Order

/-!
# Numbers that are taken

A scenario whose agents have different numbers of their own is read without objection
(`Scenario.repeatedId?_eq_none_iff`), but that does not keep its agents apart. An agent without a number gets
one when it is its turn, whether or not an agent that is still to come has that number, and it is that agent
then that is refused (`Simulation.duplicateAgent_mem_iff`).
-/

namespace Menagerie

/-! ## Folds, turn by turn -/

/-- What can only come about at the turn of some element holds after a fold if it held before or came about
at one of the turns. -/
theorem foldl_iff_exists_turn {α β : Type} {f : β → α → β} {p : β → Prop} {q : β → α → Prop}
    (hstep : ∀ s a, p (f s a) ↔ p s ∨ q s a) (l : List α) (s : β) :
    p (l.foldl f s) ↔
      p s ∨ ∃ before a after, l = before ++ a :: after ∧ q (before.foldl f s) a := by
  induction l generalizing s with
  | nil =>
    refine ⟨.inl, ?_⟩
    rintro (hs | ⟨before, a, after, hsplit, _⟩)
    · exact hs
    · exact absurd hsplit (List.append_ne_nil_of_right_ne_nil _ (List.cons_ne_nil a after)).symm
  | cons first rest ih =>
    rw [List.foldl_cons, ih, hstep, or_assoc]
    refine or_congr_right ⟨?_, ?_⟩
    · rintro (hfirst | ⟨before, a, after, rfl, hq⟩)
      · exact ⟨[], first, rest, rfl, hfirst⟩
      · exact ⟨first :: before, a, after, rfl, hq⟩
    · rintro ⟨before, a, after, hsplit, hq⟩
      cases before with
      | nil =>
        cases hsplit
        exact .inl hq
      | cons _ before =>
        cases hsplit
        exact .inr ⟨before, a, after, rfl, hq⟩

/-! ## Scenarios -/

namespace Scenario

theorem search_eq_none_iff (seen ids : List AgentId) :
    repeatedId?.search seen ids = none ↔ ids.Nodup ∧ ∀ id ∈ ids, id ∉ seen := by
  induction ids generalizing seen with
  | nil => exact ⟨fun _ => ⟨List.nodup_nil, nofun⟩, fun _ => rfl⟩
  | cons id rest ih =>
    unfold repeatedId?.search
    split
    · next hseen =>
      refine ⟨nofun, fun h => ?_⟩
      exact absurd (List.contains_iff_mem.mp hseen) (h.2 id (.head _))
    · next hnew =>
      rw [ih, List.nodup_cons]
      constructor
      · rintro ⟨hnodup, hrest⟩
        refine ⟨⟨fun hmem => hrest id hmem (.head _), hnodup⟩, ?_⟩
        refine List.forall_mem_cons.mpr ⟨fun hseen => hnew (List.contains_iff_mem.mpr hseen), ?_⟩
        exact fun other hother hseen => hrest other hother (.tail _ hseen)
      · rintro ⟨⟨hid, hnodup⟩, hrest⟩
        refine ⟨hnodup, fun other hother hseen => ?_⟩
        rcases List.mem_cons.mp hseen with rfl | hseen
        · exact hid hother
        · exact hrest other (.tail _ hother) hseen

/-- No number is repeated where the numbers that agents have of their own are all different. -/
theorem repeatedId?_eq_none_iff (scenario : Scenario) :
    scenario.repeatedId? = none ↔ (scenario.agents.filterMap Spawn.id).Nodup := by
  unfold repeatedId?
  rw [search_eq_none_iff]
  exact and_iff_left fun _ _ => List.not_mem_nil

end Scenario

/-- The number that is taken, where this is why something was refused. -/
def SimulationError.taken? : SimulationError → Option AgentId
  | duplicateAgent id => some id
  | unknownTemplate _ | disabledTemplate _ | unknownAgent _ | content _ => none

namespace Simulation

variable {engine : Engine} {scenario : Scenario} {s : Simulation} {id : AgentId} {newcomer : Spawn}

/-! ## Newcomers at their turn -/

theorem template_ne_duplicateAgent (e : Engine) (name : String) (id : AgentId) :
    e.template name ≠ .error (.duplicateAgent id) := by
  unfold Engine.template
  split
  · nofun
  · split
    · nofun
    · nofun

theorem idFor_eq_error_iff {cause : SimulationError} : s.idFor newcomer = .error cause ↔
    ∃ id, cause = .duplicateAgent id ∧ newcomer.id = some id ∧ s.world.contains id := by
  unfold idFor
  cases newcomer.id with
  | none =>
    refine ⟨nofun, ?_⟩
    rintro ⟨_, _, ⟨⟩, _⟩
  | some own =>
    dsimp only
    split
    · next htaken =>
      refine ⟨?_, ?_⟩
      · rintro ⟨⟩
        exact ⟨own, rfl, rfl, htaken⟩
      · rintro ⟨_, rfl, ⟨⟩, _⟩
        rfl
    · next hfree =>
      refine ⟨nofun, ?_⟩
      rintro ⟨_, _, ⟨⟩, htaken⟩
      exact absurd htaken hfree

/-- A newcomer is refused for its number exactly where it has one of its own that is in use. -/
theorem spawn_eq_duplicateAgent_iff : (s.spawn newcomer).1 = .error (.duplicateAgent id) ↔
    newcomer.id = some id ∧ s.world.contains id := by
  have hnumber : s.idFor newcomer = .error (.duplicateAgent id) ↔
      newcomer.id = some id ∧ s.world.contains id := by
    rw [idFor_eq_error_iff]
    refine ⟨?_, fun h => ⟨id, rfl, h⟩⟩
    rintro ⟨_, ⟨⟩, h⟩
    exact h
  rw [← hnumber]
  unfold Simulation.spawn
  cases s.idFor newcomer with
  | error cause => rfl
  | ok own =>
    refine ⟨fun h => ?_, nofun⟩
    dsimp only at h
    split at h
    · next htemplate =>
      cases h
      exact (template_ne_duplicateAgent _ _ id htemplate).elim
    · split at h
      · cases h
      · cases h

/-- A newcomer gets no other number than its own, if it has one. -/
theorem id_of_idFor (h : s.idFor newcomer = .ok id) : newcomer.id = none ∨ newcomer.id = some id := by
  unfold idFor at h
  cases hown : newcomer.id with
  | none => exact .inl rfl
  | some own =>
    rw [hown] at h
    dsimp only at h
    split at h
    · cases h
    · cases h
      exact .inr rfl

theorem mem_noted_iff {failed : FailedSpawn} : failed ∈ s.noted newcomer ↔
    failed.template = newcomer.template ∧ (s.spawn newcomer).1 = .error failed.cause := by
  obtain ⟨template, cause⟩ := failed
  unfold noted
  cases (s.spawn newcomer).1 with
  | ok _ =>
    refine ⟨nofun, ?_⟩
    rintro ⟨_, ⟨⟩⟩
  | error cause' =>
    rw [List.mem_singleton]
    refine ⟨?_, ?_⟩
    · rintro ⟨⟩
      exact ⟨rfl, rfl⟩
    · rintro ⟨rfl, ⟨⟩⟩
      rfl

theorem mem_failedSpawns_spawnOrNote {failed : FailedSpawn} :
    failed ∈ (s.spawnOrNote newcomer).failedSpawns ↔
      failed ∈ s.failedSpawns ∨ failed ∈ s.noted newcomer := by
  have hnoted : (s.spawnOrNote newcomer).failedSpawns = s.failedSpawns ++ s.noted newcomer :=
    congrArg failedSpawns (spawnOrNote_withFailed s s.failedSpawns newcomer)
  rw [hnoted, List.mem_append]

theorem contains_spawnOrNote : (s.spawnOrNote newcomer).world.contains id ↔
    s.world.contains id ∨ (s.spawn newcomer).1 = .ok id := by
  obtain ⟨failedSpawns, heq⟩ := s.spawnOrNote_eq newcomer
  rw [heq]
  exact contains_spawn_iff

/-! ## Scenarios turn by turn -/

/-- What comes about at the turns of agents, and in no other way, holds at the start of a scenario where it
came about at one of the turns. An agent has its turn when those that are listed before it had theirs. -/
theorem ofScenario_iff_exists_turn {p : Simulation → Prop} {q : Simulation → Spawn → Prop}
    (hempty : ¬ p (ofScenario engine { scenario with agents := [] }))
    (hstep : ∀ s newcomer, p (s.spawnOrNote newcomer) ↔ p s ∨ q s newcomer) :
    p (ofScenario engine scenario) ↔ ∃ before newcomer after,
      scenario.agents = before ++ newcomer :: after ∧
        q (ofScenario engine { scenario with agents := before }) newcomer :=
  (foldl_iff_exists_turn hstep scenario.agents _).trans (or_iff_right hempty)

theorem rel_of_pairwise_split {α : Type} {rel : α → α → Prop} {before between after : List α} {a b : α}
    (h : (before ++ a :: (between ++ b :: after)).Pairwise rel) : rel a b :=
  List.rel_of_pairwise_cons (List.pairwise_append.mp h).2.1
    (List.mem_append.mpr (.inr (.head after)))

/-- Who is there at the start of a scenario came in at its turn. -/
theorem contains_ofScenario_iff : (ofScenario engine scenario).world.contains id ↔
    ∃ before newcomer after, scenario.agents = before ++ newcomer :: after ∧
      ((ofScenario engine { scenario with agents := before }).spawn newcomer).1 = .ok id :=
  ofScenario_iff_exists_turn (p := fun s => s.world.contains id)
    (q := fun s newcomer => (s.spawn newcomer).1 = .ok id) Bool.false_ne_true
    fun _ _ => contains_spawnOrNote

/-- Who is refused for its number had one of its own at its turn that was in use. -/
theorem duplicateAgent_mem_iff_contains {template : String} :
    ⟨template, .duplicateAgent id⟩ ∈ (ofScenario engine scenario).failedSpawns ↔
      ∃ before numbered after, scenario.agents = before ++ numbered :: after ∧
        numbered.template = template ∧ numbered.id = some id ∧
        (ofScenario engine { scenario with agents := before }).world.contains id := by
  rw [ofScenario_iff_exists_turn (p := fun s => ⟨template, .duplicateAgent id⟩ ∈ s.failedSpawns)
    (q := fun s newcomer => ⟨template, .duplicateAgent id⟩ ∈ s.noted newcomer) List.not_mem_nil
    fun _ _ => mem_failedSpawns_spawnOrNote]
  refine exists_congr fun before => exists_congr fun numbered => exists_congr fun after => ?_
  rw [mem_noted_iff, spawn_eq_duplicateAgent_iff, eq_comm (a := template)]

/-- Where the agents of a scenario have different numbers of their own, a number is in use at the turn of the
agent whose own it is just where it was given before to an agent without one. -/
theorem exists_unnumbered_iff (h : (scenario.agents.filterMap Spawn.id).Nodup) {earlier after : List Spawn}
    {numbered : Spawn} (hagents : scenario.agents = earlier ++ numbered :: after)
    (hnumbered : numbered.id = some id) :
    (ofScenario engine { scenario with agents := earlier }).world.contains id ↔
      ∃ before unnumbered between, earlier = before ++ unnumbered :: between ∧ unnumbered.id = none ∧
        ((ofScenario engine { scenario with agents := before }).spawn unnumbered).1 = .ok id := by
  rw [contains_ofScenario_iff]
  refine exists_congr fun before => exists_congr fun unnumbered => exists_congr fun between => ?_
  refine and_congr_right fun hearlier => ⟨fun hspawned => ⟨?_, hspawned⟩, And.right⟩
  -- Whoever came in under the number as its own would share it with the agent that is listed later.
  refine (id_of_idFor (of_spawn_eq_ok hspawned).1).resolve_right fun hown => ?_
  rw [hagents, show earlier = _ from hearlier, List.append_assoc, List.cons_append] at h
  exact rel_of_pairwise_split (List.pairwise_filterMap.mp h) id hown id hnumbered rfl

/-- Where the agents of a scenario have different numbers of their own, an agent is refused for its number
exactly where one before it had none, and was given that number at its turn. So none is refused for its
number where those that have one are listed before those that have none. -/
theorem duplicateAgent_mem_iff (h : scenario.repeatedId? = none) :
    (∀ template id, ⟨template, .duplicateAgent id⟩ ∈ (ofScenario engine scenario).failedSpawns ↔
      ∃ before unnumbered between numbered after,
        scenario.agents = before ++ unnumbered :: (between ++ numbered :: after) ∧
          unnumbered.id = none ∧
          ((ofScenario engine { scenario with agents := before }).spawn unnumbered).1 = .ok id ∧
          numbered.id = some id ∧ numbered.template = template) ∧
    (scenario.agents.Pairwise (fun a b => a.id = none → b.id = none) →
      ∀ failed ∈ (ofScenario engine scenario).failedSpawns, failed.cause.taken? = none) := by
  have hdistinct := (Scenario.repeatedId?_eq_none_iff scenario).mp h
  have hiff : ∀ template id,
      ⟨template, .duplicateAgent id⟩ ∈ (ofScenario engine scenario).failedSpawns ↔
        ∃ before unnumbered between numbered after,
          scenario.agents = before ++ unnumbered :: (between ++ numbered :: after) ∧
            unnumbered.id = none ∧
            ((ofScenario engine { scenario with agents := before }).spawn unnumbered).1 = .ok id ∧
            numbered.id = some id ∧ numbered.template = template := by
    intro template id
    rw [duplicateAgent_mem_iff_contains]
    constructor
    · rintro ⟨earlier, numbered, after, hagents, htemplate, hnumbered, hthere⟩
      obtain ⟨before, unnumbered, between, rfl, hnone, hspawned⟩ :=
        (exists_unnumbered_iff hdistinct hagents hnumbered).mp hthere
      refine ⟨before, unnumbered, between, numbered, after, ?_, hnone, hspawned, hnumbered, htemplate⟩
      rw [hagents, List.append_assoc, List.cons_append]
    · rintro ⟨before, unnumbered, between, numbered, after, hsplit, hnone, hspawned, hnumbered, htemplate⟩
      have hagents : scenario.agents = (before ++ unnumbered :: between) ++ numbered :: after := by
        rw [hsplit, List.append_assoc, List.cons_append]
      have hthere := (exists_unnumbered_iff hdistinct hagents hnumbered).mpr
        ⟨before, unnumbered, between, rfl, hnone, hspawned⟩
      exact ⟨_, numbered, after, hagents, htemplate, hnumbered, hthere⟩
  refine ⟨hiff, fun hordered failed hfailed => ?_⟩
  obtain ⟨template, cause⟩ := failed
  cases cause with
  | duplicateAgent id =>
    obtain ⟨before, unnumbered, between, numbered, after, hagents, hnone, _, hnumbered, _⟩ :=
      (hiff template id).mp hfailed
    rw [hagents] at hordered
    rw [rel_of_pairwise_split hordered hnone] at hnumbered
    cases hnumbered
  | unknownTemplate _ | disabledTemplate _ | unknownAgent _ | content _ => rfl

/-- An agent with a number of its own is listed before one that has none. Neither is refused for its number,
and the one that has none gets the next. -/
theorem duplicateAgent_mem_iff_wolves :
    let wolf : Template :=
      { name := "wolf", species := "wolf", enabled := true, maxHealth := 20.0
        defaultActivity := .core, overrides := .empty, declarations := [], herd := {}
        activities := [⟨.core, [⟨0, .leaf .doNothing⟩]⟩] }
    let engine : Engine := { templates := { templates := .ofList [("wolf", wolf)] } }
    let numbered : Spawn := { id := some ⟨1⟩, template := "wolf", position := ⟨0, 0, 0⟩ }
    let unnumbered : Spawn := { template := "wolf", position := ⟨0, 0, 0⟩ }
    let stranger : Spawn := { id := some ⟨3⟩, template := "bear", position := ⟨0, 0, 0⟩ }
    let scenario : Scenario := { agents := [stranger, numbered, unnumbered] }
    let s := ofScenario engine scenario
    scenario.repeatedId? = none ∧
      scenario.agents.Pairwise (fun a b => a.id = none → b.id = none) ∧
      s.brains.keys = [⟨1⟩, ⟨2⟩] ∧ s.failedSpawns.map FailedSpawn.template = ["bear"] ∧
      ∀ failed ∈ s.failedSpawns, failed.cause.taken? = none := by
  intro wolf engine numbered unnumbered stranger scenario s
  have hdistinct : scenario.repeatedId? = none := by decide
  have hordered : scenario.agents.Pairwise (fun a b => a.id = none → b.id = none) := by decide
  obtain ⟨_, hrefusals⟩ := @duplicateAgent_mem_iff engine scenario hdistinct
  exact ⟨hdistinct, hordered, by decide +kernel, by decide +kernel, hrefusals hordered⟩

/-- The agents have different numbers of their own, as only one of them has a number. It comes second, is
refused, and is told that its number is taken. -/
theorem refused_wolf :
    let wolf : Template :=
      { name := "wolf", species := "wolf", enabled := true, maxHealth := 20.0
        defaultActivity := .core, overrides := .empty, declarations := [], herd := {}
        activities := [⟨.core, [⟨0, .leaf .doNothing⟩]⟩] }
    let engine : Engine := { templates := { templates := .ofList [("wolf", wolf)] } }
    let scenario : Scenario :=
      { agents := [{ template := "wolf", position := ⟨0, 0, 0⟩ },
          { id := some ⟨1⟩, template := "wolf", position := ⟨1, 0, 0⟩ }] }
    let s := ofScenario engine scenario
    scenario.repeatedId? = none ∧ s.brains.keys = [⟨1⟩] ∧
      s.failedSpawns.map (fun failed => (failed.template, failed.cause.taken?)) =
        [("wolf", some ⟨1⟩)] := by
  intro wolf engine scenario s
  exact ⟨by decide, by decide +kernel, by decide +kernel⟩

end Simulation

end Menagerie
