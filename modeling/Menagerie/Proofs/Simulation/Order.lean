import Menagerie.Proofs.SortedMap
import Menagerie.Proofs.Simulation.Requests
import Menagerie.Simulation.Report

/-!
# The order of spawns

Spawns are independent of each other (`Independent`) where each has a number of its own and no template that
is used has a random task. What comes of such a spawn is settled by its number and what it asks for
(`Simulation.verdict`), and agents are let in under different numbers, so that two spawns can change places.
A scenario may then list its agents in any order: the start is the same but for the order in which failed
spawns are listed (`Simulation.Alike`), and nothing that happens later looks at these
(`Simulation.ofScenario_perm`).
-/

namespace Menagerie

/-- Spawns that have nothing to do with each other. -/
structure Independent (engine : Engine) (spawns : List Spawn) : Prop where
  numbered : ∀ spawn ∈ spawns, spawn.id ≠ none
  distinct : spawns.Pairwise fun a b => a.id ≠ b.id
  /-- No template that is used has a random task. -/
  settled : ∀ spawn ∈ spawns, ∀ t, engine.template spawn.template = .ok t →
    ∀ placed ∈ t.tasks, placed.task.Every fun task => task.kind ≠ .random

namespace Independent

variable {engine : Engine} {a : Spawn} {spawns spawns' : List Spawn}

theorem tail (h : Independent engine (a :: spawns)) : Independent engine spawns :=
  ⟨fun spawn hspawn => h.numbered spawn (.tail _ hspawn), h.distinct.tail,
    fun spawn hspawn => h.settled spawn (.tail _ hspawn)⟩

theorem perm (h : Independent engine spawns) (hperm : spawns.Perm spawns') : Independent engine spawns' :=
  ⟨fun spawn hspawn => h.numbered spawn (hperm.mem_iff.mpr hspawn),
    hperm.pairwise h.distinct Ne.symm,
    fun spawn hspawn => h.settled spawn (hperm.mem_iff.mpr hspawn)⟩

end Independent

namespace Simulation

variable {s s' s'' : Simulation} {spawn spawn' : Spawn} {id id' : AgentId}

/-! ## Simulations apart from their failed spawns -/

/-- The same simulation, but for the spawns that are listed as failed. -/
def withFailed (s : Simulation) (failedSpawns : List FailedSpawn) : Simulation := { s with failedSpawns }

theorem spawn_withFailed (s : Simulation) (failedSpawns : List FailedSpawn) (spawn : Spawn) :
    (s.withFailed failedSpawns).spawn spawn =
      ((s.spawn spawn).1, (s.spawn spawn).2.withFailed failedSpawns) := by
  have hid : (s.withFailed failedSpawns).idFor spawn = s.idFor spawn := rfl
  unfold Simulation.spawn
  rw [hid]
  unfold withFailed
  cases s.idFor spawn with
  | error cause => rfl
  | ok id =>
    dsimp only
    cases s.engine.template spawn.template with
    | error cause => rfl
    | ok t =>
      dsimp only
      split
      · rfl
      · rfl

theorem attempt_withFailed (s : Simulation) (failedSpawns : List FailedSpawn) (request : Request) :
    (s.withFailed failedSpawns).attempt request =
      ((s.attempt request).1, (s.attempt request).2.withFailed failedSpawns) := by
  cases request with
  | spawn spawn =>
    unfold attempt
    dsimp only
    rw [spawn_withFailed]
  | despawn id =>
    unfold attempt despawn withFailed
    dsimp only
    split
    · rfl
    · rfl
  | hit attacker victim damage =>
    unfold attempt hit withFailed
    dsimp only
    split
    · rfl
    · rfl
  | step => rfl

/-- Nothing that is asked of a simulation depends on the spawns that failed before. -/
theorem attempts_withFailed (s : Simulation) (failedSpawns : List FailedSpawn) (requests : List Request) :
    (s.withFailed failedSpawns).attempts requests = (s.attempts requests).withFailed failedSpawns := by
  unfold attempts
  induction requests generalizing s with
  | nil => rfl
  | cons request rest ih =>
    rw [List.foldl_cons, List.foldl_cons, attempt_withFailed]
    exact ih _

/-- What is noted of a spawn. -/
def noted (s : Simulation) (spawn : Spawn) : List FailedSpawn :=
  match (s.spawn spawn).1 with
  | .ok _ => []
  | .error cause => [⟨spawn.template, cause⟩]

theorem spawnOrNote_withFailed (s : Simulation) (failedSpawns : List FailedSpawn) (spawn : Spawn) :
    (s.withFailed failedSpawns).spawnOrNote spawn =
      (s.spawnOrNote spawn).withFailed (failedSpawns ++ s.noted spawn) := by
  unfold spawnOrNote noted
  rw [spawn_withFailed]
  obtain ⟨outcome, s', hrun⟩ : ∃ outcome s', s.spawn spawn = (outcome, s') := ⟨_, _, rfl⟩
  rw [hrun]
  cases outcome with
  | ok id =>
    dsimp only
    rw [List.append_nil]
  | error cause => rfl

/-- The same, but for the order in which failed spawns are listed. -/
def Alike (s s' : Simulation) : Prop :=
  ∃ failedSpawns, s' = s.withFailed failedSpawns ∧ failedSpawns.Perm s.failedSpawns

namespace Alike

theorem refl (s : Simulation) : Alike s s := ⟨s.failedSpawns, rfl, .refl _⟩

theorem trans (h : Alike s s') (h' : Alike s' s'') : Alike s s'' := by
  obtain ⟨failedSpawns, rfl, hperm⟩ := h
  obtain ⟨failedSpawns', rfl, hperm'⟩ := h'
  exact ⟨failedSpawns', rfl, hperm'.trans hperm⟩

theorem spawnOrNote (h : Alike s s') (spawn : Spawn) :
    Alike (s.spawnOrNote spawn) (s'.spawnOrNote spawn) := by
  obtain ⟨failedSpawns, rfl, hperm⟩ := h
  refine ⟨failedSpawns ++ s.noted spawn, spawnOrNote_withFailed s failedSpawns spawn, ?_⟩
  have hnoted := congrArg Simulation.failedSpawns (spawnOrNote_withFailed s s.failedSpawns spawn)
  exact (hperm.append_right _).trans (.of_eq hnoted.symm)

theorem foldl_spawnOrNote (h : Alike s s') (spawns : List Spawn) :
    Alike (spawns.foldl Simulation.spawnOrNote s) (spawns.foldl Simulation.spawnOrNote s') := by
  induction spawns generalizing s s' with
  | nil => exact h
  | cons spawn rest ih => exact ih (h.spawnOrNote spawn)

end Alike

/-! ## What comes of a spawn -/

/-- What comes of a spawn under a number of its own: an agent with its brain, or a refusal. -/
def verdict (s : Simulation) (spawn : Spawn) (id : AgentId) : Except SimulationError (Body × Brain) :=
  if s.world.contains id then .error (.duplicateAgent id)
  else
    match s.engine.template spawn.template with
    | .error cause => .error cause
    | .ok t =>
      let agent := Engine.newborn t spawn id
      match (s.engine.instantiate t spawn agent s.world.clock s.random).1 with
      | .error cause => .error (.content cause)
      | .ok brain => .ok (bodyOf t agent brain s.world.now, brain)

/-- Lets an agent in, or notes the refusal of a template. -/
def letIn (s : Simulation) (template : String) (id : AgentId) :
    Except SimulationError (Body × Brain) → Simulation
  | .ok (body, brain) => { s with world := s.world.insertBody body, brains := s.brains.insert id brain }
  | .error cause => { s with failedSpawns := s.failedSpawns ++ [⟨template, cause⟩] }

/-- Where nothing is random, a spawn does no more than its verdict says. -/
theorem spawnOrNote_eq_letIn (hid : spawn.id = some id)
    (hsettled : ∀ t, s.engine.template spawn.template = .ok t →
      ∀ placed ∈ t.tasks, placed.task.Every fun task => task.kind ≠ .random) :
    s.spawnOrNote spawn = s.letIn spawn.template id (s.verdict spawn id) := by
  unfold spawnOrNote Simulation.spawn idFor verdict
  rw [hid]
  dsimp only
  by_cases hcontains : s.world.contains id
  · rw [if_pos hcontains, if_pos hcontains]
    rfl
  · rw [if_neg hcontains, if_neg hcontains]
    cases ht : s.engine.template spawn.template with
    | error cause => rfl
    | ok t =>
      dsimp only
      rw [Engine.instantiate_of_not_random (hsettled t ht) s.engine spawn _ _ s.random s.random]
      cases (s.engine.instantiate t spawn (Engine.newborn t spawn id) s.world.clock s.random).1 with
      | error cause => rfl
      | ok brain => rfl

theorem id_of_verdict {body : Body} {brain : Brain} (h : s.verdict spawn id = .ok (body, brain)) :
    body.view.id = id := by
  unfold verdict at h
  split at h
  · cases h
  · split at h
    · cases h
    · dsimp only at h
      split at h
      · cases h
      · cases h
        rfl

theorem engine_letIn (template : String) (id : AgentId) (outcome : Except SimulationError (Body × Brain)) :
    (s.letIn template id outcome).engine = s.engine := by
  cases outcome with
  | ok _ => rfl
  | error cause => rfl

/-- The verdict on a spawn stays the same as another is let in, or refused. -/
theorem verdict_letIn (hne : id ≠ id') (template : String) :
    (s.letIn template id (s.verdict spawn id)).verdict spawn' id' = s.verdict spawn' id' := by
  cases hverdict : s.verdict spawn id with
  | error cause => rfl
  | ok agent =>
    obtain ⟨body, brain⟩ := agent
    have hcontains : (s.world.insertBody body).contains id' = s.world.contains id' := by
      have hid := id_of_verdict hverdict
      unfold World.contains World.insertBody SortedMap.contains
      dsimp only
      rw [hid, SortedMap.get?_insert, if_neg hne.symm]
    unfold verdict letIn
    dsimp only
    rw [hcontains]
    rfl

/-- Agents with different numbers are let in, or refused, in either order. -/
theorem letIn_comm (hne : id ≠ id') (template template' : String) :
    Alike ((s.letIn template id (s.verdict spawn id)).letIn template' id' (s.verdict spawn' id'))
      ((s.letIn template' id' (s.verdict spawn' id')).letIn template id (s.verdict spawn id)) := by
  cases hverdict : s.verdict spawn id with
  | error cause =>
    cases s.verdict spawn' id' with
    | error cause' =>
      refine ⟨s.failedSpawns ++ [⟨template', cause'⟩] ++ [⟨template, cause⟩], rfl, ?_⟩
      show (_ : List FailedSpawn).Perm (s.failedSpawns ++ [⟨template, cause⟩] ++ [⟨template', cause'⟩])
      rw [List.append_assoc, List.append_assoc]
      exact (List.Perm.swap _ _ _).append_left _
    | ok agent' => exact .refl _
  | ok agent =>
    cases hverdict' : s.verdict spawn' id' with
    | error cause' => exact .refl _
    | ok agent' =>
      obtain ⟨body, brain⟩ := agent
      obtain ⟨body', brain'⟩ := agent'
      have hid := id_of_verdict hverdict
      have hid' := id_of_verdict hverdict'
      have hbodies : (s.world.bodies.insert body.view.id body).insert body'.view.id body' =
          (s.world.bodies.insert body'.view.id body').insert body.view.id body :=
        SortedMap.insert_comm (by rw [hid, hid']; exact hne) _ _ _
      have hbrains : (s.brains.insert id brain).insert id' brain' =
          (s.brains.insert id' brain').insert id brain := SortedMap.insert_comm hne _ _ _
      have hsame : (s.letIn template id (.ok (body, brain))).letIn template' id' (.ok (body', brain')) =
          (s.letIn template' id' (.ok (body', brain'))).letIn template id (.ok (body, brain)) := by
        unfold letIn World.insertBody
        dsimp only
        rw [hbodies, hbrains]
      rw [hsame]
      exact .refl _

/-! ## Spawns in any order -/

theorem engine_spawnOrNote (s : Simulation) (spawn : Spawn) : (s.spawnOrNote spawn).engine = s.engine := by
  obtain ⟨failedSpawns, heq⟩ := s.spawnOrNote_eq spawn
  rw [heq]
  exact s.engine_spawn spawn

/-- Two spawns that are independent change places. -/
theorem spawnOrNote_comm {a b : Spawn} {rest : List Spawn} (h : Independent s.engine (a :: b :: rest)) :
    Alike ((s.spawnOrNote a).spawnOrNote b) ((s.spawnOrNote b).spawnOrNote a) := by
  obtain ⟨id, hid⟩ := Option.ne_none_iff_exists'.mp (h.numbered a (.head _))
  obtain ⟨id', hid'⟩ := Option.ne_none_iff_exists'.mp (h.numbered b (.tail _ (.head _)))
  have hne : id ≠ id' := by
    intro heq
    refine List.rel_of_pairwise_cons h.distinct (.head _) ?_
    rw [hid, hid', heq]
  have ha := h.settled a (.head _)
  have hb := h.settled b (.tail _ (.head _))
  rw [spawnOrNote_eq_letIn hid ha, spawnOrNote_eq_letIn hid' hb,
    spawnOrNote_eq_letIn hid' (by rwa [engine_letIn]), spawnOrNote_eq_letIn hid (by rwa [engine_letIn]),
    verdict_letIn hne, verdict_letIn hne.symm]
  exact letIn_comm hne _ _

/-- Independent spawns can be done in any order. -/
theorem alike_of_perm {spawns spawns' : List Spawn} (hperm : spawns.Perm spawns') {engine : Engine}
    (h : Independent engine spawns) (hengine : s.engine = engine) :
    Alike (spawns.foldl spawnOrNote s) (spawns'.foldl spawnOrNote s) := by
  induction hperm generalizing s with
  | nil => exact .refl s
  | cons spawn _ ih => exact ih h.tail ((engine_spawnOrNote s spawn).trans hengine)
  | swap a b rest =>
    subst hengine
    exact (spawnOrNote_comm h).foldl_spawnOrNote rest
  | trans hfirst _ ih ih' => exact (ih h hengine).trans (ih' (h.perm hfirst) hengine)

/-- A scenario may list agents in any order where their spawns are independent: it starts alike but for the
order in which failed spawns are listed, and whatever is asked of it then, it goes on and is reported so. -/
theorem ofScenario_perm {engine : Engine} {scenario : Scenario} {agents : List Spawn}
    (h : Independent engine scenario.agents) (hperm : scenario.agents.Perm agents) :
    let s := ofScenario engine scenario
    let s' := ofScenario engine { scenario with agents }
    ∃ failedSpawns, failedSpawns.Perm s.failedSpawns ∧ s' = { s with failedSpawns } ∧
      ∀ requests, s'.attempts requests = { s.attempts requests with failedSpawns } ∧
        Report.ofSimulation (s'.attempts requests) =
          { Report.ofSimulation (s.attempts requests) with failedSpawns } ∧
        (Report.ofSimulation (s.attempts requests)).failedSpawns = s.failedSpawns := by
  intro s s'
  obtain ⟨failedSpawns, hsame, hfailed⟩ : Alike s s' := alike_of_perm hperm h rfl
  refine ⟨failedSpawns, hfailed, hsame, fun requests => ?_⟩
  have hattempts : s'.attempts requests = (s.attempts requests).withFailed failedSpawns := by
    rw [hsame]
    exact attempts_withFailed s failedSpawns requests
  have hreport : Report.ofSimulation (s'.attempts requests) =
      { Report.ofSimulation (s.attempts requests) with failedSpawns } := by
    rw [hattempts]
    rfl
  have hkept := congrArg Simulation.failedSpawns (attempts_withFailed s s.failedSpawns requests)
  exact ⟨hattempts, hreport, hkept⟩

/-- Two bees and two spawns of templates that there are not, listed forwards and backwards. -/
theorem ofScenario_perm_bees :
    let t : Template :=
      { name := "bee", species := "bee", enabled := true, maxHealth := 20.0, defaultActivity := .idle
        overrides := .empty, declarations := [], herd := {}
        activities := [⟨.idle, [⟨0, .leaf .doNothing⟩]⟩] }
    let engine : Engine := { templates := { templates := .ofList [("bee", t)] } }
    let spawn := fun number template => ({ id := some ⟨number⟩, template, position := ⟨0, 0, 0⟩ } : Spawn)
    let spawns := [spawn 1 "ant", spawn 2 "bee", spawn 3 "wasp", spawn 4 "bee"]
    let s := ofScenario engine { agents := spawns }
    let s' := ofScenario engine { agents := spawns.reverse }
    Independent engine spawns ∧ spawns.Perm spawns.reverse ∧ s.brains.keys = [⟨2⟩, ⟨4⟩] ∧
      s.failedSpawns.map FailedSpawn.template = ["ant", "wasp"] ∧
      s'.failedSpawns.map FailedSpawn.template = ["wasp", "ant"] ∧
      ∃ failedSpawns, failedSpawns.Perm s.failedSpawns ∧ s' = s.withFailed failedSpawns := by
  intro t engine spawn spawns s s'
  have hindependent : Independent engine spawns := by
    refine ⟨by decide, by decide, ?_⟩
    intro spawn _ t' ht'
    -- There is one template only.
    obtain rfl : t' = t := by
      unfold Engine.template at ht'
      split at ht'
      · next heq =>
        cases ht'
        have hget : (SortedMap.empty.insert "bee" t).get? spawn.template = some t' := heq
        rw [SortedMap.get?_insert] at hget
        split at hget
        · exact (Option.some.inj hget).symm
        · cases hget
      · split at ht'
        · cases ht'
        · cases ht'
    intro placed hplaced
    obtain rfl := List.mem_singleton.mp hplaced
    exact .leaf (by decide)
  have hperm : spawns.Perm spawns.reverse := (List.reverse_perm spawns).symm
  obtain ⟨failedSpawns, hfailed, hsame, _⟩ :=
    @ofScenario_perm engine { agents := spawns } spawns.reverse hindependent hperm
  exact ⟨hindependent, hperm, by decide +kernel, by decide +kernel, by decide +kernel, failedSpawns,
    hfailed, hsame⟩

end Simulation

end Menagerie
