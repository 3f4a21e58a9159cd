import Menagerie.Proofs.Simulation.Coherence

/-!
# Requests to a simulation

Four things can be asked of a simulation (`Request`), and each is done or refused (`attempt`). The
states that a run reaches are those after any requests, whether they were refused or not
(`reachable_iff`). What is refused leaves everything as it is, except that a spawn may have drawn from
the generator (`attempt_eq_error`).
-/

namespace Menagerie.Simulation

variable {engine : Engine} {scenario : Scenario} {s s' : Simulation}

/-- What can be asked of a simulation. -/
inductive Request where
  | spawn (spawn : Spawn)
  | despawn (id : AgentId)
  | hit (attacker victim : AgentId) (damage : Float)
  | step

/-- Whether a request was refused, and the simulation after it. -/
def attempt (s : Simulation) : Request → Except SimulationError Unit × Simulation
  | .spawn spawn => ((s.spawn spawn).1.map fun _ => (), (s.spawn spawn).2)
  | .despawn id => ofOutcome (s.despawn id)
  | .hit attacker victim damage => ofOutcome (s.hit attacker victim damage)
  | .step => (.ok (), s.step)
where
  ofOutcome : Except SimulationError Simulation → Except SimulationError Unit × Simulation
    | .ok s' => (.ok (), s')
    | .error cause => (.error cause, s)

/-- The simulation after requests. -/
def attempts (s : Simulation) (requests : List Request) : Simulation :=
  requests.foldl (fun s request => (s.attempt request).2) s

/-- What holds before something is done or refused holds after it, if it does where it is done. -/
theorem attempt_of_outcome {p : Simulation → Prop} {outcome : Except SimulationError Simulation}
    (hs : p s) (hdone : ∀ s', outcome = .ok s' → p s') : p (attempt.ofOutcome s outcome).2 := by
  cases outcome with
  | ok s' => exact hdone s' rfl
  | error cause => exact hs

/-- What is refused changes nothing, but for the draws of a spawn. -/
theorem attempt_eq_error {request : Request} {cause : SimulationError}
    (h : s.attempt request = (.error cause, s')) :
    (∃ random, s' = { s with random } ∧ s.random.Precedes random) ∧
      ((∀ spawn, request ≠ .spawn spawn) → s' = s) := by
  have hrefused : ∀ outcome, attempt.ofOutcome s outcome = (.error cause, s') → s' = s := by
    intro outcome h
    cases outcome with
    | ok _ => cases h
    | error _ =>
      cases h
      rfl
  have hsame : s' = s → ∃ random, s' = { s with random } ∧ s.random.Precedes random :=
    fun heq => ⟨s.random, heq, .refl _⟩
  cases request with
  | spawn spawn =>
    refine ⟨?_, fun hnone => absurd rfl (hnone spawn)⟩
    obtain ⟨_, random, heq, hdrawn⟩ | ⟨id, t, brain, random, _, _, heq⟩ := s.spawn_cases spawn
    · rw [attempt, heq] at h
      cases h
      exact ⟨random, rfl, hdrawn⟩
    · rw [attempt, heq] at h
      cases h
  | despawn id => exact ⟨hsame (hrefused _ h), fun _ => hrefused _ h⟩
  | hit attacker victim damage => exact ⟨hsame (hrefused _ h), fun _ => hrefused _ h⟩
  | step => cases h

/-! ## Runs -/

theorem Reachable.attempt (h : Reachable engine scenario s) (request : Request) :
    Reachable engine scenario (s.attempt request).2 := by
  cases request with
  | spawn spawn => exact h.spawn spawn
  | despawn id => exact attempt_of_outcome h fun _ hs' => h.despawn hs'
  | hit attacker victim damage => exact attempt_of_outcome h fun _ hs' => h.hit hs'
  | step => exact h.step

theorem Reachable.attempts (h : Reachable engine scenario s) (requests : List Request) :
    Reachable engine scenario (s.attempts requests) := by
  induction requests generalizing s with
  | nil => exact h
  | cons request rest ih => exact ih (h.attempt request)

theorem attempts_concat (s : Simulation) (requests : List Request) (request : Request) :
    s.attempts (requests ++ [request]) = ((s.attempts requests).attempt request).2 :=
  List.foldl_concat ..

/-- A run reaches what requests lead to. -/
theorem reachable_iff :
    Reachable engine scenario s ↔ ∃ requests, s = (ofScenario engine scenario).attempts requests := by
  refine ⟨fun h => ?_, ?_⟩
  · induction h with
    | start => exact ⟨[], rfl⟩
    | spawn spawn _ ih =>
      obtain ⟨requests, rfl⟩ := ih
      refine ⟨requests ++ [.spawn spawn], ?_⟩
      rw [attempts_concat]
      rfl
    | @despawn _ _ id _ hs' ih =>
      obtain ⟨requests, rfl⟩ := ih
      refine ⟨requests ++ [.despawn id], ?_⟩
      rw [attempts_concat, Simulation.attempt, hs']
      rfl
    | @hit _ _ attacker victim damage _ hs' ih =>
      obtain ⟨requests, rfl⟩ := ih
      refine ⟨requests ++ [.hit attacker victim damage], ?_⟩
      rw [attempts_concat, Simulation.attempt, hs']
      rfl
    | step _ ih =>
      obtain ⟨requests, rfl⟩ := ih
      refine ⟨requests ++ [.step], ?_⟩
      rw [attempts_concat]
      rfl
  · rintro ⟨requests, rfl⟩
    exact Reachable.start.attempts requests

end Menagerie.Simulation
