import Menagerie.Proofs.Simulation.Consistency
import Menagerie.Proofs.Simulation.Moments

/-!
# The chronicle of a run

All that can be asked of a simulation, spawns and removals among it, takes it through moments
(`Simulation.chronicle`), and between one of them and the next one of few things happens
(`Moment.Succeeds`). What each of these keeps holds at all moments of a run and in every state that it
reaches, as it holds of a world without agents (`Reachable.of_succeeds`, `Reachable.of_mem_chronicle`).
-/

namespace Menagerie

/-- What may happen between one moment of a run and the next. -/
inductive Moment.Succeeds (engine : Engine) (m : Moment) : Moment → Prop
  | passes {m' : Moment} : m.Passes engine m' → Succeeds engine m m'
  /-- An agent comes that remembers nothing. -/
  | spawns {b : Body} : b.memory.Blank → b.memory.now = m.world.now →
      Succeeds engine m { world := m.world.insertBody b }
  | despawns (id : AgentId) : Succeeds engine m { world := m.world.removeBody id }
  /-- Something is asked for and refused. -/
  | refuses : Succeeds engine m { world := m.world }

theorem Moment.Succeeds.orderly {engine : Engine} {m m' : Moment} (h : m.Succeeds engine m')
    (hm : m.world.Orderly) : m'.world.Orderly := by
  cases h with
  | passes hpasses => exact hpasses.orderly hm
  | spawns _ hclock => exact hm.insertBody hclock
  | despawns id => exact hm.removeBody id
  | refuses => exact hm

namespace Simulation

variable {engine : Engine} {scenario : Scenario} {s s' : Simulation}

/-- The moments that a request takes a simulation through. -/
def momentsOf (s : Simulation) : Request → List Moment
  | .step => s.moments .step
  | request => [{ world := (s.attempt request).2.world }]

/-- The moments that follow while requests are done or refused. -/
def following (s : Simulation) : List Request → List Moment
  | [] => []
  | request :: rest => s.momentsOf request ++ (s.attempt request).2.following rest

/-- All moments of a simulation from one on, whatever is asked of it. -/
def chronicle (s : Simulation) (requests : List Request) : List Moment :=
  { world := s.world } :: s.following requests

/-! ## Requests -/

theorem succeeds_spawn (s : Simulation) (spawn : Spawn) (cause : Option LeafRun) :
    Moment.Succeeds engine ⟨s.world, cause⟩ { world := (s.spawn spawn).2.world } := by
  obtain ⟨_, random, heq, _⟩ | ⟨id, t, brain, random, _, _, heq⟩ := s.spawn_cases spawn
  · rw [heq]
    exact .refuses
  · rw [heq]
    exact .spawns (blank_bodyOf t _ brain _) rfl

theorem engine_attempt (s : Simulation) (request : Request) :
    (s.attempt request).2.engine = s.engine := by
  cases request with
  | spawn spawn => exact s.engine_spawn spawn
  | despawn id =>
    refine attempt_of_outcome (p := fun s' => s'.engine = s.engine) rfl fun s' hs' => ?_
    rw [eq_of_despawn hs']
  | hit attacker victim damage =>
    refine attempt_of_outcome (p := fun s' => s'.engine = s.engine) rfl fun s' hs' => ?_
    rw [eq_of_hit hs']
  | step => rfl

/-- A request leads from one moment to the next. -/
theorem isChain_momentsOf (s : Simulation) (request : Request) {m : Moment} {rest : List Moment}
    (hm : m.world = s.world)
    (hrest : ∀ m' : Moment, m'.world = (s.attempt request).2.world →
      (m' :: rest).IsChain (Moment.Succeeds s.engine)) :
    (m :: (s.momentsOf request ++ rest)).IsChain (Moment.Succeeds s.engine) := by
  obtain ⟨_, cause⟩ := m
  cases hm
  cases request with
  | spawn spawn => exact .cons_cons (s.succeeds_spawn spawn cause) (hrest _ rfl)
  | despawn id =>
    refine .cons_cons ?_ (hrest _ rfl)
    refine attempt_of_outcome (p := fun s' => Moment.Succeeds s.engine _ { world := s'.world }) .refuses
      fun s' hs' => ?_
    rw [eq_of_despawn hs']
    exact .despawns id
  | hit attacker victim damage =>
    refine .cons_cons ?_ (hrest _ rfl)
    refine attempt_of_outcome (p := fun s' => Moment.Succeeds s.engine _ { world := s'.world }) .refuses
      fun s' hs' => ?_
    rw [eq_of_hit hs']
    exact .passes (.goesOn s.world.intents (s.world.steady_damage attacker victim damage))
  | step => exact isChain_moments .passes .step rfl hrest

/-- The moments of a run come one after another. -/
theorem isChain_chronicle (s : Simulation) (requests : List Request) :
    (s.chronicle requests).IsChain (Moment.Succeeds s.engine) := by
  suffices hchain : ∀ m : Moment, m.world = s.world →
      (m :: s.following requests).IsChain (Moment.Succeeds s.engine) from hchain _ rfl
  induction requests generalizing s with
  | nil => exact fun m _ => .singleton m
  | cons request rest ih =>
    intro m hm
    refine s.isChain_momentsOf request hm ?_
    rw [← s.engine_attempt request]
    exact ih (s.attempt request).2

/-! ## Invariants -/

variable {p : World → Prop}

/-- What holds at first, and is kept by all that may happen, holds at every moment. -/
theorem of_mem_chronicle
    (hsucceeds : ∀ m m', Moment.Succeeds s.engine m m' → m.world.Orderly → p m.world → p m'.world)
    (horderly : s.world.Orderly) (hs : p s.world) (requests : List Request) :
    ∀ m ∈ s.chronicle requests, m.world.Orderly ∧ p m.world :=
  (s.isChain_chronicle requests).induction (fun m => m.world.Orderly ∧ p m.world) _
    (fun _ _ h hm => ⟨h.orderly hm.1, hsucceeds _ _ h hm.1 hm.2⟩) fun _ => ⟨horderly, hs⟩

/-- What holds of a world without agents, and is kept by all that may happen, holds in every state that a
run reaches. -/
theorem Reachable.of_succeeds (hempty : p (emptyWorld engine.settings scenario))
    (hsucceeds : ∀ m m', Moment.Succeeds engine m m' → m.world.Orderly → p m.world → p m'.world)
    (h : Reachable engine scenario s) : p s.world := by
  induction h with
  | start =>
    have hstart : ∀ (s : Simulation) (spawn : Spawn), s.world.Orderly ∧ p s.world →
        (s.spawn spawn).2.world.Orderly ∧ p (s.spawn spawn).2.world := fun s spawn hs =>
      have hspawned : Moment.Succeeds engine ⟨s.world, none⟩ _ := s.succeeds_spawn spawn none
      ⟨hspawned.orderly hs.1, hsucceeds _ _ hspawned hs.1 hs.2⟩
    have horderly : World.Orderly (emptyWorld engine.settings scenario) :=
      ⟨fun _ _ hb => (nomatch hb), fun _ _ hb => nomatch hb⟩
    exact (ofScenario_of_spawn (p := fun s => s.world.Orderly ∧ p s.world) engine scenario
      (fun _ _ => ⟨horderly, hempty⟩) hstart fun _ _ hs => hs).2
  | spawn spawn hs ih =>
    exact hsucceeds { world := _ } _ (succeeds_spawn _ spawn none) hs.orderly.world ih
  | despawn hs hs' ih =>
    rw [eq_of_despawn hs']
    exact hsucceeds { world := _ } _ (.despawns _) hs.orderly.world ih
  | @hit s s' attacker victim damage hs hs' ih =>
    rw [eq_of_hit hs']
    exact hsucceeds { world := s.world } _
      (.passes (.goesOn s.world.intents (s.world.steady_damage attacker victim damage))) hs.orderly.world ih
  | @step s hs ih =>
    rw [← hs.paired.engine] at hsucceeds
    have hlast : (⟨s.step.world, none⟩ : Moment) ∈ s.chronicle [.step] := by
      refine List.mem_cons_of_mem _ (List.mem_append_left _ ?_)
      exact List.mem_append_right _ (List.mem_cons_of_mem _ List.mem_cons_self)
    exact (of_mem_chronicle hsucceeds hs.orderly.world ih [.step] _ hlast).2

/-- It holds before and after each run of a leaf, too. -/
theorem Reachable.of_mem_runs (hempty : p (emptyWorld engine.settings scenario))
    (hsucceeds : ∀ m m', Moment.Succeeds engine m m' → m.world.Orderly → p m.world → p m'.world)
    (h : Reachable engine scenario s) : ∀ r ∈ s.runs, p r.stage.world ∧ p r.after.world := by
  have hs := h.of_succeeds hempty hsucceeds
  have hthinking : s.whenThinking.world.Orderly ∧ p s.whenThinking.world := by
    have hsucceeds' := hsucceeds
    rw [← h.paired.engine] at hsucceeds'
    refine of_mem_chronicle hsucceeds' h.orderly.world hs [.step] ⟨s.whenThinking.world, none⟩ ?_
    exact List.mem_cons_of_mem _ (List.mem_cons_of_mem _ (List.mem_cons_of_mem _ List.mem_cons_self))
  have hruns := Leads.forall_mem (p := fun w => w.Orderly ∧ p w) ?_ s.leads_think hthinking
  · exact fun r hr => ⟨(hruns r hr).1.2, (hruns r hr).2.2⟩
  · rintro r _ ⟨horderly, hr⟩
    have hran : Moment.Succeeds engine ⟨r.stage.world, none⟩ ⟨r.after.world, some r⟩ := .passes (.runs rfl)
    exact ⟨hran.orderly horderly, hsucceeds _ _ hran horderly hr⟩

end Simulation

end Menagerie
