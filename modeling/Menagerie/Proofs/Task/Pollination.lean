import Menagerie.Proofs.Agent.Ability
import Menagerie.Proofs.World.Mirrors

/-!
# Completing a pollination

An agent completes a pollination in a run of a leaf at the end of a stay at a flower that has been long
enough (`LeafRun.Pollinates`). It remembers that it has nectar after the run
(`Pollinates.recorded_after`), and did not before (`Pollinates.recorded_before`).
-/

namespace Menagerie

open Act

namespace Task

variable {env : ActEnv} {s : Stage}

/-- At the end of a stay it is recorded that the agent has nectar. -/
theorem meets_attendFlower_finished {flower : Position} {arrived : Bool} {cooldown : UInt64}
    (able : s.world.Able env.agent [.hasNectar, .pollinateCooldown]) :
    Meets (attendFlower flower arrived cooldown .finished) env s
      (fun _ s' => ∃ b, s'.world.body? env.agent = some b ∧ Trait.nectar.Recorded b.memory true)
      fun _ s' => ∃ b, s'.world.body? env.agent = some b ∧ Trait.nectar.Recorded b.memory true := by
  have hgather : ∀ s : Stage, s.world.Able env.agent [.hasNectar, .pollinateCooldown] →
      Meets (do
        remember .hasNectar .flag
        rememberFor .pollinateCooldown .flag cooldown
        issue (.setAspect nectarAspect true)
        return true) env s
      (fun _ s' => ∃ b, s'.world.body? env.agent = some b ∧ Trait.nectar.Recorded b.memory true)
      fun _ s' => ∃ b, s'.world.body? env.agent = some b ∧ Trait.nectar.Recorded b.memory true := by
    intro s able
    obtain ⟨hsound, expiresAt, hmeets⟩ := meets_gather able
    refine (hmeets _ _).mpr ?_
    obtain ⟨b, hb, hrecorded⟩ := Deed.recorded_acquire hsound
    have hpause : (Deed.store .pollinateCooldown .flag expiresAt).Sound env.agent
        (Deed.apply env.agent s.world (.acquire .nectar)) := .store rfl (by decide)
    obtain ⟨b', hb', hretains⟩ := (Deed.each_retains_apply hpause).exists_of_left hb
    exact ⟨b', hb', hretains hrecorded⟩
  cases arrived with
  | true =>
    refine meets_bind.mpr (meets_issue.mpr (hgather _ (able.of_kept ?_)))
    exact (Deed.quiet_issue env.agent s.world _).kept
  | false => exact hgather s able

end Task

namespace LeafRun

variable {r : LeafRun} {id : AgentId}

/-- What a run comes to at the flower that its agent remembers, if it is a run at a flower. -/
def visit? (r : LeafRun) : Option FlowerStay.Visit :=
  match r.leaf with
  | .pollinateFlower required _ stay =>
    match (Task.lookAtFlower.runOn r.env r.stage).1 with
    | .ok (flower, near) => some (stay.visit required near flower).2.2
    | .error _ => none
  | _ => none

/-- Whether an agent completes a pollination in a run: the requirements of the leaf hold, and the agent
has stayed long enough at the flower. -/
def Pollinates (r : LeafRun) (id : AgentId) : Prop :=
  r.env.agent = id ∧
    ((r.stage.world.memory? id).any fun memory => memory.satisfiesAll r.leaf.needs.requirements) ∧
    r.visit? = some .finished

instance (r : LeafRun) (id : AgentId) : Decidable (r.Pollinates id) :=
  inferInstanceAs (Decidable (_ ∧ _ ∧ _))

/-- A run in which a pollination is completed is one of a leaf for that. -/
theorem exists_of_visit? {visit : FlowerStay.Visit} (h : r.visit? = some visit) :
    ∃ required cooldown stay flower near, r.leaf = .pollinateFlower required cooldown stay ∧
      (Task.lookAtFlower.runOn r.env r.stage).1 = .ok (flower, near) ∧
      (stay.visit required near flower).2.2 = visit := by
  unfold visit? at h
  split at h
  · next required cooldown stay hleaf =>
    split at h
    · next flower near hlook =>
      cases h
      exact ⟨required, cooldown, stay, flower, near, hleaf, hlook, rfl⟩
    · cases h
  · cases h

/-- Nothing was recorded of nectar before a pollination is completed. -/
theorem Pollinates.recorded_before (h : r.Pollinates id) {b : Body}
    (hb : r.stage.world.body? id = some b) : Trait.nectar.Recorded b.memory false := by
  obtain ⟨rfl, hsatisfied, hvisit⟩ := h
  obtain ⟨required, cooldown, stay, _, _, hleaf, _, _⟩ := exists_of_visit? hvisit
  unfold World.memory? at hsatisfied
  rw [hb, hleaf] at hsatisfied
  have hempty : (b.memory.state .hasNectar).isEmpty :=
    List.all_eq_true.mp hsatisfied (.empty .hasNectar) (.tail _ (.head _))
  show b.memory.get? .hasNectar = none
  unfold Blackboard.get?
  cases hstate : b.memory.state .hasNectar with
  | absent | registered => rfl
  | present =>
    rw [hstate] at hempty
    cases hempty

/-- Once an agent has completed a pollination, it is recorded that it has nectar. -/
theorem Pollinates.recorded_after (h : r.Pollinates id) (able : r.Able) :
    ∃ b, r.after.world.body? id = some b ∧ Trait.nectar.Recorded b.memory true := by
  obtain ⟨rfl, hsatisfied, hvisit⟩ := h
  obtain ⟨required, cooldown, stay, flower, near, hleaf, hlook, hfinished⟩ := exists_of_visit? hvisit
  unfold LeafRun.Able at able
  unfold after
  rw [Leaf.run_eq, if_pos hsatisfied]
  rw [hleaf] at able ⊢
  have hworld := Task.reads_lookAtFlower.runOn r.env r.stage
  obtain ⟨looked, s', hrun⟩ : ∃ looked s', Task.lookAtFlower.runOn r.env r.stage = (looked, s') :=
    ⟨_, _, rfl⟩
  rw [hrun] at hlook hworld
  cases hlook
  unfold Leaf.turn Task.pollinateFlower
  rw [hrun]
  dsimp only
  generalize stay.visit required near flower = ended at hfinished ⊢
  obtain ⟨stay', arrived, visit⟩ := ended
  cases hfinished
  refine of_meets (Task.meets_attendFlower_finished ?_)
  rw [show s'.world = r.stage.world from hworld]
  exact able

end LeafRun

end Menagerie
