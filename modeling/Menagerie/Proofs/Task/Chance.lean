import Menagerie.Proofs.Task.Compilation

/-!
# Chance while compiling

Compiling draws from the generator and does nothing else to it, also where it fails: some number of
draws leads to the generator that is left (`Compile.OnlyDraws`). Where no task is random it does not draw
either, and comes to the same with any generator (`Compile.LeavesChance`). Both are kept as steps are put
together; random groups tell them apart.
-/

namespace Menagerie

namespace Random

/-- The generator after so many draws. -/
def after (r : Random) : Nat → Random
  | 0 => r
  | n + 1 => r.next.2.after n

/-- Whether draws lead from one generator to another. -/
def Precedes (r r' : Random) : Prop := ∃ n, r' = r.after n

theorem Precedes.refl (r : Random) : r.Precedes r := ⟨0, rfl⟩

theorem after_add (r : Random) (m n : Nat) : r.after (m + n) = (r.after m).after n := by
  induction m generalizing r with
  | zero => rw [Nat.zero_add, after]
  | succ m ih => rw [Nat.succ_add, after, after, ih]

theorem Precedes.trans {r r' r'' : Random} (h : r.Precedes r') (h' : r'.Precedes r'') :
    r.Precedes r'' := by
  obtain ⟨m, rfl⟩ := h
  obtain ⟨n, rfl⟩ := h'
  exact ⟨m + n, (after_add r m n).symm⟩

end Random

/-! ## Draws -/

namespace Compile

variable {α : Type}

/-- Whether a step does no more to the generator than draw from it. -/
def OnlyDraws (step : Compile α) : Prop :=
  ∀ env s, Meets step env s (fun _ s' => s.random.Precedes s'.random)
    (fun _ s' => s.random.Precedes s'.random)

theorem OnlyDraws.composes : Composes (fun _ => True) fun _ => OnlyDraws where
  vacuous := trivial
  judges _ h env s := by
    refine (h.meets env s).imp ?_ ?_
    · rintro _ s' rfl
      exact .refl s'.random
    · rintro _ s' ⟨rfl, _⟩
      exact .refl s'.random
  single _ _ s := meets_single.mpr (.refl s.random)
  bind h hf env s := by
    rw [meets_bind]
    refine (h env s).imp (fun a s' hs' => ?_) fun _ _ hs' => hs'
    exact (hf a env s').imp (fun _ _ hs'' => hs'.trans hs'') fun _ _ hs'' => hs'.trans hs''
  within h _ env s := by
    rw [Compile.within, meets_withReader]
    exact h _ s

theorem draws_compile (t : TaskSpec) : OnlyDraws t.compile := by
  have hp := OnlyDraws.composes
  refine hp.compile (fun _ _ _ _ => trivial) (fun condition choices _ each => ?_)
    (TaskSpec.every_of_forall (fun _ => trivial) t)
  refine hp.random trivial (fun env s => ?_) (fun _ _ _ _ s => .refl s.random) each
  simp only [draw, meets_bind, meets_get, meets_set, meets_pure]
  exact ⟨1, rfl⟩

/-! ## Without draws -/

/-- Whether a step neither asks the generator nor changes it. -/
def LeavesChance (step : Compile α) : Prop :=
  ∀ env s random, step.runOn env { s with random } =
    ((step.runOn env s).1, { (step.runOn env s).2 with random })

theorem LeavesChance.composes : Composes (fun _ => True) fun _ => LeavesChance where
  vacuous := trivial
  judges _ h env s random := by
    obtain ⟨outcome, hrun, _⟩ := h env
    rw [hrun, hrun]
  single l env s random := by
    rw [runOn_single, runOn_single]
    rfl
  bind {_ _ step _} h hf env s random := by
    rw [runOn_bind, runOn_bind, h env s random]
    obtain ⟨outcome, s', hrun⟩ : ∃ outcome s', step.runOn env s = (outcome, s') := ⟨_, _, rfl⟩
    rw [hrun]
    cases outcome with
    | ok a => exact hf a env s' random
    | error e => rfl
  within h place env s random := h { env with place } s random

end Compile

namespace Engine

open Compile

/-- Compiling a brain draws from the generator, be it compiled or not. -/
theorem precedes_instantiate (e : Engine) (t : Template) (spawn : Spawn) (agent : AgentView)
    (clock : Clock) (random : Random) :
    random.Precedes (e.instantiate t spawn agent clock random).2 := by
  unfold instantiate
  split
  · exact .refl random
  · next table _ =>
    have h : OnlyDraws (compileTasks t.tasks) :=
      OnlyDraws.composes.compileAll fun placed _ => draws_compile placed.task
    have h := h ⟨t.place, agent, table, e.chainLimit, clock⟩ { random }
    unfold Meets at h
    dsimp only [Compile.runOn]
    split at h
    · next hrun =>
      rw [hrun]
      exact h
    · next hrun =>
      rw [hrun]
      exact h

/-- Where no task is random, a brain is compiled alike with any generator, which stays as it is. -/
theorem instantiate_of_not_random {t : Template}
    (h : ∀ placed ∈ t.tasks, placed.task.Every fun task => task.kind ≠ .random) (e : Engine)
    (spawn : Spawn) (agent : AgentView) (clock : Clock) (random random' : Random) :
    e.instantiate t spawn agent clock random = ((e.instantiate t spawn agent clock random').1, random) := by
  unfold instantiate
  split
  · rfl
  · next table _ =>
    have hp := LeavesChance.composes
    have hleaves : LeavesChance (compileTasks t.tasks) :=
      hp.compileAll fun placed hplaced =>
        hp.compile (fun _ _ _ _ => trivial) (fun _ _ hkind _ => absurd rfl hkind) (h placed hplaced)
    have hrun := hleaves ⟨t.place, agent, table, e.chainLimit, clock⟩ { random := random' } random
    dsimp only at hrun ⊢
    rw [hrun]
    obtain ⟨outcome, s, hcompiled⟩ : ∃ outcome s, (compileTasks t.tasks).runOn
      ⟨t.place, agent, table, e.chainLimit, clock⟩ { random := random' } = (outcome, s) := ⟨_, _, rfl⟩
    rw [hcompiled]
    cases outcome with
    | ok tasks => rfl
    | error cause => rfl

end Engine

end Menagerie
