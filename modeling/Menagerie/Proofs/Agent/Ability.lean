import Menagerie.Proofs.Agent.Brain
import Menagerie.Proofs.Agent.Runs

/-!
# Leaves that brains run are able

Where an agent is able to act with all memories of its brain, each leaf that a tick of the brain runs is
run where the agent is able to act with those that the leaf needs (`Brain.able_of_mem_runs`). So what a
leaf does under this condition it does whenever a brain runs it (`LeafRun.Able.does`).
-/

namespace Menagerie

/-- Whether the agent of a run is able to act with what the leaf needs. -/
def LeafRun.Able (r : LeafRun) : Prop := r.stage.world.Able r.env.agent r.leaf.needs.memories

/-- A leaf that is able does sound deeds. -/
theorem LeafRun.Able.does {r : LeafRun} (h : r.Able) :
    Does r.env.agent r.stage.world r.after.world :=
  (Leaf.conducted_run h).state

variable {env : ActEnv} {w : World} {keys : List MemoryKey} {s : Stage}

theorem CountedBehavior.able_of_mem_runs {c : CountedBehavior} (able : w.Able env.agent keys)
    (hc : c.behavior.Manned keys) (hs : Does env.agent w s.world) :
    ∀ r ∈ c.runs env s, r.Able := by
  intro r hr
  obtain ⟨run, hrun, rfl⟩ := List.mem_map.mp hr
  obtain ⟨hkeys, hdoes⟩ := hc.runs (Behavior.keeps_actor able) hs run hrun
  exact (able.of_kept hdoes.kept).mono hkeys

theorem Bucket.able_of_mem_runs {b : Bucket} (able : w.Able env.agent keys) (hb : b.Manned keys)
    (hs : Does env.agent w s.world) : ∀ r ∈ b.runs env s, r.Able :=
  forall_mem_raisedFirst (fun c hc _ hs => keeps_tickCounted able (hb c hc) hs)
    (fun c hc _ hs => c.able_of_mem_runs able (hb c hc) hs) hs

namespace Brain

theorem able_of_mem_runsInBuckets {buckets : List Bucket} (able : w.Able env.agent keys)
    (hbuckets : ∀ b ∈ buckets, b.Manned keys) (hs : Does env.agent w s.world) :
    ∀ r ∈ runsInBuckets env buckets s, r.Able := by
  induction buckets generalizing s with
  | nil => exact fun r hr => nomatch hr
  | cons b rest ih =>
    rw [List.forall_mem_cons] at hbuckets
    exact List.forall_mem_append.mpr ⟨b.able_of_mem_runs able hbuckets.1 hs,
      ih hbuckets.2 (Bucket.conducted_tick able hbuckets.1 hs).does⟩

theorem able_of_mem_runsInActivities (labels : List Activity)
    {activities : SortedMap Activity (List Bucket)} (able : w.Able env.agent keys)
    (hactivities : MannedActivities keys activities) (hs : Does env.agent w s.world) :
    ∀ r ∈ runsInActivities env labels activities s, r.Able := by
  induction labels generalizing activities s with
  | nil => exact fun r hr => nomatch hr
  | cons label rest ih =>
    rw [runsInActivities]
    cases hbuckets : activities.get? label with
    | none => exact ih hactivities hs
    | some buckets =>
      have hmanned := hactivities label buckets hbuckets
      have here := conducted_tickBuckets able hmanned hs
      refine List.forall_mem_append.mpr ⟨able_of_mem_runsInBuckets able hmanned hs, ih ?_ here.does⟩
      exact hactivities.insert label here.manned

/-- Every leaf that a brain runs is able, if the agent is able to act with all memories of the brain. -/
theorem able_of_mem_runs (limit : Nat) {b : Brain} (able : s.world.Able b.agent b.memories.keys)
    (hb : b.Manned) : ∀ r ∈ b.runs limit s, r.Able := by
  unfold runs
  cases s.world.schedule? b.agent with
  | none => exact fun r hr => nomatch hr
  | some schedule => exact able_of_mem_runsInActivities schedule.active able hb.behaviors (.refl _ _)

end Brain

end Menagerie
