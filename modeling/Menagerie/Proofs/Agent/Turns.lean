import Menagerie.Proofs.Agent.Brain
import Menagerie.Proofs.Agent.Runs
import Menagerie.Proofs.Behavior.Turns

/-!
# Which leaves of a brain have a turn

A leaf of a brain is told by its activity and by where it stands among the leaves of that activity
(`Brain.leafAt?`). A tick of the brain runs it once at most (`Brain.turn?`), and what is run in a tick are the
turns of leaves (`Brain.mem_runs_iff`). A leaf that has no turn stays as it is, and another is what its turn
leaves of it (`Brain.leafAt?_tick`).
-/

namespace Menagerie

section FirstToApply

variable {ε ν σ ρ Leaf : Type}

/-- The turns where nodes are ticked up to the first that does not fail. -/
def turnsFirst (tick : ν → σ → Ticked ε ν σ) (turns : ν → σ → List (Turn Leaf σ)) (leaves : ν → List Leaf) :
    List ν → σ → List (Turn Leaf σ)
  | [], _ => []
  | n :: rest, s =>
    let t := tick n s
    match t.outcome with
    | .ok .failure => turns n s ++ turnsFirst tick turns leaves rest t.state
    | _ => turns n s ++ (rest.flatMap leaves).map .idle

theorem tells_turnsFirst {tick : ν → σ → Ticked ε ν σ} {turns : ν → σ → List (Turn Leaf σ)}
    {leaves : ν → List Leaf} {runs : ν → σ → List ρ} {mk : Leaf → σ → ρ} {left : ρ → Leaf}
    (h : ∀ n s, Turn.Tells mk left (turns n s) (leaves n) (runs n s) (leaves (tick n s).node)) (nodes : List ν)
    (s : σ) :
    Turn.Tells mk left (turnsFirst tick turns leaves nodes s) (nodes.flatMap leaves)
      (raisedFirst tick runs nodes s) ((firstToApply tick nodes s).node.flatMap leaves) := by
  induction nodes generalizing s with
  | nil => exact ⟨rfl, rfl, rfl⟩
  | cons n rest ih =>
    have here := h n s
    rw [turnsFirst, List.flatMap_cons, raisedFirst, firstToApply]
    rcases (tick n s).outcome with fault | status
    · exact here.append_idle _
    · cases status with
      | success => exact here.append_idle _
      | failure => exact here.append (ih _)

end FirstToApply

/-- What a run leaves of its leaf. -/
def LeafRun.left (r : LeafRun) : Leaf := (r.leaf.run r.env r.stage).node

/-- Whether turns tell what happens to the leaves of an agent. -/
abbrev ActEnv.Tells (env : ActEnv) (turns : List (Turn Leaf Stage)) (before : List Leaf) (runs : List LeafRun)
    (after : List Leaf) : Prop :=
  Turn.Tells (LeafRun.mk env) LeafRun.left turns before runs after

namespace CountedBehavior

def leaves (c : CountedBehavior) : List Leaf := Tree.leaves c.behavior

def turns (env : ActEnv) (c : CountedBehavior) (s : Stage) : List (Turn Leaf Stage) :=
  Tree.turns env.actor c.behavior s

theorem tells_turns (env : ActEnv) (c : CountedBehavior) (s : Stage) :
    env.Tells (c.turns env s) c.leaves (c.runs env s) (c.tick env s).node.leaves := by
  have hleft (run : Leaf × Stage) : LeafRun.left ⟨env, run.1, run.2⟩ = Tree.left env.actor run := rfl
  have hnode : (c.tick env s).node.leaves = Tree.leaves (c.behavior.tick env s).node := by
    unfold tick
    dsimp only
    split
    · rfl
    · rfl
  rw [hnode]
  exact (Tree.tells_turns env.actor c.behavior s).map hleft

end CountedBehavior

namespace Bucket

def leaves (b : Bucket) : List Leaf := b.behaviors.flatMap CountedBehavior.leaves

def turns (env : ActEnv) (b : Bucket) (s : Stage) : List (Turn Leaf Stage) :=
  turnsFirst (CountedBehavior.tick env) (CountedBehavior.turns env) CountedBehavior.leaves b.behaviors s

theorem tells_turns (env : ActEnv) (b : Bucket) (s : Stage) :
    env.Tells (b.turns env s) b.leaves (b.runs env s) (b.tick env s).1.leaves :=
  tells_turnsFirst (CountedBehavior.tells_turns env) b.behaviors s

end Bucket

namespace Brain

variable {env : ActEnv} {activity : Activity} {index : Nat}

/-! ## Buckets -/

/-- The turns where buckets are ticked in order. -/
def turnsInBuckets (env : ActEnv) : List Bucket → Stage → List (Turn Leaf Stage)
  | [], _ => []
  | b :: rest, s => b.turns env s ++ turnsInBuckets env rest (b.tick env s).2

theorem tells_turnsInBuckets (env : ActEnv) (buckets : List Bucket) (s : Stage) :
    env.Tells (turnsInBuckets env buckets s) (buckets.flatMap Bucket.leaves) (runsInBuckets env buckets s)
      ((tickBuckets env buckets s).1.flatMap Bucket.leaves) := by
  induction buckets generalizing s with
  | nil => exact ⟨rfl, rfl, rfl⟩
  | cons b rest ih => exact (b.tells_turns env s).append (ih _)

/-! ## Activities -/

/-- The leaves of an activity, in the order in which they stand in its buckets. -/
def leavesIn (activities : SortedMap Activity (List Bucket)) (activity : Activity) : List Leaf :=
  ((activities.get? activity).getD []).flatMap Bucket.leaves

theorem leavesIn_insert (activities : SortedMap Activity (List Bucket)) (label : Activity)
    (buckets : List Bucket) (activity : Activity) :
    leavesIn (activities.insert label buckets) activity =
      if activity = label then buckets.flatMap Bucket.leaves else leavesIn activities activity := by
  unfold leavesIn
  rw [SortedMap.get?_insert]
  split
  · rfl
  · rfl

/-- The turns of the leaves of one activity where the buckets of activities are ticked in order. -/
def turnsInActivities (env : ActEnv) (activity : Activity) :
    List Activity → SortedMap Activity (List Bucket) → Stage → List (Turn Leaf Stage)
  | [], activities, _ => (leavesIn activities activity).map .idle
  | label :: rest, activities, s =>
    match activities.get? label with
    | none => turnsInActivities env activity rest activities s
    | some buckets =>
      if activity = label then turnsInBuckets env buckets s
      else
        let (buckets', s') := tickBuckets env buckets s
        turnsInActivities env activity rest (activities.insert label buckets') s'

/-- The leaves of an activity that is not ticked have no turn. -/
theorem turnsInActivities_of_not_mem {labels : List Activity} (h : activity ∉ labels)
    (activities : SortedMap Activity (List Bucket)) (s : Stage) :
    turnsInActivities env activity labels activities s = (leavesIn activities activity).map .idle ∧
      leavesIn (tickActivities env labels activities s).1 activity = leavesIn activities activity := by
  induction labels generalizing activities s with
  | nil => exact ⟨rfl, rfl⟩
  | cons label rest ih =>
    rw [List.mem_cons, not_or] at h
    rw [turnsInActivities, tickActivities]
    cases activities.get? label with
    | none => exact ih h.2 activities s
    | some buckets =>
      dsimp only
      rw [if_neg h.1]
      have hlater := ih h.2 (activities.insert label (tickBuckets env buckets s).1)
        (tickBuckets env buckets s).2
      rw [leavesIn_insert, if_neg h.1] at hlater
      exact hlater

/-- Turns tell what happens to the leaves of an activity, if no activity is ticked twice. -/
theorem tells_turnsInActivities (env : ActEnv) (activity : Activity) {labels : List Activity}
    (hdistinct : labels.Nodup) (activities : SortedMap Activity (List Bucket)) (s : Stage) :
    env.Tells (turnsInActivities env activity labels activities s) (leavesIn activities activity)
      ((turnsInActivities env activity labels activities s).filterMap (Turn.run? (LeafRun.mk env)))
      (leavesIn (tickActivities env labels activities s).1 activity) := by
  induction labels generalizing activities s with
  | nil =>
    have hidle : env.Tells _ _ _ _ := .idle (LeafRun.mk env) LeafRun.left (leavesIn activities activity)
    exact ⟨hidle.before, rfl, hidle.after⟩
  | cons label rest ih =>
    rw [List.nodup_cons] at hdistinct
    rw [turnsInActivities, tickActivities]
    cases hbuckets : activities.get? label with
    | none => exact ih hdistinct.2 activities s
    | some buckets =>
      dsimp only
      by_cases hactivity : activity = label
      · subst hactivity
        have here := tells_turnsInBuckets env buckets s
        rw [if_pos rfl, (turnsInActivities_of_not_mem hdistinct.1 _ _).2, leavesIn_insert, if_pos rfl]
        refine ⟨?_, rfl, here.after⟩
        unfold leavesIn
        rw [hbuckets]
        exact here.before
      · have hlater := ih hdistinct.2 (activities.insert label (tickBuckets env buckets s).1)
          (tickBuckets env buckets s).2
        rw [leavesIn_insert, if_neg hactivity] at hlater
        rw [if_neg hactivity]
        exact hlater

/-- What is run where activities are ticked are the turns of their leaves. -/
theorem mem_runsInActivities_iff {labels : List Activity} (hdistinct : labels.Nodup)
    (activities : SortedMap Activity (List Bucket)) (s : Stage) {r : LeafRun} :
    r ∈ runsInActivities env labels activities s ↔
      ∃ activity, r ∈ (turnsInActivities env activity labels activities s).filterMap
        (Turn.run? (LeafRun.mk env)) := by
  induction labels generalizing activities s with
  | nil =>
    refine iff_of_false List.not_mem_nil ?_
    rintro ⟨activity, hr⟩
    have hidle : env.Tells _ _ _ _ := .idle (LeafRun.mk env) LeafRun.left (leavesIn activities activity)
    rw [turnsInActivities, hidle.runs] at hr
    cases hr
  | cons label rest ih =>
    rw [List.nodup_cons] at hdistinct
    simp only [runsInActivities, turnsInActivities]
    cases activities.get? label with
    | none => exact ih hdistinct.2 activities s
    | some buckets =>
      dsimp only
      rw [List.mem_append, ih hdistinct.2, ← (tells_turnsInBuckets env buckets s).runs]
      constructor
      · rintro (hr | ⟨activity, hr⟩)
        · exact ⟨label, by rw [if_pos rfl]; exact hr⟩
        · refine ⟨activity, ?_⟩
          rw [if_neg]
          · exact hr
          · -- The activity has had its turn, and has no other.
            rintro rfl
            have hidle : env.Tells _ _ _ _ := .idle (LeafRun.mk env) LeafRun.left
              (leavesIn (activities.insert activity (tickBuckets env buckets s).1) activity)
            rw [(turnsInActivities_of_not_mem hdistinct.1 _ _).1, hidle.runs] at hr
            cases hr
      · rintro ⟨activity, hr⟩
        split at hr
        · exact .inl hr
        · exact .inr ⟨activity, hr⟩

/-! ## A brain -/

variable {b : Brain} {s : Stage} {r : LeafRun}

/-- The leaf at a place among those of an activity. -/
def leafAt? (b : Brain) (activity : Activity) (index : Nat) : Option Leaf :=
  (leavesIn b.activities activity)[index]?

/-- A leaf at a place is among the behaviors of the brain. -/
theorem has_of_leafAt? {l : Leaf} (h : b.leafAt? activity index = some l) : b.Has l := by
  obtain ⟨bucket, hbucket, hl⟩ := List.mem_flatMap.mp (List.mem_of_getElem? h)
  obtain ⟨c, hc, hl⟩ := List.mem_flatMap.mp hl
  exact ⟨c.behavior, ⟨activity, bucket, hbucket, c, hc, rfl⟩, Tree.has_of_mem_leaves c.behavior hl⟩

/-- The run of the leaf at a place in a tick of the brain, if it has a turn. -/
def turn? (limit : Nat) (b : Brain) (activity : Activity) (index : Nat) (s : Stage) : Option LeafRun :=
  match s.world.schedule? b.agent with
  | none => none
  | some schedule =>
    let env : ActEnv := ⟨b.agent, limit, b.table⟩
    (turnsInActivities env activity schedule.active b.activities s)[index]?.bind
      (Turn.run? (LeafRun.mk env))

/-- Whether no activity of an agent is active twice. -/
def Focused (b : Brain) (s : Stage) : Prop :=
  ∀ schedule, s.world.schedule? b.agent = some schedule → schedule.active.Nodup

/-- A turn is a run of the leaf at its place. -/
theorem leafAt?_of_turn? {limit : Nat} (hfocused : b.Focused s) (h : b.turn? limit activity index s = some r) :
    b.leafAt? activity index = some r.leaf := by
  unfold turn? at h
  cases hschedule : s.world.schedule? b.agent with
  | none =>
    rw [hschedule] at h
    cases h
  | some schedule =>
    rw [hschedule] at h
    obtain ⟨t, ht, hrun⟩ := Option.bind_eq_some_iff.mp h
    obtain ⟨stage, _, rfl⟩ := Option.map_eq_some_iff.mp hrun
    have htells := tells_turnsInActivities ⟨b.agent, limit, b.table⟩ activity (hfocused schedule hschedule)
      b.activities s
    exact htells.getElem?_before ht

/-- The leaf at a place is what its turn leaves of it, and the same where it has none. -/
theorem leafAt?_tick (limit : Nat) (hfocused : b.Focused s) (activity : Activity) (index : Nat) :
    (b.tick limit s).1.leafAt? activity index =
      ((b.turn? limit activity index s).map LeafRun.left).or (b.leafAt? activity index) := by
  unfold turn? tick
  cases hschedule : s.world.schedule? b.agent with
  | none => rfl
  | some schedule =>
    have htells := tells_turnsInActivities ⟨b.agent, limit, b.table⟩ activity (hfocused schedule hschedule)
      b.activities s
    exact htells.getElem?_after index

/-- What a brain runs in a tick are the turns of its leaves. -/
theorem mem_runs_iff {limit : Nat} (hfocused : b.Focused s) :
    r ∈ b.runs limit s ↔ ∃ activity index, b.turn? limit activity index s = some r := by
  unfold runs turn?
  cases hschedule : s.world.schedule? b.agent with
  | none =>
    refine iff_of_false List.not_mem_nil ?_
    rintro ⟨_, _, ⟨⟩⟩
  | some schedule =>
    have hdistinct := hfocused schedule hschedule
    dsimp only
    rw [mem_runsInActivities_iff hdistinct]
    exact exists_congr fun activity =>
      (tells_turnsInActivities _ activity hdistinct b.activities s).mem_runs_iff

end Brain

end Menagerie
