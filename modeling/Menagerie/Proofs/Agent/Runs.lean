import Menagerie.Proofs.Agent.Faults
import Menagerie.Proofs.Behavior.Trace
import Menagerie.Proofs.Task.Frame

/-!
# What brains do to the world

A tick of a brain is no more than runs of leaves, one after the other (`Brain.runs`): each starts from
the world that the one before it left (`Brain.leads_tick`). As no leaf touches more than its agent may,
a tick of a brain is about its agent alone (`Brain.frame_tick`).
-/

namespace Menagerie

/-- A run of a leaf: for whom, and from which stage. -/
structure LeafRun where
  env : ActEnv
  leaf : Leaf
  stage : Stage

/-- The stage that a run leaves. -/
def LeafRun.after (r : LeafRun) : Stage := (r.leaf.run r.env r.stage).state

/-- Whether runs lead from the world of one stage to that of another. -/
abbrev Stage.Reaches (s : Stage) (runs : List LeafRun) (s' : Stage) : Prop :=
  Leads Stage.world LeafRun.stage LeafRun.after s runs s'

/-- Guards and draws leave the world as it is. -/
theorem ActEnv.unseen_actor (env : ActEnv) : env.actor.Unseen Stage.world where
  check _ s := Act.reads_evaluate.runOn env s
  draw _ := rfl

/-- What a run of a leaf touches is its agent's. -/
theorem LeafRun.touched (r : LeafRun) (h : r.stage.world.Indexed) :
    r.stage.world.Touched (MayKeep r.leaf.touched r.leaf.pause?) r.env.agent r.after.world :=
  r.leaf.touched_run h

/-- Where every run keeps an invariant and brings something about, which can be put together, the runs
do so as a whole. -/
theorem Stage.Reaches.rel (inv : World → Prop) (rel : World → World → Prop) {s s' : Stage}
    {runs : List LeafRun} (h : s.Reaches runs s') (hrefl : ∀ w, rel w w)
    (htrans : ∀ {w w' w''}, rel w w' → rel w' w'' → rel w w'')
    (hruns : ∀ r ∈ runs, inv r.stage.world → inv r.after.world ∧ rel r.stage.world r.after.world)
    (hs : inv s.world) : inv s'.world ∧ rel s.world s'.world :=
  Leads.rel (fun w w' => inv w → inv w' ∧ rel w w') (fun w hw => ⟨hw, hrefl w⟩)
    (fun h h' hw => ⟨(h' (h hw).1).1, htrans (h hw).2 (h' (h hw).1).2⟩) hruns h hs

theorem leads_firstToApply {ε ν ρ σ ω : Type} {view : σ → ω} {before after : ρ → σ}
    {tick : ν → σ → Ticked ε ν σ} {runs : ν → σ → List ρ}
    (h : ∀ n s, Leads view before after s (runs n s) (tick n s).state) (nodes : List ν) (s : σ) :
    Leads view before after s (raisedFirst tick runs nodes s) (firstToApply tick nodes s).state := by
  induction nodes generalizing s with
  | nil => rfl
  | cons n rest ih =>
    have here := h n s
    rw [raisedFirst, firstToApply]
    rcases (tick n s).outcome with fault | status
    · exact here
    · cases status with
      | success => exact here
      | failure => exact here.append (ih _)

/-- What holds of all that nodes bring about holds of what they bring about in order. -/
theorem forall_mem_gathered {ε ν ρ σ : Type} {tick : ν → σ → Ticked ε ν σ} {runs : ν → σ → List ρ}
    {p : ρ → Prop} (h : ∀ n s, ∀ run ∈ runs n s, p run) (nodes : List ν) (s : σ) :
    ∀ run ∈ raisedFirst tick runs nodes s, p run := by
  induction nodes generalizing s with
  | nil => exact fun run hrun => nomatch hrun
  | cons n rest ih =>
    rw [raisedFirst]
    split
    · exact List.forall_mem_append.mpr ⟨h n s, ih _⟩
    · exact h n s

namespace CountedBehavior

/-- The leaves that a tick of a behavior runs. -/
def runs (env : ActEnv) (c : CountedBehavior) (s : Stage) : List LeafRun :=
  (Tree.runs env.actor c.behavior s).map fun (leaf, stage) => ⟨env, leaf, stage⟩

theorem leads_tick (env : ActEnv) (c : CountedBehavior) (s : Stage) :
    s.Reaches (c.runs env s) (c.tick env s).state := by
  have hruns : s.Reaches (c.runs env s) (c.behavior.tick env s).state :=
    (Tree.leads_tick env.unseen_actor c.behavior s).map (fun _ => rfl) fun _ => rfl
  unfold tick
  dsimp only
  split
  · exact hruns
  · exact hruns

theorem env_of_mem_runs (env : ActEnv) (c : CountedBehavior) (s : Stage) :
    ∀ r ∈ c.runs env s, r.env = env := by
  intro r hr
  obtain ⟨_, _, rfl⟩ := List.mem_map.mp hr
  rfl

end CountedBehavior

namespace Bucket

/-- The leaves that a tick of a bucket runs. -/
def runs (env : ActEnv) (b : Bucket) (s : Stage) : List LeafRun :=
  raisedFirst (CountedBehavior.tick env) (CountedBehavior.runs env) b.behaviors s

theorem leads_tick (env : ActEnv) (b : Bucket) (s : Stage) :
    s.Reaches (b.runs env s) (b.tick env s).2 :=
  leads_firstToApply (CountedBehavior.leads_tick env) b.behaviors s

end Bucket

namespace Brain

/-- The leaves that are run where buckets are ticked in order. -/
def runsInBuckets (env : ActEnv) : List Bucket → Stage → List LeafRun
  | [], _ => []
  | b :: rest, s => b.runs env s ++ runsInBuckets env rest (b.tick env s).2

/-- The leaves that are run where the buckets of activities are ticked in order. -/
def runsInActivities (env : ActEnv) :
    List Activity → SortedMap Activity (List Bucket) → Stage → List LeafRun
  | [], _, _ => []
  | label :: rest, activities, s =>
    match activities.get? label with
    | none => runsInActivities env rest activities s
    | some buckets =>
      let (buckets', s') := tickBuckets env buckets s
      runsInBuckets env buckets s ++
        runsInActivities env rest (activities.insert label buckets') s'

/-- The leaves that a tick of a brain runs. -/
def runs (limit : Nat) (b : Brain) (s : Stage) : List LeafRun :=
  match s.world.schedule? b.agent with
  | none => []
  | some schedule => runsInActivities ⟨b.agent, limit, b.table⟩ schedule.active b.activities s

theorem leads_tickBuckets (env : ActEnv) (buckets : List Bucket) (s : Stage) :
    s.Reaches (runsInBuckets env buckets s) (tickBuckets env buckets s).2 := by
  induction buckets generalizing s with
  | nil => rfl
  | cons b rest ih => exact (b.leads_tick env s).append (ih _)

theorem leads_tickActivities (env : ActEnv) (labels : List Activity)
    (activities : SortedMap Activity (List Bucket)) (s : Stage) :
    s.Reaches (runsInActivities env labels activities s)
      (tickActivities env labels activities s).2 := by
  induction labels generalizing activities s with
  | nil => rfl
  | cons label rest ih =>
    rw [runsInActivities, tickActivities]
    cases activities.get? label with
    | none => exact ih activities s
    | some buckets => exact (leads_tickBuckets env buckets s).append (ih _ _)

/-- A tick of a brain comes to what the leaves that it runs come to. -/
theorem leads_tick (limit : Nat) (b : Brain) (s : Stage) :
    s.Reaches (b.runs limit s) (b.tick limit s).2 := by
  unfold runs tick
  cases s.world.schedule? b.agent with
  | none => rfl
  | some schedule => exact leads_tickActivities _ schedule.active b.activities s

theorem env_of_mem_runsInBuckets (env : ActEnv) (buckets : List Bucket) (s : Stage) :
    ∀ r ∈ runsInBuckets env buckets s, r.env = env := by
  induction buckets generalizing s with
  | nil => exact fun r hr => nomatch hr
  | cons b rest ih =>
    exact List.forall_mem_append.mpr
      ⟨forall_mem_gathered (CountedBehavior.env_of_mem_runs env) b.behaviors s, ih _⟩

theorem env_of_mem_runsInActivities (env : ActEnv) (labels : List Activity)
    (activities : SortedMap Activity (List Bucket)) (s : Stage) :
    ∀ r ∈ runsInActivities env labels activities s, r.env = env := by
  induction labels generalizing activities s with
  | nil => exact fun r hr => nomatch hr
  | cons label rest ih =>
    rw [runsInActivities]
    cases activities.get? label with
    | none => exact ih activities s
    | some buckets =>
      exact List.forall_mem_append.mpr ⟨env_of_mem_runsInBuckets env buckets s, ih _ _⟩

/-- A brain runs leaves for its own agent. -/
theorem agent_of_mem_runs (limit : Nat) (b : Brain) (s : Stage) :
    ∀ r ∈ b.runs limit s, r.env.agent = b.agent := by
  unfold runs
  cases s.world.schedule? b.agent with
  | none => exact fun r hr => nomatch hr
  | some schedule =>
    intro r hr
    rw [env_of_mem_runsInActivities _ _ _ _ r hr]

/-! ## The frame of a tick -/

/-- A tick of a brain touches no more than what belongs to its agent. -/
theorem touched_tick (limit : Nat) (b : Brain) {s : Stage} (h : s.world.Indexed) :
    s.world.Touched (fun _ _ _ => True) b.agent (b.tick limit s).2.world := by
  refine (Stage.Reaches.rel World.Indexed (World.Touched _ b.agent) (b.leads_tick limit s) .refl
    .trans ?_ h).2
  intro r hr hindexed
  have htouched := r.touched hindexed
  rw [← b.agent_of_mem_runs limit s r hr]
  exact ⟨hindexed.of_touched htouched, htouched.imp fun _ _ _ _ => trivial⟩

/-- A tick of a brain is about its agent alone, in any world whose bodies are kept under their own
numbers. Of every other agent the body is the same, and so is the state of each key that it
remembers; of the agent's own body no more may differ than what it remembers under the keys that it
has, and which of its activities are active. Of the rest of the world only the intents differ, to
which intents of the agent were added. -/
theorem frame_tick (limit : Nat) (b : Brain) (s : Stage) (h : s.world.Indexed) :
    (∀ id, id ≠ b.agent →
      Option.Rel (fun body body' =>
          body' = { body with memory := body'.memory } ∧ body'.memory.now = body.memory.now ∧
          ∀ key, body'.memory.state key = body.memory.state key)
        (s.world.body? id) ((b.tick limit s).2.world.body? id)) ∧
    Option.Rel (fun body body' =>
        body' = { body with memory := body'.memory, schedule := body'.schedule } ∧
        body'.memory.now = body.memory.now ∧
        (∀ key, body'.memory.isRegistered key = body.memory.isRegistered key) ∧
        body'.schedule.groups.map ActivityGroup.members =
          body.schedule.groups.map ActivityGroup.members)
      (s.world.body? b.agent) ((b.tick limit s).2.world.body? b.agent) ∧
    (b.tick limit s).2.world =
      { s.world with
        bodies := (b.tick limit s).2.world.bodies
        intents := (b.tick limit s).2.world.intents } ∧
    ∃ issued : List Intent, (b.tick limit s).2.world.intents =
      s.world.intents ++ issued.map fun intent => (b.agent, intent) := by
  have htouched := b.touched_tick limit h
  refine ⟨?_, ?_, htouched.rest, htouched.issued⟩
  · intro id hid
    exact optionRel_imp (fun halike => ⟨halike.rest, halike.memory.now, halike.memory.state⟩)
      (htouched.others id hid)
  · exact optionRel_imp
      (fun hown => ⟨hown.rest, hown.memory.now, hown.memory.registered, hown.schedule.members⟩)
      htouched.own

/-- A wolf takes another as its leader. What that one kept of a leader of its own has run out, so that
clearing it cannot be told. -/
theorem frame_tick_wolves :
    let wolf (number : UInt32) (memory : Blackboard) : Body :=
      { view := ⟨⟨number⟩, "wolf", 1, 20.0, 20.0, ⟨0, 0, 0⟩, false, false⟩, template := "wolf"
        herd := { toleratedLeaders := [⟨"wolf", true⟩] }, memory
        schedule := Schedule.empty.add 0 .core }
    let follower := wolf 1 ⟨⟨5⟩, .ofList
      [(.nearestVisibleAgents, some (.agents [⟨2⟩], none)), (.herdLeader, none)]⟩
    let leader := wolf 2 ⟨⟨5⟩, .ofList [(.herdLeader, some (.agent ⟨3⟩, some ⟨4⟩))]⟩
    let world : World :=
      { clock := ⟨⟨5⟩, 24000⟩, terrain := {}, movementSpeed := 1.0
        bodies := .ofList [(⟨1⟩, follower), (⟨2⟩, leader)] }
    let brain := Brain.ofTasks ⟨1⟩ .empty [⟨.core, 0, [.leaf (.findHerdLeader 1)]⟩] .empty .empty
    let s : Stage := ⟨world, .ofSeed 0⟩
    s.world.Indexed ∧ (brain.tick 4 s).2.world.remembered? ⟨1⟩ .herdLeader = some (.agent ⟨2⟩) ∧
      ∀ id, id ≠ brain.agent →
        Option.Rel (fun body body' =>
            body' = { body with memory := body'.memory } ∧ body'.memory.now = body.memory.now ∧
            ∀ key, body'.memory.state key = body.memory.state key)
          (s.world.body? id) ((brain.tick 4 s).2.world.body? id) := by
  intro wolf follower leader world brain s
  have hindexed : s.world.Indexed := by
    intro id b hb
    have hmem : (id, b) ∈ [((⟨1⟩ : AgentId), follower), (⟨2⟩, leader)] :=
      SortedMap.get?_eq_some_iff.mp hb
    simp only [List.mem_cons, Prod.mk.injEq, List.not_mem_nil, or_false] at hmem
    rcases hmem with ⟨rfl, rfl⟩ | ⟨rfl, rfl⟩
    · rfl
    · rfl
  exact ⟨hindexed, by decide +kernel, (frame_tick 4 brain s hindexed).1⟩

end Brain

end Menagerie
