import Mathlib.Data.Fintype.Card
import Menagerie.Proofs.Sensor.Visible
import Menagerie.Proofs.Simulation.Holding

/-!
# Who follows an agent

Sensors alone write the lists of those in sight, so that no list names its owner, or another agent twice
(`Simulation.Reachable.lists_others`). An agent that counts its followers among them therefore counts each of
them once (`followersAmong_eq_card`), and there are never too many to be counted
(`length_lt_of_others`).
-/

namespace Menagerie

/-- Whether a value lists others than its owner, each of them once, if it lists agents at all. -/
def ListsOthers (owner : AgentId) (value : MemoryValue) (_ : Option Tick) : Prop :=
  ∀ ids, value = .agents ids → ids.Nodup ∧ owner ∉ ids

/-! ## Lists of those in sight -/

theorem World.Indexed.keeps_nearestVisible {w : World} (hindexed : w.Indexed) (settings : SensorSettings)
    (id : AgentId) :
    ∀ u ∈ (Sensor.ofKind settings .nearestVisible).perceive id w,
      u.Keeps .nearestVisibleAgents (ListsOthers id) := by
  show ∀ u ∈ Sensor.nearestVisible settings.visibleRange id w, _
  unfold Sensor.nearestVisible
  split
  · exact fun _ hu => nomatch hu
  · next me _ =>
    rw [List.forall_mem_singleton]
    refine MemoryUpdate.keeps_store ?_
    rintro _ ⟨⟩
    exact ⟨World.nodup_visibleFrom hindexed, fun hid => ((World.mem_visibleFrom hindexed).mp hid).1 rfl⟩

namespace Engine

/-- Whether agents that see others see them with the built-in sensor. -/
def Sighted (e : Engine) : Prop :=
  ∀ sensor, e.sensors .nearestVisible = some sensor →
    ∃ settings, sensor = Sensor.ofKind settings .nearestVisible

theorem upholds_listsOthers {e : Engine} (honest : e.Honest) (hsighted : e.Sighted) :
    e.Upholds .nearestVisibleAgents ListsOthers where
  walk := by decide
  senses := by
    intro kind sensor hsensor id w hindexed u hu
    by_cases hkind : kind = .nearestVisible
    · subst hkind
      obtain ⟨settings, rfl⟩ := hsighted sensor hsensor
      exact hindexed.keeps_nearestVisible settings id u hu
    · refine MemoryUpdate.keeps_of_ne fun hkey => hkind ?_
      have hmem := honest kind sensor hsensor id w u hu
      rw [hkey] at hmem
      cases kind <;> simp [SensorKind.memories] at hmem ⊢
  runs := by
    intro r horderly hr
    refine hr.of_touched (r.touched horderly.indexed) ?_
    -- No leaf writes who is in sight.
    rintro now slot (htouched | ⟨ticks, hpause, _⟩)
    · cases hleaf : r.leaf <;> simp [hleaf, Leaf.touched] at htouched
    · cases hleaf : r.leaf <;> simp [hleaf, Leaf.pause?] at hpause

end Engine

/-! ## Counting -/

/-- There are fewer others than there are numbers. -/
theorem length_lt_of_others {ids : List AgentId} {id : AgentId} (hnodup : ids.Nodup) (hid : id ∉ ids) :
    ids.length < UInt32.size := by
  have hnumbers : ((id :: ids).map fun other => other.number.toFin).Nodup :=
    (List.nodup_cons.mpr ⟨hid, hnodup⟩).map fun _ _ heq => congrArg AgentId.mk (UInt32.toFin_inj.mp heq)
  have hle := hnumbers.length_le_card
  rw [Fintype.card_fin, List.length_map, List.length_cons] at hle
  exact hle

theorem MemoryValue.bind_agent?_eq_some_iff {value? : Option MemoryValue} {id : AgentId} :
    value?.bind agent? = some id ↔ value? = some (.agent id) := by
  cases value? with
  | none => simp
  | some value => cases value <;> simp [agent?]

namespace World

/-- Those among some agents that follow one. -/
def followers (w : World) (leader : AgentId) (ids : List AgentId) : Finset AgentId :=
  ids.toFinset.filter fun id => w.remembered? id .herdLeader = some (.agent leader)

/-- Of agents that are listed once each follower is counted once. -/
theorem followersAmong_eq_card {w : World} {leader : AgentId} {ids : List AgentId} (hnodup : ids.Nodup) :
    Task.followersAmong w leader ids = (w.followers leader ids).card := by
  unfold Task.followersAmong followers
  simp only [MemoryValue.bind_agent?_eq_some_iff]
  rw [← List.toFinset_card_of_nodup (hnodup.filter _), List.toFinset_filter]
  simp only [decide_eq_true_eq]

theorem card_followers_lt {w : World} {leader : AgentId} {ids : List AgentId} (hnodup : ids.Nodup)
    (hleader : leader ∉ ids) : (w.followers leader ids).card < UInt32.size := by
  refine lt_of_le_of_lt ?_ (length_lt_of_others hnodup hleader)
  exact (Finset.card_filter_le _ _).trans (List.toFinset_card_le ids)

end World

namespace Leaf

open Act

variable {env : ActEnv} {s : Stage} {b : Body} {ids : List AgentId} {checkTicks : UInt64}

/-- On its ticks an agent remembers how many it counts, or nothing if there are none. -/
theorem remembered?_countFollowers (hb : s.world.body? env.agent = some b)
    (hlist : b.memory.get? .nearestVisibleAgents = some (.agents ids)) (hkey : b.memory.isRegistered .herdSize)
    (htick : s.world.now.isMultipleOf checkTicks = true)
    (hfew : Task.followersAmong s.world env.agent ids < UInt32.size) :
    ((countFollowers checkTicks).run env s).state.world.remembered? env.agent .herdSize =
      if Task.followersAmong s.world env.agent ids = 0 then none
      else some (.count (UInt32.ofNat (Task.followersAmong s.world env.agent ids))) := by
  have hsatisfied : b.memory.satisfiesAll (countFollowers checkTicks).needs.requirements := by
    refine List.all_eq_true.mpr (List.forall_mem_cons.mpr ⟨?_, List.forall_mem_singleton.mpr ?_⟩)
    · exact Blackboard.hasValue_of_get? hlist
    · exact Blackboard.satisfies_registered_iff.mpr hkey
  have hrecalled : (s.world.remembered? env.agent .nearestVisibleAgents).bind MemoryValue.agents? =
      some ids := by
    rw [World.remembered?_of_body? hb, hlist]
    rfl
  have hmeets : Meets (Task.countFollowers checkTicks) env s
      (fun _ t => t.world.remembered? env.agent .herdSize =
        if Task.followersAmong s.world env.agent ids = 0 then none
        else some (.count (UInt32.ofNat (Task.followersAmong s.world env.agent ids)))) fun _ _ => False := by
    unfold Task.countFollowers
    rw [meets_bind, (yields_now env s).meets, htick]
    simp only [Bool.not_true, Bool.false_eq_true, if_false]
    rw [meets_bind, (yields_read env s).meets, meets_bind, (yields_require hrecalled).meets, meets_bind,
      (yields_world env s).meets, Nat.min_eq_left (Nat.le_sub_one_of_lt hfew)]
    split
    · rw [meets_bind, meets_forget]
      exact (World.remembered?_mapMemory_self hb _).trans (Blackboard.get?_erase_self b.memory .herdSize)
    · rw [meets_bind, meets_remember hb rfl hkey]
      exact (World.remembered?_mapMemory_self hb _).trans (Blackboard.get?_put_for_good hkey)
  obtain ⟨_, t, hrun, ht⟩ := exists_of_meets hmeets
  rw [run_of_satisfied hb hsatisfied]
  unfold turn act
  dsimp only
  rw [hrun]
  exact ht

end Leaf

namespace Simulation

variable {engine : Engine} {scenario : Scenario} {s : Simulation}

/-- No list of those in sight names its owner, or another agent twice. -/
theorem Reachable.lists_others (honest : engine.Honest) (hsighted : engine.Sighted)
    (h : Reachable engine scenario s) : s.world.Holds .nearestVisibleAgents ListsOthers :=
  h.holds (Engine.upholds_listsOthers honest hsighted)

/-- In a world that holds each body under its own number, as worlds do, the sensor lists all others that live
within range, each of them once, the nearest first. No list that is remembered names its owner, or another agent
twice. And an agent that counts its followers remembers how many of those that it lists follow it then, or
nothing if none do. -/
theorem Reachable.sight_exact (honest : engine.Honest) (hsighted : engine.Sighted)
    (h : Reachable engine scenario s) :
    (∀ (settings : SensorSettings) (w : World) (id : AgentId) (b : Body), w.Indexed → w.body? id = some b →
      b.memory.isRegistered .nearestVisibleAgents →
      let sensed := (Sensor.ofKind settings .nearestVisible).sense id w
      sensed.1 = .ok () ∧ ∃ ids,
        sensed.2 = (w.mapMemory id fun m => m.put .nearestVisibleAgents (some (.agents ids, none))) ∧
        sensed.2.remembered? id .nearestVisibleAgents = some (.agents ids) ∧ ids.Nodup ∧
        (∀ other, other ∈ ids ↔ other ≠ id ∧ w.InSight b.view settings.visibleRange other) ∧
        ids.Pairwise (w.Nearer b.view) ∧
        ((∀ other, other ≠ id → ¬ w.InSight b.view settings.visibleRange other) → ids = [])) ∧
    (∀ id ids, s.world.remembered? id .nearestVisibleAgents = some (.agents ids) → ids.Nodup ∧ id ∉ ids) ∧
    ∀ r ∈ s.runs, ∀ checkTicks ids, r.leaf = .countFollowers checkTicks →
      r.stage.world.now.isMultipleOf checkTicks = true →
      r.stage.world.remembered? r.env.agent .nearestVisibleAgents = some (.agents ids) →
      let count := (r.stage.world.followers r.env.agent ids).card
      count < UInt32.size ∧ r.after.world.remembered? r.env.agent .herdSize =
        if count = 0 then none else some (.count (UInt32.ofNat count)) := by
  refine ⟨?_, ?_, ?_⟩
  · intro settings w id b hindexed hb hkey sensed
    have hsensed : sensed = _ := Sensor.sense_nearestVisible settings hb hkey
    refine ⟨congrArg Prod.fst hsensed, w.visibleFrom b.view id settings.visibleRange, congrArg Prod.snd hsensed,
      ?_, World.nodup_visibleFrom hindexed, fun other => World.mem_visibleFrom hindexed,
      World.pairwise_visibleFrom hindexed, fun hnone => ?_⟩
    · rw [hsensed]
      exact (World.remembered?_mapMemory_self hb _).trans (Blackboard.get?_put_for_good hkey)
    · refine List.eq_nil_iff_forall_not_mem.mpr fun other hother => ?_
      obtain ⟨hne, hsees⟩ := (World.mem_visibleFrom hindexed).mp hother
      exact hnone other hne hsees
  · intro id ids hlist
    obtain ⟨_, hlists⟩ := (h.lists_others honest hsighted).of_remembered? hlist
    exact hlists ids rfl
  · rintro r hr checkTicks ids hleaf htick hlist count
    have hlists : r.stage.world.Holds .nearestVisibleAgents ListsOthers :=
      h.holds_of_mem_runs (Engine.upholds_listsOthers honest hsighted) hr
    obtain ⟨_, hlisted⟩ := hlists.of_remembered? hlist
    obtain ⟨hnodup, hme⟩ := hlisted ids rfl
    obtain ⟨b, hb, _, hkeys⟩ := (h.able_of_mem_runs honest r hr).body
    rw [hleaf] at hkeys
    have hcount : Task.followersAmong r.stage.world r.env.agent ids = count :=
      World.followersAmong_eq_card hnodup
    have hfew : count < UInt32.size := World.card_followers_lt hnodup hme
    refine ⟨hfew, ?_⟩
    rw [World.remembered?_of_body? hb] at hlist
    have hran := Leaf.remembered?_countFollowers hb hlist (hkeys .herdSize List.mem_cons_self) htick
      (hcount ▸ hfew)
    rw [hcount, ← hleaf] at hran
    exact hran

/-- A wolf that follows another one of a higher level, and a third that is too far away. -/
theorem sight_exact_wolves :
    let wolf : Template :=
      { name := "wolf", species := "wolf", enabled := true, maxHealth := 20.0
        defaultActivity := .core, overrides := .empty, declarations := []
        herd := { toleratedLeaders := [⟨"wolf", false⟩] }
        activities := [⟨.core, [⟨0, .leaf (.findHerdLeader (.number 1.0))⟩,
          ⟨1, .leaf (.countFollowers (.number 1.0))⟩]⟩] }
    let engine : Engine := { templates := { templates := .ofList [("wolf", wolf)] } }
    let scenario : Scenario :=
      { agents := [{ template := "wolf", position := ⟨0.0, 0.0, 0.0⟩ },
          { template := "wolf", level := 3, position := ⟨3.0, 0.0, 0.0⟩ },
          { template := "wolf", position := ⟨100.0, 0.0, 0.0⟩ }] }
    let s := (ofScenario engine scenario).step
    let sensed := ((Sensor.ofKind {} .nearestVisible).sense ⟨2⟩ s.world).2
    engine.Honest ∧ engine.Sighted ∧ Reachable engine scenario s ∧
      (∃ b ids, s.world.Indexed ∧ s.world.body? ⟨2⟩ = some b ∧ b.memory.isRegistered .nearestVisibleAgents ∧
        sensed.remembered? ⟨2⟩ .nearestVisibleAgents = some (.agents ids) ∧ ids.Pairwise (s.world.Nearer b.view)) ∧
      s.world.remembered? ⟨2⟩ .nearestVisibleAgents = some (.agents [⟨1⟩]) ∧
      ([⟨1⟩] : List AgentId).Nodup ∧
      ∃ r ∈ s.runs, r.leaf = .countFollowers 1 ∧ r.stage.world.now.isMultipleOf 1 = true ∧
        r.stage.world.remembered? r.env.agent .nearestVisibleAgents = some (.agents [⟨1⟩]) ∧
        r.after.world.remembered? r.env.agent .herdSize = some (.count 1) := by
  intro wolf engine scenario s sensed
  have honest : engine.Honest := by
    rintro kind sensor ⟨⟩
    exact Sensor.honest_ofKind _ kind
  have hsighted : engine.Sighted := by
    rintro sensor ⟨⟩
    exact ⟨_, rfl⟩
  have reachable : Reachable engine scenario s := .step .start
  have hlist : s.world.remembered? ⟨2⟩ .nearestVisibleAgents = some (.agents [⟨1⟩]) := by decide +kernel
  obtain ⟨b, hb, hkey⟩ : ∃ b, s.world.body? ⟨2⟩ = some b ∧ b.memory.isRegistered .nearestVisibleAgents :=
    ⟨(s.world.body? ⟨2⟩).get (by decide +kernel), (Option.some_get _).symm, by decide +kernel⟩
  have hruns : s.runs.any fun r => r.leaf == .countFollowers 1 && (r.stage.world.now.isMultipleOf 1 &&
      (r.stage.world.remembered? r.env.agent .nearestVisibleAgents == some (.agents [⟨1⟩]) &&
        (r.stage.world.followers r.env.agent [⟨1⟩]).card == 1)) := by decide +kernel
  obtain ⟨r, hr, hcounts⟩ := List.any_eq_true.mp hruns
  rw [Bool.and_eq_true, Bool.and_eq_true, Bool.and_eq_true, beq_iff_eq, beq_iff_eq, beq_iff_eq] at hcounts
  obtain ⟨hleaf, htick, hnearby, hcard⟩ := hcounts
  obtain ⟨hsense, hlists, hcounted⟩ := reachable.sight_exact honest hsighted
  have hindexed : s.world.Indexed := reachable.orderly.world.indexed
  obtain ⟨_, ids, _, hwritten, _, _, hnearer, _⟩ := hsense {} s.world ⟨2⟩ b hindexed hb hkey
  refine ⟨honest, hsighted, reachable, ⟨b, ids, hindexed, hb, hkey, hwritten, hnearer⟩, hlist,
    (hlists ⟨2⟩ _ hlist).1, r, hr, hleaf, htick, hnearby, ?_⟩
  have hsize := (hcounted r hr 1 _ hleaf htick hnearby).2
  rw [hcard] at hsize
  exact hsize

end Simulation

end Menagerie
