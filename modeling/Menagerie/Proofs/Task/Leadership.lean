import Menagerie.Proofs.Herd.Leader
import Menagerie.Proofs.Task.Frame
import Menagerie.Simulation.Basic

/-!
# Keeping a leader

Now and then an agent looks at its leader again. It leaves one that may not lead it any more, goes over to the
best one of a higher level that it sees, and else stays (`World.Reviews`, `Leaf.reviews_maintainHerdLeader`).
So after each look its leader, if it has one, is another agent that lives, is of a tolerated species and
follows nobody (`Leaf.maintainHerdLeader_improves`).
-/

namespace Menagerie

namespace World

variable {w w' : World} {b : Body} {leader : AgentId} {ids : List AgentId}

/-- What makes an agent one that a body may follow, whatever the levels: it is another one, it lives, its
species is tolerated, and it follows nobody. -/
structure MayLead (w : World) (follower : Body) (leader : AgentId) : Prop where
  other : leader ≠ follower.view.id
  welcome : ∃ view, w.view? leader = some view ∧ 0.0 < view.health ∧
    ∃ t ∈ follower.herd.toleratedLeaders, t.species = view.species
  leaderless : w.remembered? leader .herdLeader = none

theorem any_hasValue (w : World) (id : AgentId) (key : MemoryKey) :
    ((w.memory? id).any fun memory => memory.hasValue key) = (w.remembered? id key).isSome := by
  unfold remembered?
  cases w.memory? id with
  | none => rfl
  | some memory => exact (memory.isSome_get? key).symm

/-- An agent stays with a leader exactly where the leader may lead it. -/
theorem isFitLeader_iff (hindexed : w.Indexed) {view : AgentView} (hview : w.view? leader = some view) :
    Task.isFitLeader w b.view b.herd view leader = true ↔ w.MayLead b leader := by
  obtain ⟨b', hb', rfl⟩ := Option.map_eq_some_iff.mp hview
  have hid : b'.view.id = leader := hindexed leader b' hb'
  unfold Task.isFitLeader HerdProfile.tolerates
  rw [any_hasValue, Bool.and_eq_true, Bool.and_eq_true, Bool.and_eq_true, bne_iff_ne, hid, List.any_eq_true,
    Bool.not_eq_true', Option.isSome_eq_false_iff, Option.isNone_iff_eq_none]
  constructor
  · rintro ⟨⟨⟨hother, halive⟩, t, ht, hspecies⟩, hfree⟩
    exact ⟨hother, ⟨b'.view, hview, of_decide_eq_true halive, t, ht, beq_iff_eq.mp hspecies⟩, hfree⟩
  · rintro ⟨hother, ⟨view, hview', halive, t, ht, hspecies⟩, hfree⟩
    cases hview.symm.trans hview'
    exact ⟨⟨⟨hother, decide_eq_true halive⟩, t, ht, beq_iff_eq.mpr hspecies⟩, hfree⟩

theorem of_mem_candidates (hindexed : w.Indexed) {c : LeaderCandidate}
    (hc : c ∈ ids.filterMap (LeaderCandidate.ofWorld? w)) :
    c.view.id ∈ ids ∧ w.view? c.view.id = some c.view ∧
      c.following = (w.remembered? c.view.id .herdLeader).isSome := by
  obtain ⟨id, hmem, hid⟩ := List.mem_filterMap.mp hc
  obtain ⟨rfl, hview, hfollowing⟩ := Task.of_ofWorld? hindexed hid
  exact ⟨hmem, hview, hfollowing⟩

/-- An eligible candidate may lead. -/
theorem mayLead_of_eligible (hindexed : w.Indexed) {aboveLevel : Option UInt32} {c : LeaderCandidate}
    (hc : c ∈ ids.filterMap (LeaderCandidate.ofWorld? w)) (h : c.Eligible b.view b.herd aboveLevel) :
    w.MayLead b c.view.id := by
  obtain ⟨_, hview, hfollowing⟩ := of_mem_candidates hindexed hc
  obtain ⟨t, ht, hspecies, _⟩ := h.tolerated
  refine ⟨h.other, ⟨c.view, hview, h.alive, t, ht, hspecies⟩, ?_⟩
  rw [h.leaderless] at hfollowing
  exact Option.isSome_eq_false_iff.mp hfollowing.symm |> Option.isNone_iff_eq_none.mp

/-- A candidate of a higher level than the leader's is another agent. -/
theorem ne_of_eligible (hindexed : w.Indexed) {view : AgentView} (hview : w.view? leader = some view)
    {c : LeaderCandidate} (hc : c ∈ ids.filterMap (LeaderCandidate.ofWorld? w))
    (h : c.Eligible b.view b.herd (some view.level)) : c.view.id ≠ leader := by
  rintro rfl
  obtain ⟨_, hview', _⟩ := of_mem_candidates hindexed hc
  cases hview.symm.trans hview'
  exact UInt32.lt_irrefl _ (h.above _ rfl)

/-- Who may lead still may after an agent acted that is not the one who may lead. -/
theorem MayLead.of_touched {may : Tick → MemoryKey → MemorySlot → Prop} {me : AgentId}
    (h : w.MayLead b leader) (hme : b.view.id = me) (htouched : w.Touched may me w') : w'.MayLead b leader := by
  obtain ⟨view, hview, hwelcome⟩ := h.welcome
  refine ⟨h.other, ⟨view, (htouched.view? leader).trans hview, hwelcome⟩, ?_⟩
  rw [htouched.remembered? (hme ▸ h.other)]
  exact h.leaderless

/-! ## Looking again -/

/-- What a look at the leader of an agent, who sees the given others, may come to. -/
inductive Reviews (w : World) (me : AgentId) (b : Body) (leader : AgentId) (ids : List AgentId) : World → Prop
  /-- It is left, as it may not lead. -/
  | leaves : ¬ w.MayLead b leader → Reviews w me b leader ids (Deed.apply me w (.forget .herdLeader))
  /-- It may lead, and there is nobody better. -/
  | stays {view : AgentView} : w.MayLead b leader → w.view? leader = some view →
      bestLeader? b.view b.herd (ids.filterMap (LeaderCandidate.ofWorld? w)) (some view.level) = none →
      Reviews w me b leader ids w
  /-- It may lead, but there is someone better. -/
  | trades {view : AgentView} {better : AgentId} : w.MayLead b leader → w.view? leader = some view →
      bestLeader? b.view b.herd (ids.filterMap (LeaderCandidate.ofWorld? w)) (some view.level) = some better →
      Reviews w me b leader ids (Deed.apply me w (.follow better))

end World

open Act

variable {env : ActEnv} {s : Stage} {b : Body} {leader : AgentId} {checkTicks : UInt64}

namespace Task

theorem meets_claimLeader (hb : s.world.body? env.agent = some b) (hkey : b.memory.isRegistered .herdLeader)
    {good : Unit → Stage → Prop} {bad : TaskFault → Stage → Prop} :
    Meets (claimLeader leader) env s good bad ↔
      good () { s with world := Deed.apply env.agent s.world (.follow leader) } := by
  have hkept : s.world.Kept (s.world.mapMemory leader fun m => m.erase .herdLeader) :=
    (Deed.quiet_forget leader s.world .herdLeader).kept
  obtain ⟨b', hb', hsame⟩ := hkept.exists_of_left hb
  unfold claimLeader forgetOf
  rw [meets_bind, meets_modifyWorld]
  refine Iff.trans (meets_remember (b := b') ?_ rfl ?_) Iff.rfl
  · exact hb'
  · rw [hsame.memory.registered]
    exact hkey

theorem meets_maintainHerdLeader (hindexed : s.world.Indexed) (hb : s.world.body? env.agent = some b)
    (hleader : b.memory.get? .herdLeader = some (.agent leader))
    (htick : s.world.now.isMultipleOf checkTicks = true)
    {good : Bool → Stage → Prop} {bad : TaskFault → Stage → Prop}
    (h : ∀ w', s.world.Reviews env.agent b leader
      (((b.memory.get? .nearestVisibleAgents).bind MemoryValue.agents?).getD []) w' →
        good true { s with world := w' }) :
    Meets (maintainHerdLeader checkTicks) env s good bad := by
  have hrecalled : (s.world.remembered? env.agent .herdLeader).bind MemoryValue.agent? = some leader := by
    rw [World.remembered?_of_body? hb, hleader]
    rfl
  have hkey : b.memory.isRegistered .herdLeader :=
    Blackboard.isRegistered_of_hasValue (Blackboard.hasValue_of_get? hleader)
  have hherd : s.world.herd? b.view.id = some b.herd := by
    rw [hindexed _ b hb]
    exact congrArg (Option.map Body.herd) hb
  unfold maintainHerdLeader
  rw [meets_bind, (yields_now env s).meets, htick]
  simp only [Bool.not_true, Bool.false_eq_true, if_false]
  rw [meets_bind, (yields_me hb).meets, meets_bind, (yields_require hrecalled).meets, meets_bind,
    (yields_world env s).meets]
  rw [hherd, Option.getD_some]
  by_cases hfit : s.world.MayLead b leader
  · obtain ⟨view, hview, _⟩ := hfit.welcome
    have hfilter : ((s.world.view? leader).filter fun v => isFitLeader s.world b.view b.herd v leader) =
        some view := by
      rw [hview]
      exact Option.filter_some_pos ((World.isFitLeader_iff hindexed hview).mpr hfit)
    rw [hfilter]
    dsimp only
    rw [meets_bind, (yields_remembered _ env s).meets, World.remembered?_of_body? hb]
    rw [bestLeader?_filter fun c hc helig => decide_eq_true (World.ne_of_eligible hindexed hview hc helig)]
    split
    · next hnone => exact h _ (.stays hfit hview hnone)
    · next better hbest =>
      rw [meets_bind, meets_claimLeader hb hkey]
      exact h _ (.trades hfit hview hbest)
  · have hfilter : ((s.world.view? leader).filter fun v => isFitLeader s.world b.view b.herd v leader) =
        none := by
      rw [Option.filter_eq_none_iff]
      exact fun v hv hv' => hfit ((World.isFitLeader_iff hindexed hv).mp hv')
    rw [hfilter]
    exact h _ (.leaves hfit)

end Task

namespace World

variable {w w' : World} {me : AgentId} {ids : List AgentId}

/-- What is remembered after a look: nobody, if the leader may not lead; else the best one of a higher level,
or the leader if there is none. -/
theorem Reviews.remembered? (h : w.Reviews me b leader ids w') (hb : w.body? me = some b)
    (hleader : b.memory.get? .herdLeader = some (.agent leader)) :
    (¬ w.MayLead b leader ∧ w'.remembered? me .herdLeader = none) ∨
      ∃ view, w.MayLead b leader ∧ w.view? leader = some view ∧ w'.remembered? me .herdLeader =
        some (.agent ((bestLeader? b.view b.herd (ids.filterMap (LeaderCandidate.ofWorld? w))
          (some view.level)).getD leader)) := by
  cases h with
  | leaves hunfit =>
    refine .inl ⟨hunfit, ?_⟩
    exact (remembered?_mapMemory_self hb _).trans (Blackboard.get?_erase_self b.memory .herdLeader)
  | @stays view hfit hview hnone =>
    refine .inr ⟨view, hfit, hview, ?_⟩
    rw [hnone, remembered?_of_body? hb]
    exact hleader
  | @trades view better hfit hview hbest =>
    refine .inr ⟨view, hfit, hview, ?_⟩
    have hkept : w.Kept (w.mapMemory better fun m => m.erase .herdLeader) :=
      (Deed.quiet_forget better w .herdLeader).kept
    obtain ⟨b', hb', hsame⟩ := hkept.exists_of_left hb
    have hkey : b'.memory.isRegistered .herdLeader := by
      rw [hsame.memory.registered]
      exact Blackboard.isRegistered_of_hasValue (Blackboard.hasValue_of_get? hleader)
    rw [hbest]
    exact (remembered?_mapMemory_self hb' _).trans (Blackboard.get?_put_for_good hkey)

end World

namespace Leaf

/-- Between its ticks a look at the leader does nothing. -/
theorem run_maintainHerdLeader_of_idle (htick : s.world.now.isMultipleOf checkTicks = false) :
    (maintainHerdLeader checkTicks).run env s = ⟨.ok .failure, maintainHerdLeader checkTicks, s⟩ := by
  rcases run_cases env (maintainHerdLeader checkTicks) s with ⟨_, _, _, heq⟩ | heq
  · have hrun : Yields (Task.maintainHerdLeader checkTicks) env s false := by
      refine .bind (yields_now env s) ?_
      rw [htick]
      rfl
    rw [heq]
    unfold turn act
    dsimp only
    rw [hrun]
    rfl
  · exact heq

/-- On its ticks a look at the leader succeeds. -/
theorem reviews_maintainHerdLeader (hindexed : s.world.Indexed) (hb : s.world.body? env.agent = some b)
    (hleader : b.memory.get? .herdLeader = some (.agent leader))
    (hnearby : b.memory.isRegistered .nearestVisibleAgents)
    (htick : s.world.now.isMultipleOf checkTicks = true) :
    ∃ w', (maintainHerdLeader checkTicks).run env s =
        ⟨.ok .success, maintainHerdLeader checkTicks, { s with world := w' }⟩ ∧
      s.world.Reviews env.agent b leader
        (((b.memory.get? .nearestVisibleAgents).bind MemoryValue.agents?).getD []) w' := by
  have hsatisfied : b.memory.satisfiesAll (maintainHerdLeader checkTicks).needs.requirements := by
    refine List.all_eq_true.mpr (List.forall_mem_cons.mpr ⟨?_, List.forall_mem_singleton.mpr ?_⟩)
    · exact Blackboard.hasValue_of_get? hleader
    · exact Blackboard.satisfies_registered_iff.mpr hnearby
  have hmeets : Meets (Task.maintainHerdLeader checkTicks) env s
      (fun done t => done = true ∧ ∃ w', t = { s with world := w' } ∧ s.world.Reviews env.agent b leader
        (((b.memory.get? .nearestVisibleAgents).bind MemoryValue.agents?).getD []) w') fun _ _ => False :=
    Task.meets_maintainHerdLeader hindexed hb hleader htick fun w' h => ⟨rfl, w', rfl, h⟩
  obtain ⟨_, _, hrun, rfl, w', rfl, hreviews⟩ := exists_of_meets hmeets
  refine ⟨w', ?_, hreviews⟩
  rw [run_of_satisfied hb hsatisfied]
  unfold turn act
  dsimp only
  rw [hrun]
  rfl

/-- Between its ticks a look at the leader changes nothing. On them the leader is dropped exactly where it may
not lead; else the best agent of a higher level that is seen takes its place, if there is one; else it stays.
Whoever leads after a look may lead then. -/
theorem maintainHerdLeader_improves (hindexed : s.world.Indexed) (hb : s.world.body? env.agent = some b)
    (hleader : b.memory.get? .herdLeader = some (.agent leader))
    (hnearby : b.memory.isRegistered .nearestVisibleAgents) :
    (s.world.now.isMultipleOf checkTicks = false →
      (maintainHerdLeader checkTicks).run env s = ⟨.ok .failure, maintainHerdLeader checkTicks, s⟩) ∧
    (s.world.now.isMultipleOf checkTicks = true →
      let ids := ((b.memory.get? .nearestVisibleAgents).bind MemoryValue.agents?).getD []
      let candidates := ids.filterMap (LeaderCandidate.ofWorld? s.world)
      ∃ w', (maintainHerdLeader checkTicks).run env s =
          ⟨.ok .success, maintainHerdLeader checkTicks, { s with world := w' }⟩ ∧
        (w'.remembered? env.agent .herdLeader = none ↔ ¬ s.world.MayLead b leader) ∧
        (∀ view, s.world.view? leader = some view → s.world.MayLead b leader →
          ((∃ c ∈ candidates, c.Eligible b.view b.herd (some view.level)) →
            ∃ c : LeaderCandidate, c.Best b.view b.herd (some view.level) candidates ∧ c.view.id ∈ ids ∧
              c.view.id ≠ leader ∧ w'.remembered? env.agent .herdLeader = some (.agent c.view.id)) ∧
          ((∀ c ∈ candidates, ¬ c.Eligible b.view b.herd (some view.level)) →
            w'.remembered? env.agent .herdLeader = some (.agent leader))) ∧
        ∀ other, w'.remembered? env.agent .herdLeader = some (.agent other) → w'.MayLead b other) := by
  refine ⟨run_maintainHerdLeader_of_idle, ?_⟩
  intro htick ids candidates
  obtain ⟨w', hrun, hreviews⟩ := reviews_maintainHerdLeader hindexed hb hleader hnearby htick
  refine ⟨w', hrun, ?_⟩
  have htouched : s.world.Touched (MayKeep [.herdLeader] none) env.agent w' := by
    have hleaf : s.world.Touched (MayKeep [.herdLeader] none) env.agent
        ((maintainHerdLeader checkTicks).run env s).state.world :=
      touched_run (maintainHerdLeader checkTicks) hindexed
    rw [hrun] at hleaf
    exact hleaf
  rcases hreviews.remembered? hb hleader with ⟨hunfit, hnone⟩ | ⟨view, hfit, hview, hsome⟩
  · refine ⟨⟨fun _ => hunfit, fun _ => hnone⟩, fun _ _ hfit => absurd hfit hunfit, ?_⟩
    intro other hother
    rw [hnone] at hother
    cases hother
  · refine ⟨⟨fun hnone => ?_, fun hunfit => absurd hfit hunfit⟩, ?_, ?_⟩
    · rw [hsome] at hnone
      cases hnone
    · intro view' hview' _
      cases hview.symm.trans hview'
      constructor
      · rintro ⟨c, hc, heligible⟩
        cases hbest : bestLeader? b.view b.herd candidates (some view.level) with
        | none => exact absurd heligible (bestLeader?_eq_none_iff.mp hbest c hc)
        | some better =>
          obtain ⟨c', hc', rfl⟩ := exists_best_of_bestLeader? hbest
          refine ⟨c', hc', (World.of_mem_candidates hindexed hc'.mem).1,
            World.ne_of_eligible hindexed hview hc'.mem hc'.eligible, ?_⟩
          rw [hsome, hbest]
          rfl
      · intro hnobody
        rw [hsome, bestLeader?_eq_none_iff.mpr hnobody]
        rfl
    · intro other hother
      rw [hsome] at hother
      cases hother
      refine World.MayLead.of_touched ?_ (hindexed _ b hb) htouched
      cases hbest : bestLeader? b.view b.herd candidates (some view.level) with
      | none => exact hfit
      | some better =>
        obtain ⟨c, hc, rfl⟩ := exists_best_of_bestLeader? hbest
        exact World.mayLead_of_eligible hindexed hc.mem hc.eligible

/-- A wolf that follows another remembers having seen that one, a third of a still higher level, twice, a dead
one, and one that is gone. -/
theorem maintainHerdLeader_improves_wolves :
    let wolf : Template :=
      { name := "wolf", species := "wolf", enabled := true, maxHealth := 20.0
        defaultActivity := .core, overrides := .empty, declarations := []
        herd := { toleratedLeaders := [⟨"wolf", false⟩] }
        activities := [⟨.core, [⟨0, .leaf (.maintainHerdLeader (.number 1.0))⟩]⟩] }
    let engine : Engine := { templates := { templates := .ofList [("wolf", wolf)] } }
    let scenario : Scenario :=
      { agents := [{ template := "wolf", position := ⟨0.0, 0.0, 0.0⟩ },
          { template := "wolf", level := 3, position := ⟨1.0, 0.0, 0.0⟩ },
          { template := "wolf", level := 5, position := ⟨2.0, 0.0, 0.0⟩ },
          { template := "wolf", level := 9, position := ⟨1.0, 0.0, 0.0⟩, health := some 0.0 }] }
    let start := Simulation.ofScenario engine scenario
    let stage : Stage := {
      world := start.world.mapMemory ⟨1⟩ fun m =>
        (m.put .herdLeader (some (.agent ⟨2⟩, none))).put .nearestVisibleAgents
          (some (.agents [⟨9⟩, ⟨4⟩, ⟨2⟩, ⟨3⟩, ⟨3⟩], none))
      random := start.random }
    let env : ActEnv := { agent := ⟨1⟩, chainLimit := 8, table := .empty }
    ∃ b, stage.world.Indexed ∧ stage.world.body? ⟨1⟩ = some b ∧
      b.memory.get? .herdLeader = some (.agent ⟨2⟩) ∧ b.memory.isRegistered .nearestVisibleAgents ∧
      stage.world.now.isMultipleOf 1 = true ∧
      ∃ w', (maintainHerdLeader 1).run env stage =
          ⟨.ok .success, maintainHerdLeader 1, { stage with world := w' }⟩ ∧
        ∃ other, other ≠ ⟨2⟩ ∧ w'.remembered? ⟨1⟩ .herdLeader = some (.agent other) ∧ w'.MayLead b other := by
  intro wolf engine scenario start stage env
  have hindexed : stage.world.Indexed := by
    have hentries : ∀ entry ∈ stage.world.bodies.toList, entry.2.view.id = entry.1 := by decide +kernel
    intro id b hb
    exact hentries (id, b) (SortedMap.get?_eq_some_iff.mp hb)
  have htick : stage.world.now.isMultipleOf 1 = true := by decide +kernel
  obtain ⟨b, view, hb, hleader, hnearby, hview, hfit, hany⟩ : ∃ b view,
      stage.world.body? env.agent = some b ∧ b.memory.get? .herdLeader = some (.agent ⟨2⟩) ∧
      b.memory.isRegistered .nearestVisibleAgents = true ∧ stage.world.view? ⟨2⟩ = some view ∧
      Task.isFitLeader stage.world b.view b.herd view ⟨2⟩ = true ∧
      ((((b.memory.get? .nearestVisibleAgents).bind MemoryValue.agents?).getD []).filterMap
        (LeaderCandidate.ofWorld? stage.world)).any
          (LeaderCandidate.qualifies b.view b.herd (some view.level)) = true := by
    refine ⟨(stage.world.body? ⟨1⟩).get (by decide +kernel), (stage.world.view? ⟨2⟩).get (by decide +kernel),
      (Option.some_get _).symm, by decide +kernel, by decide +kernel, (Option.some_get _).symm,
      by decide +kernel, by decide +kernel⟩
  have hmay : stage.world.MayLead b ⟨2⟩ := (World.isFitLeader_iff hindexed hview).mp hfit
  obtain ⟨c, hc, hqualifies⟩ := List.any_eq_true.mp hany
  obtain ⟨w', hrun, _, hbest, hled⟩ := (maintainHerdLeader_improves hindexed hb hleader hnearby).2 htick
  obtain ⟨c', _, _, hne, hremembered⟩ :=
    (hbest view hview hmay).1 ⟨c, hc, LeaderCandidate.qualifies_iff.mp hqualifies⟩
  exact ⟨b, hindexed, hb, hleader, hnearby, htick, w', hrun, c'.view.id, hne, hremembered,
    hled _ hremembered⟩

end Leaf

end Menagerie
