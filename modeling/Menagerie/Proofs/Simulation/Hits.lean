import Menagerie.Proofs.Simulation.Course

/-!
# Scripted hits are dealt on time

The hits of a scenario wait, the earliest first, and those of one tick in the order in which they are
listed (`Agenda`). Each tick deals those at the front whose tick has come (`Simulation.struck`), so that
in every state that a run reaches the hits that wait are those whose turn is still to come
(`Reachable.onTime`). Counted from the start of a scenario, each hit is dealt once, in the tick that it
names; those of tick zero are dealt in the first one (`Simulation.hits_on_time`).
-/

namespace Menagerie

/-- Whether some hits are those of a list whose ticks are of a kind: the earliest first, and those of one
tick in the order of the list. -/
structure Agenda (hits : List ScriptedHit) (ticks : Tick → Prop) (picked : List ScriptedHit) : Prop where
  ascending : picked.Pairwise fun a b => a.tick ≤ b.tick
  all : ∀ tick, ticks tick →
    picked.filter (fun h => h.tick = tick) = hits.filter (fun h => h.tick = tick)
  only : ∀ h ∈ picked, ticks h.tick

namespace Agenda

variable {hits picked : List ScriptedHit} {ticks ticks' : Tick → Prop}

theorem congr (h : Agenda hits ticks picked) (hticks : ∀ tick, ticks tick ↔ ticks' tick) :
    Agenda hits ticks' picked :=
  ⟨h.ascending, fun tick htick => h.all tick ((hticks tick).mpr htick),
    fun hit hhit => (hticks hit.tick).mp (h.only hit hhit)⟩

theorem subset (h : Agenda hits ticks picked) : picked ⊆ hits := by
  intro hit hpicked
  have hof : hit ∈ picked.filter fun h => h.tick = hit.tick :=
    List.mem_filter.mpr ⟨hpicked, decide_eq_true rfl⟩
  rw [h.all hit.tick (h.only hit hpicked)] at hof
  exact (List.mem_filter.mp hof).1

/-- Sorting hits by their ticks leaves those of one tick in their order. -/
theorem of_mergeSort (hits : List ScriptedHit) :
    Agenda hits (fun _ => True) (hits.mergeSort fun a b => a.tick ≤ b.tick) := by
  have htrans : ∀ a b c : ScriptedHit, decide (a.tick ≤ b.tick) → decide (b.tick ≤ c.tick) →
      decide (a.tick ≤ c.tick) := by
    intro a b c hab hbc
    exact decide_eq_true (Tick.le_trans (of_decide_eq_true hab) (of_decide_eq_true hbc))
  have htotal : ∀ a b : ScriptedHit, decide (a.tick ≤ b.tick) || decide (b.tick ≤ a.tick) := by
    intro a b
    rw [Bool.or_eq_true, decide_eq_true_iff, decide_eq_true_iff]
    exact UInt64.le_total a.tick.count b.tick.count
  refine ⟨(List.pairwise_mergeSort htrans htotal hits).imp of_decide_eq_true, fun tick _ => ?_,
    fun _ _ => trivial⟩
  -- The hits of one tick are in order already, so that sorting keeps them as a sublist.
  have hequal : (hits.filter fun h => h.tick = tick).Pairwise fun a b => decide (a.tick ≤ b.tick) := by
    refine List.pairwise_of_forall_mem_list fun a ha b hb => decide_eq_true ?_
    rw [of_decide_eq_true (List.mem_filter.mp ha).2, of_decide_eq_true (List.mem_filter.mp hb).2]
    exact Tick.le_refl tick
  have hsub := (List.sublist_mergeSort htrans htotal hequal List.filter_sublist).filter
    (fun h => decide (h.tick = tick))
  rw [List.filter_filter] at hsub
  simp only [Bool.and_self] at hsub
  exact (hsub.eq_of_length ((List.mergeSort_perm _ _).filter _).length_eq.symm).symm

/-- Picking by the tick from hits in order leaves them in order. -/
theorem filter (h : Agenda hits ticks picked) (p : Tick → Bool) :
    Agenda hits (fun tick => ticks tick ∧ p tick) (picked.filter fun h => p h.tick) := by
  refine ⟨h.ascending.filter _, ?_, ?_⟩
  · rintro tick ⟨htick, hp⟩
    rw [List.filter_filter, ← h.all tick htick]
    refine List.filter_congr fun hit _ => ?_
    by_cases heq : hit.tick = tick
    · rw [heq, hp, Bool.and_true]
    · rw [decide_eq_false heq, Bool.false_and]
  · intro hit hhit
    obtain ⟨hmem, hp⟩ := List.mem_filter.mp hhit
    exact ⟨h.only hit hmem, hp⟩

end Agenda

/-- Of hits in order, those up to a tick come first. -/
theorem takeWhile_eq_filter {hits : List ScriptedHit} (now : Tick)
    (h : hits.Pairwise fun a b => a.tick ≤ b.tick) :
    hits.takeWhile (fun h => h.tick ≤ now) = hits.filter (fun h => h.tick ≤ now) ∧
      hits.dropWhile (fun h => h.tick ≤ now) = hits.filter (fun h => !decide (h.tick ≤ now)) := by
  induction hits with
  | nil => exact ⟨rfl, rfl⟩
  | cons hit rest ih =>
    obtain ⟨hhit, hrest⟩ := List.pairwise_cons.mp h
    by_cases hdue : hit.tick ≤ now
    · obtain ⟨htake, hdrop⟩ := ih hrest
      simp [hdue, htake, hdrop]
    · have hlater : ∀ other ∈ rest, ¬ other.tick ≤ now :=
        fun other hother hle => hdue (Tick.le_trans (hhit other hother) hle)
      have hnone : rest.filter (fun h => h.tick ≤ now) = [] :=
        List.filter_eq_nil_iff.mpr fun other hother => by simpa using hlater other hother
      have hall : rest.filter (fun h => !decide (h.tick ≤ now)) = rest :=
        List.filter_eq_self.mpr fun other hother => by simpa using hlater other hother
      simp [hdue, hnone, hall]

/-- Deals hits in order. -/
def World.strike (w : World) (hits : List ScriptedHit) : World :=
  hits.foldl (fun w h => w.damage h.attacker h.victim h.damage) w

namespace Simulation

variable {engine : Engine} {scenario : Scenario} {s s' : Simulation}

/-! ## A tick -/

/-- The hits that are dealt in the next tick. -/
def struck (s : Simulation) : List ScriptedHit :=
  s.hits.takeWhile fun h => h.tick ≤ s.world.advance.now

/-- The hits of a tick are dealt once the clock has advanced, before sensors sense. -/
theorem world_whenSensing (s : Simulation) : s.whenSensing.world = s.world.advance.strike s.struck := rfl

theorem hits_step (s : Simulation) :
    s.step.hits = s.hits.dropWhile fun h => h.tick ≤ s.world.advance.now := by
  show s.hits.drop (s.hits.takeWhile fun h => h.tick ≤ s.world.advance.now).length = _
  conv_lhs =>
    arg 2
    rw [← List.takeWhile_append_dropWhile (p := fun h => h.tick ≤ s.world.advance.now) (l := s.hits)]
  rw [List.drop_left]

theorem struck_append_hits (s : Simulation) : s.struck ++ s.step.hits = s.hits := by
  rw [hits_step]
  exact List.takeWhile_append_dropWhile

/-- After a tick the time is what the clock advanced to. -/
theorem Orderly.now_step (h : s.Orderly) : s.step.world.now = s.world.now.next := by
  have hthought : s.whenSettling.world.clock = s.whenThinking.world.clock :=
    (h.rel_think (fun w w' => w'.clock = w.clock) (fun _ => rfl) (fun h h' => h'.trans h)
      fun r _ horderly _ => (r.touched horderly.indexed).clock).2
  have hclock : s.step.world.clock = s.world.advance.clock := by
    calc s.step.world.clock
      _ = s.whenSettling.world.settle.clock := (World.unfolds_move _).steady.clock
      _ = s.whenSettling.world.clock := (World.unfolds_settle _).steady.clock
      _ = s.whenThinking.world.clock := hthought
      _ = s.whenSensing.world.clock := s.unfolds_whenThinking.steady.clock
      _ = s.world.advance.clock := (unfolds_whenSensing World.Halting s).steady.clock
  exact congrArg Clock.now hclock

/-! ## Runs -/

/-- Whether the hits of some tick are still to come at a time; those of tick zero come in the first tick. -/
def Awaits (now tick : Tick) : Prop := now.count.toNat < max tick.count.toNat 1

/-- Once a tick was made, what is due is not awaited. -/
theorem awaits_next_iff (now tick : Tick) : Awaits now.next tick ↔ ¬ tick ≤ now.next := by
  have hnext : now.next.count.toNat = min (now.count.toNat + 1) (UInt64.size - 1) := now.toNat_after 1
  have hsize : UInt64.size = 18446744073709551616 := rfl
  have hle : tick ≤ now.next ↔ tick.count.toNat ≤ now.next.count.toNat := UInt64.le_iff_toNat_le
  rw [hle, Awaits]
  omega

theorem Awaits.of_next {now tick : Tick} (h : Awaits now.next tick) : Awaits now tick :=
  Nat.lt_of_le_of_lt (UInt64.le_iff_toNat_le.mp (now.le_after 1)) h

/-- Whether the hits that wait are those of a scenario that are still to come. -/
def OnTime (scenario : Scenario) (s : Simulation) : Prop :=
  Agenda scenario.hits (Awaits s.world.now) s.hits

/-- A tick deals the hits that are no longer awaited after it. -/
theorem OnTime.struck (h : s.OnTime scenario) :
    Agenda scenario.hits (fun tick => Awaits s.world.now tick ∧ ¬ Awaits s.world.now.next tick)
      s.struck := by
  have hdue : s.struck = s.hits.filter fun h => h.tick ≤ s.world.now.next :=
    (takeWhile_eq_filter _ h.ascending).1
  rw [hdue]
  refine (h.filter fun tick => tick ≤ s.world.now.next).congr fun tick => ?_
  rw [awaits_next_iff, Decidable.not_not, decide_eq_true_iff]

/-- A tick leaves the hits that are still awaited after it. -/
theorem OnTime.step (h : s.OnTime scenario) (horderly : s.Orderly) : s.step.OnTime scenario := by
  have hlater : s.step.hits = s.hits.filter fun h => !decide (h.tick ≤ s.world.now.next) :=
    s.hits_step.trans (takeWhile_eq_filter _ h.ascending).2
  rw [OnTime, hlater, horderly.now_step]
  refine (h.filter fun tick => !decide (tick ≤ s.world.now.next)).congr fun tick => ?_
  rw [Bool.not_eq_true', decide_eq_false_iff_not, ← awaits_next_iff]
  exact and_iff_right_of_imp Awaits.of_next

/-- Spawns concern neither the hits that wait nor the time. -/
theorem hits_now_spawn (s : Simulation) (spawn : Spawn) :
    (s.spawn spawn).2.hits = s.hits ∧ (s.spawn spawn).2.world.now = s.world.now := by
  obtain ⟨_, random, heq, _⟩ | ⟨id, t, brain, random, _, _, heq⟩ := s.spawn_cases spawn
  · rw [heq]
    exact ⟨rfl, rfl⟩
  · rw [heq]
    exact ⟨rfl, rfl⟩

theorem hits_now_ofScenario (engine : Engine) (scenario : Scenario) :
    (ofScenario engine scenario).hits = scenario.hits.mergeSort (fun a b => a.tick ≤ b.tick) ∧
      (ofScenario engine scenario).world.now = .zero := by
  refine foldl_spawnOrNote (p := fun s => s.hits = _ ∧ s.world.now = .zero) ?_ (fun _ _ h => h)
    ⟨rfl, rfl⟩
  rintro s spawn - ⟨hhits, hnow⟩
  have hsame := s.hits_now_spawn spawn
  exact ⟨hsame.1.trans hhits, hsame.2.trans hnow⟩

theorem OnTime.spawn (h : s.OnTime scenario) (spawn : Spawn) : (s.spawn spawn).2.OnTime scenario := by
  obtain ⟨hhits, hnow⟩ := s.hits_now_spawn spawn
  rw [OnTime, hhits, hnow]
  exact h

theorem onTime_ofScenario (engine : Engine) (scenario : Scenario) :
    (ofScenario engine scenario).OnTime scenario := by
  obtain ⟨hhits, hnow⟩ := hits_now_ofScenario engine scenario
  rw [OnTime, hhits, hnow]
  refine (Agenda.of_mergeSort scenario.hits).congr fun tick => iff_of_true trivial ?_
  exact Nat.lt_of_lt_of_le Nat.zero_lt_one (Nat.le_max_right _ _)

/-- In every state that a run reaches, the hits that wait are those that are still to come. -/
theorem Reachable.onTime (h : Reachable engine scenario s) : s.OnTime scenario := by
  induction h with
  | start => exact onTime_ofScenario engine scenario
  | spawn spawn _ ih => exact ih.spawn spawn
  | despawn _ hs' ih =>
    rw [eq_of_despawn hs']
    exact ih
  | @hit s s' attacker victim damage _ hs' ih =>
    have hsteady : s.world.Steady World.Halting (s.world.damage attacker victim damage) :=
      s.world.steady_damage attacker victim damage
    have hnow : (s.world.damage attacker victim damage).now = s.world.now :=
      congrArg Clock.now hsteady.clock
    rw [eq_of_hit hs', OnTime, hnow]
    exact ih
  | step hs ih => exact ih.step hs.orderly

/-! ## Runs -/

theorem run_succ (s : Simulation) (n : Nat) : s.run (n + 1) = (s.run n).step := by
  induction n generalizing s with
  | zero => rfl
  | succ n ih =>
    rw [run, ih, run]

theorem Reachable.run (h : Reachable engine scenario s) (n : Nat) :
    Reachable engine scenario (s.run n) := by
  induction n with
  | zero => exact h
  | succ n ih =>
    rw [run_succ]
    exact ih.step

/-- From the start of a scenario the time is the number of ticks, as long as it is counted. -/
theorem toNat_now_run (engine : Engine) (scenario : Scenario) {n : Nat} (hn : n < UInt64.size) :
    ((ofScenario engine scenario).run n).world.now.count.toNat = n := by
  induction n with
  | zero => exact congrArg (fun t : Tick => t.count.toNat) (hits_now_ofScenario engine scenario).2
  | succ n ih =>
    rw [run_succ, (Reachable.start.run n).orderly.now_step]
    refine (Tick.toNat_after _ 1).trans ?_
    rw [ih (Nat.lt_of_succ_lt hn)]
    exact Nat.min_eq_left (Nat.le_sub_one_of_lt hn)

/-- The hits dealt so far and those that wait are all hits there are. -/
theorem struck_append_hits_run (s : Simulation) (n : Nat) :
    ((List.range n).flatMap fun i => (s.run i).struck) ++ (s.run n).hits = s.hits := by
  induction n with
  | zero => rfl
  | succ n ih =>
    rw [List.range_succ, List.flatMap_append, List.flatMap_singleton, List.append_assoc, run_succ,
      struck_append_hits, ih]

/-- After so many ticks of a scenario the hits that wait are those of later ticks, where tick zero counts as
the first one. Each tick deals the hits of its number, once the clock has advanced and before sensors sense;
and no hit is dealt twice, or gets lost. Hits wait and are dealt in the order of their ticks, and those of
one tick in the order of the scenario. -/
theorem hits_on_time (engine : Engine) (scenario : Scenario) {n : Nat} (hn : n < UInt64.size - 1) :
    let s (i : Nat) := (ofScenario engine scenario).run i
    Agenda scenario.hits (fun tick => n < max tick.count.toNat 1) (s n).hits ∧
      (∀ i < n, (s i).whenSensing.world = (s i).world.advance.strike (s i).struck ∧
        Agenda scenario.hits (fun tick => max tick.count.toNat 1 = i + 1) (s i).struck) ∧
      (((List.range n).flatMap fun i => (s i).struck) ++ (s n).hits).Perm scenario.hits := by
  intro s
  have reachable (i : Nat) : Reachable engine scenario (s i) := Reachable.start.run i
  have hnow (i : Nat) (hi : i ≤ n) : (s i).world.now.count.toNat = i :=
    toNat_now_run engine scenario (by omega)
  refine ⟨?_, fun i hi => ⟨(s i).world_whenSensing, ?_⟩, ?_⟩
  · refine (reachable n).onTime.congr fun tick => ?_
    rw [Awaits, hnow n (Nat.le_refl n)]
  · refine (reachable i).onTime.struck.congr fun tick => ?_
    have hnext : (s i).world.now.next.count.toNat = i + 1 := by
      refine (Tick.toNat_after _ 1).trans ?_
      rw [hnow i (Nat.le_of_lt hi)]
      exact Nat.min_eq_left (Nat.le_trans (Nat.succ_le_of_lt hi) (Nat.le_of_lt hn))
    rw [Awaits, Awaits, hnow i (Nat.le_of_lt hi), hnext]
    omega
  · rw [struck_append_hits_run, (hits_now_ofScenario engine scenario).1]
    exact List.mergeSort_perm _ _

/-- Of hits that are listed out of order, that of tick zero and the two of tick one, in their order, are
dealt in the first tick, and that of tick three waits after the second. -/
theorem hits_on_time_unsorted :
    let hits : List ScriptedHit :=
      [⟨⟨3⟩, ⟨2⟩, ⟨1⟩, 1.0⟩, ⟨⟨1⟩, ⟨2⟩, ⟨1⟩, 2.0⟩, ⟨⟨0⟩, ⟨2⟩, ⟨1⟩, 3.0⟩, ⟨⟨1⟩, ⟨2⟩, ⟨1⟩, 4.0⟩]
    let s (i : Nat) := (ofScenario {} { hits }).run i
    2 < UInt64.size - 1 ∧
      (s 0).struck.filter (fun h => h.tick = ⟨0⟩) = [⟨⟨0⟩, ⟨2⟩, ⟨1⟩, 3.0⟩] ∧
      (s 0).struck.filter (fun h => h.tick = ⟨1⟩) = [⟨⟨1⟩, ⟨2⟩, ⟨1⟩, 2.0⟩, ⟨⟨1⟩, ⟨2⟩, ⟨1⟩, 4.0⟩] ∧
      (s 0).struck.Pairwise (fun a b => a.tick ≤ b.tick) ∧
      (s 2).hits.filter (fun h => h.tick = ⟨3⟩) = [⟨⟨3⟩, ⟨2⟩, ⟨1⟩, 1.0⟩] ∧
      ∀ h ∈ (s 2).hits, 2 < max h.tick.count.toNat 1 := by
  intro hits s
  have hn : 2 < UInt64.size - 1 := by decide
  obtain ⟨hwaiting, hdealt, _⟩ := hits_on_time {} { hits } hn
  have hfirst := (hdealt 0 (by decide)).2
  exact ⟨hn, (hfirst.all ⟨0⟩ (by decide)).trans (by decide), (hfirst.all ⟨1⟩ (by decide)).trans (by decide),
    hfirst.ascending, (hwaiting.all ⟨3⟩ (by decide)).trans (by decide), hwaiting.only⟩

/-- Before the first tick a hit of tick zero waits, though its tick is not later than the number of ticks so
far, and nobody has been hit. -/
theorem hits_of_zero_wait_wolf :
    let wolf : Template :=
      { name := "wolf", species := "wolf", enabled := true, maxHealth := 20.0
        defaultActivity := .idle, overrides := .empty, declarations := [], herd := {}
        activities := [⟨.idle, [⟨0, .leaf .doNothing⟩]⟩] }
    let engine : Engine := { templates := { templates := .ofList [("wolf", wolf)] } }
    let scenario : Scenario :=
      { agents := [{ id := some ⟨1⟩, template := "wolf", position := ⟨0, 0, 0⟩ }]
        hits := [⟨⟨0⟩, ⟨2⟩, ⟨1⟩, 3.0⟩] }
    let s := (ofScenario engine scenario).run 0
    ¬ Agenda scenario.hits (fun tick => 0 < tick.count.toNat) s.hits ∧
      (s.world.body? ⟨1⟩).map (fun b => (b.view.health, b.lastHit)) = some (20.0, none) := by
  intro wolf engine scenario s
  refine ⟨fun h => ?_, by decide +kernel⟩
  have hwaits : s.hits = [⟨⟨0⟩, ⟨2⟩, ⟨1⟩, 3.0⟩] :=
    (hits_now_ofScenario engine scenario).1.trans (List.mergeSort_singleton _)
  have hlater := h.only ⟨⟨0⟩, ⟨2⟩, ⟨1⟩, 3.0⟩ (by rw [hwaits]; exact List.mem_singleton_self _)
  exact absurd hlater (by decide)

end Simulation

end Menagerie
