import Menagerie.Proofs.Simulation.Seats
import Menagerie.Proofs.Task.Stay

/-!
# Nectar takes looks at one flower

The log of a seat (`Simulation.Logged`) tells of each tick since the agent came what run of its leaf there was,
if any. The looks at flowers in these runs are all that a leaf for pollination goes by: it completes a
pollination just when it looks, and the last looks, as many as are required, were all at one flower with the
agent near it (`Logged.pollinates_iff`). A look from afar and a look at another flower start over. A tick
without a look does not (`Reachable.leafAt?_step_eq`), even if the agent goes away from the flower and comes
back.
-/

namespace Menagerie

open FlowerStay

namespace Simulation

variable {engine : Engine} {scenario : Scenario} {s : Simulation} {seat : Seat} {r : LeafRun}
  {log : List (Option LeafRun)} {required cooldown : UInt64} {stay : FlowerStay}

/-- What the leaf in a seat did, tick after tick, since its agent came. -/
inductive Logged (engine : Engine) (scenario : Scenario) (seat : Seat) :
    Simulation → List (Option LeafRun) → Prop
  | start : Logged engine scenario seat (ofScenario engine scenario) []
  | step {s : Simulation} {log : List (Option LeafRun)} : Logged engine scenario seat s log →
      Logged engine scenario seat s.step (log ++ [s.turn? seat])
  /-- Something else is asked for, which the agent stays in its place for. -/
  | stays {s : Simulation} {log : List (Option LeafRun)} {request : Request} :
      Logged engine scenario seat s log → request ≠ .step →
      s.world.contains seat.agent ∧ request.Leaves seat.agent s →
      Logged engine scenario seat (s.attempt request).2 log
  /-- The agent comes or goes, or there is none. -/
  | anew {s : Simulation} {log : List (Option LeafRun)} {request : Request} :
      Logged engine scenario seat s log → request ≠ .step →
      ¬ (s.world.contains seat.agent ∧ request.Leaves seat.agent s) →
      Logged engine scenario seat (s.attempt request).2 []

theorem Logged.reachable (h : Logged engine scenario seat s log) : Reachable engine scenario s := by
  induction h with
  | start => exact .start
  | step _ ih => exact ih.step
  | stays _ _ _ ih => exact ih.attempt _
  | anew _ _ _ ih => exact ih.attempt _

/-- There is a log of each seat in every state that a run reaches. -/
theorem Reachable.exists_logged (h : Reachable engine scenario s) (seat : Seat) :
    ∃ log, Logged engine scenario seat s log := by
  obtain ⟨requests, rfl⟩ := reachable_iff.mp h
  clear h
  induction requests using List.reverseRecOn with
  | nil => exact ⟨[], .start⟩
  | append_singleton requests request ih =>
    obtain ⟨log, hlog⟩ := ih
    rw [attempts_concat]
    by_cases hstep : request = .step
    · rw [hstep]
      exact ⟨_, hlog.step⟩
    · by_cases hstays : ((ofScenario engine scenario).attempts requests).world.contains seat.agent ∧
        request.Leaves seat.agent ((ofScenario engine scenario).attempts requests)
      · exact ⟨_, hlog.stays hstep hstays⟩
      · exact ⟨_, hlog.anew hstep hstays⟩

/-- The looks at flowers in the runs of a log. -/
def looks (log : List (Option LeafRun)) : List Look := log.filterMap fun turn => turn.bind LeafRun.look?

theorem looks_concat (log : List (Option LeafRun)) (turn : Option LeafRun) :
    looks (log ++ [turn]) = looks log ++ (turn.bind LeafRun.look?).toList := by
  unfold looks
  rw [List.filterMap_append, List.filterMap_cons, List.filterMap_nil]
  cases turn.bind LeafRun.look? with
  | none => rfl
  | some look => rfl

/-- A tick leaves of the leaf in a seat what its look at a flower does, and where it does not look the leaf
stays as it is. -/
theorem Reachable.leafAt?_step_eq (h : Reachable engine scenario s) (seat : Seat) :
    s.step.leafAt? seat = (s.leafAt? seat).map fun l => l.looked ((s.turn? seat).bind LeafRun.look?) := by
  rw [h.leafAt?_step]
  cases hturn : s.turn? seat with
  | none =>
    have hsame (l : Leaf) : l.looked none = l := by cases l <;> rfl
    cases s.leafAt? seat with
    | none => rfl
    | some l => exact congrArg some (hsame l).symm
  | some r =>
    rw [h.leafAt?_of_turn? hturn]
    exact congrArg some r.left_eq

/-! ## Who looks has no nectar -/

/-- Who has nectar keeps it through every run of a tick. -/
theorem Reachable.hasNectar_of_mem_runs (honest : engine.Honest) (h : Reachable engine scenario s)
    {id : AgentId} (hnectar : s.world.HasNectar id) : ∀ r ∈ s.runs, r.stage.world.HasNectar id := by
  have hthinking := hnectar.of_lapses (h.lapses_whenThinking honest Trait.nectar.leftToLeaves)
  have hruns := Leads.forall_mem (p := fun w => w.HasNectar id)
    (fun r hr hbefore => hbefore.of_each (h.able_of_mem_runs honest r hr).does.each_retains)
    s.leads_think hthinking
  exact fun r hr => (hruns r hr).1

/-- A leaf looks at flowers only for an agent that has no nectar. -/
theorem Reachable.not_hasNectar_of_look? (honest : engine.Honest) (h : Reachable engine scenario s)
    (hr : r ∈ s.runs) {look : Look} (hlook : r.look? = some look) : ¬ s.world.HasNectar r.env.agent := by
  intro hnectar
  obtain ⟨required, cooldown, stay, hleaf⟩ : ∃ required cooldown stay,
      r.leaf = .pollinateFlower required cooldown stay := by
    unfold LeafRun.look? at hlook
    split at hlook
    · next heq => exact ⟨_, _, _, heq⟩
    · cases hlook
  obtain ⟨hsatisfied, _⟩ := (LeafRun.look?_eq_some_iff hleaf).mp hlook
  obtain ⟨memory, hmemory, hall⟩ := (Option.any_eq_true _ _).mp hsatisfied
  obtain ⟨b, hb, rfl⟩ := Option.map_eq_some_iff.mp hmemory
  have hrecorded := h.hasNectar_of_mem_runs honest hnectar r hr
  rw [World.HasNectar, World.state?_of_body? hb] at hrecorded
  rw [hleaf] at hall
  have hempty : (b.memory.state .hasNectar).isEmpty :=
    List.all_eq_true.mp hall (.empty .hasNectar) (.tail _ (.head _))
  rw [Option.some.inj hrecorded] at hempty
  cases hempty

/-- Who completes a pollination in a tick has nectar after it, and so has who had some before. -/
theorem Reachable.hasNectar_step (honest : engine.Honest) (h : Reachable engine scenario s) {id : AgentId}
    (hgained : s.world.HasNectar id ∨ ∃ r ∈ s.runs, r.Pollinates id) : s.step.world.HasNectar id := by
  by_contra hnone
  have hadded := h.add_countP_runs_le honest id
  have hzero : s.step.world.nectar id = 0 := if_neg hnone
  rcases hgained with hnectar | ⟨r, hr, hpollinates⟩
  · have hone : s.world.nectar id = 1 := if_pos hnectar
    omega
  · have hsome : 0 < s.runs.countP fun r => r.Pollinates id :=
      List.countP_pos_iff.mpr ⟨r, hr, decide_eq_true hpollinates⟩
    omega

/-! ## What a leaf has counted -/

/-- As long as an agent has no nectar, a leaf has counted the last looks of its log that were all at one flower
with the agent near it. -/
theorem Logged.counts (honest : engine.Honest) (h : Logged engine scenario seat s log)
    (hleaf : s.leafAt? seat = some (.pollinateFlower required cooldown stay)) :
    s.world.HasNectar seat.agent ∨ Counts required (looks log) stay := by
  induction h generalizing stay with
  | start =>
    obtain rfl : stay = {} := (fresh_ofScenario engine scenario seat.agent).of_leafAt? hleaf
    exact .inr (counts_empty required)
  | @step s log hlog ih =>
    rw [hlog.reachable.leafAt?_step_eq] at hleaf
    obtain ⟨l, hl, hlooked⟩ := Option.map_eq_some_iff.mp hleaf
    rw [looks_concat]
    cases hlook : (s.turn? seat).bind LeafRun.look? with
    | none =>
      rw [hlook] at hlooked
      obtain rfl : l = .pollinateFlower required cooldown stay := by
        cases l <;> exact hlooked
      rw [Option.toList_none, List.append_nil]
      exact (ih hl).imp_left fun hnectar => hlog.reachable.hasNectar_step honest (.inl hnectar)
    | some look =>
      obtain ⟨r, hturn, hr⟩ := Option.bind_eq_some_iff.mp hlook
      obtain ⟨hmem, hagent⟩ := hlog.reachable.mem_runs_of_turn? hturn
      have hown := hlog.reachable.leafAt?_of_turn? hturn
      rw [hl] at hown
      rw [hlook] at hlooked
      obtain ⟨before, rfl, rfl⟩ : ∃ before, l = .pollinateFlower required cooldown before ∧
          stay = (before.visit required look.2 look.1).1 := by
        cases l <;> cases hlooked
        exact ⟨_, rfl, rfl⟩
      rcases ih hl with hnectar | hcounts
      · exact .inl (hlog.reachable.hasNectar_step honest (.inl hnectar))
      · by_cases hfinished : (before.visit required look.2 look.1).2.2 = .finished
        · have hpollinates := (LeafRun.pollinates_iff_finished (Option.some.inj hown).symm hr).mpr hfinished
          exact .inl (hlog.reachable.hasNectar_step honest (.inr ⟨r, hmem, hagent ▸ hpollinates⟩))
        · exact .inr (hcounts.next hfinished)
  | @stays s log request hlog hnostep hstays ih =>
    have hsame : (s.attempt request).2.leafAt? seat = s.leafAt? seat := by
      unfold leafAt?
      rw [brain_attempt hnostep hstays.1 hstays.2]
    rw [hsame] at hleaf
    refine (ih hleaf).imp_left fun hnectar => ?_
    by_contra hnone
    have hadded := hlog.reachable.add_countP_runsOf_le honest hstays.2
    have hone : s.world.nectar seat.agent = 1 := if_pos hnectar
    have hzero : (s.attempt request).2.world.nectar seat.agent = 0 := if_neg hnone
    omega
  | anew hlog hnostep hmoves =>
    obtain rfl : stay = {} := (hlog.reachable.fresh_attempt hnostep hmoves).of_leafAt? hleaf
    exact .inr (counts_empty required)

/-- In a turn of a leaf its agent completes a pollination just when the leaf looks at a flower, and its last
looks, as many as are required, were all at one flower with the agent near it. Between these looks there may be
ticks in which the leaf did not look. With the pollination the agent has nectar, which it did not have before. -/
theorem Logged.pollinates_iff (honest : engine.Honest) (h : Logged engine scenario seat s log)
    (hturn : s.turn? seat = some r) (hleaf : r.leaf = .pollinateFlower required cooldown stay) :
    (r.Pollinates seat.agent ↔
      r.look?.isSome ∧ Lasted (max 1 required.toNat) (looks (log ++ [s.turn? seat]))) ∧
    (r.Pollinates seat.agent → ¬ s.world.HasNectar seat.agent ∧ s.step.world.HasNectar seat.agent) := by
  obtain ⟨hmem, hagent⟩ := h.reachable.mem_runs_of_turn? hturn
  have hown := h.reachable.leafAt?_of_turn? hturn
  rw [hleaf] at hown
  constructor
  · cases hlook : r.look? with
    | none =>
      refine iff_of_false (fun hpollinates => ?_) fun hlooked => nomatch hlooked.1
      obtain ⟨look, hsome⟩ := hpollinates.exists_look?
      rw [hlook] at hsome
      cases hsome
    | some look =>
      have hnone := hagent ▸ h.reachable.not_hasNectar_of_look? honest hmem hlook
      have hcounts := (h.counts honest hown).resolve_left hnone
      rw [looks_concat, hturn, Option.bind_some, hlook, Option.toList_some, ← hcounts.finished_iff look,
        ← LeafRun.pollinates_iff_finished hleaf hlook, hagent]
      exact (and_iff_right rfl).symm
  · intro hpollinates
    obtain ⟨look, hlook⟩ := hpollinates.exists_look?
    exact ⟨hagent ▸ h.reachable.not_hasNectar_of_look? honest hmem hlook,
      h.reachable.hasNectar_step honest (.inr ⟨r, hmem, hpollinates⟩)⟩

/-- A bee that stands at a flower has nectar after two ticks, as two looks are required. -/
theorem Logged.pollinates_iff_bee :
    let bee : Template :=
      { name := "bee", species := "bee", enabled := true, maxHealth := 20.0
        defaultActivity := .core, overrides := .empty, declarations := [], herd := {}
        activities := [⟨.core, [⟨0, .leaf (.pollinateFlower (.number 2.0) (.number 1.0))⟩]⟩] }
    let engine : Engine :=
      { settings := { sensors := { flowerInterval := 1 } }
        templates := { templates := .ofList [("bee", bee)] } }
    let scenario : Scenario :=
      { agents := [{ template := "bee", position := ⟨0, 64, 0⟩ }]
        features := [⟨.flower, ⟨0, 64, 0⟩⟩] }
    let start := ofScenario engine scenario
    let s := start.step
    let seat : Seat := ⟨⟨1⟩, .core, 0⟩
    Logged engine scenario seat s [start.turn? seat] ∧
      (∃ r, s.turn? seat = some r ∧
        r.leaf = .pollinateFlower 2 1 ⟨1, some ⟨0, 64, 0⟩⟩ ∧ r.Pollinates ⟨1⟩) ∧
      Lasted 2 (looks [start.turn? seat, s.turn? seat]) ∧
      ¬ s.world.HasNectar ⟨1⟩ ∧ s.step.world.HasNectar ⟨1⟩ := by
  intro bee engine scenario start s seat
  have honest : engine.Honest := by
    rintro kind _ ⟨⟩
    exact Sensor.honest_ofKind _ kind
  have hlogged : Logged engine scenario seat s [start.turn? seat] := .step .start
  have hleaf : (s.turn? seat).map LeafRun.leaf = some (.pollinateFlower 2 1 ⟨1, some ⟨0, 64, 0⟩⟩) := by
    decide +kernel
  have hpollinates : (s.turn? seat).any fun r => r.Pollinates ⟨1⟩ := by decide +kernel
  obtain ⟨r, hturn, hleaf⟩ := Option.map_eq_some_iff.mp hleaf
  rw [hturn] at hpollinates
  have hpollinates : r.Pollinates ⟨1⟩ := of_decide_eq_true hpollinates
  obtain ⟨hiff, hnectar⟩ := Logged.pollinates_iff honest hlogged hturn hleaf
  exact ⟨hlogged, ⟨r, hturn, hleaf, hpollinates⟩, (hiff.mp hpollinates).2, hnectar hpollinates⟩

/-- A bee looks at a flower, is struck and flees from it, walks back, and looks again. Two looks are required,
and the second completes the pollination, though two ticks have passed in which the bee did not look, and it was
far from the flower in the last one. -/
theorem nectar_after_flight_bee :
    let template (name : String) (tasks : List TaskSpec) : Template :=
      { name, species := name, enabled := true, maxHealth := 20.0, defaultActivity := .core
        overrides := .empty, declarations := [], herd := {}
        activities := [⟨.core, tasks.map fun task => ⟨0, task⟩⟩] }
    let bee := template "bee" [.leaf (.fleeAttacker (.bool true) (.number 5.0) (.number 5.0)),
      .leaf (.pathToFlower (.number 5.0)), .leaf (.pollinateFlower (.number 2.0) (.number 1.0))]
    let wolf := template "wolf" [.leaf .doNothing]
    let engine : Engine :=
      { settings := { sensors := { flowerInterval := 1, hurtMemoryTicks := 1 } }
        templates := { templates := .ofList [("bee", bee), ("wolf", wolf)] } }
    let flower : Position := ⟨0, 64, 0⟩
    let scenario : Scenario :=
      { agents := [{ template := "bee", position := flower }, { template := "wolf", position := flower }]
        features := [⟨.flower, flower⟩], hits := [⟨⟨2⟩, ⟨2⟩, ⟨1⟩, 3.0⟩] }
    let s (ticks : Nat) := (ofScenario engine scenario).run ticks
    let seat : Seat := ⟨⟨1⟩, .core, 2⟩
    Logged engine scenario seat (s 3) [(s 0).turn? seat, (s 1).turn? seat, (s 2).turn? seat] ∧
      ((s 0).turn? seat).isSome ∧ ((s 1).turn? seat).isNone ∧ ((s 2).turn? seat).isNone ∧
      ((s 2).world.position? ⟨1⟩).any (fun p => p.distance flower > Task.pollinateRange) ∧
      ((s 3).turn? seat).any (fun r =>
        r.Pollinates ⟨1⟩ && r.leaf == .pollinateFlower 2 1 ⟨1, some flower⟩) ∧
      (s 4).world.HasNectar ⟨1⟩ := by
  intro template bee wolf engine flower scenario s seat
  exact ⟨.step (.step (.step .start)), by decide +kernel, by decide +kernel, by decide +kernel,
    by decide +kernel, by decide +kernel, by decide +kernel⟩

end Simulation

end Menagerie
