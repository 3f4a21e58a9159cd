import Menagerie.Proofs.Simulation.Coherence

/-!
# Faults come of values alone

In every state that a run reaches with the built-in sensors, no sensor fails in the next tick, and
every fault that the tick raises depends on what value a parameter has for an agent: it cannot be
evaluated, or it is a range that is not finite. The faults that a tick raises are listed by
`Simulation.raised`; they are as many as it adds to the count of faults (`faults_step`).
-/

namespace Menagerie.Simulation

variable {engine : Engine} {scenario : Scenario} {s : Simulation}

/-! ## The faults of a tick -/

/-- The faults that brains raise, which think one after the other. -/
def raisedFrom (limit : Nat) : List (AgentId × Brain) → Stage → List TaskFault
  | [], _ => []
  | (id, brain) :: rest, stage =>
    (if stage.world.isAlive id then brain.raised limit stage else []) ++
      raisedFrom limit rest (thinkFor limit id brain stage).2

/-- The faults that the next tick raises. -/
def raised (s : Simulation) : List TaskFault :=
  raisedFrom s.whenThinking.engine.chainLimit s.whenThinking.brains.toList
    ⟨s.whenThinking.world, s.whenThinking.random⟩

theorem faults_thinkFor (limit : Nat) (id : AgentId) (brain : Brain) (stage : Stage) :
    (thinkFor limit id brain stage).1.faults =
      brain.faults + (if stage.world.isAlive id then brain.raised limit stage else []).length := by
  unfold thinkFor
  split
  · exact Brain.faults_tick limit brain stage
  · rfl

theorem totalFaults_mapWithState (limit : Nat) (entries : List (AgentId × Brain)) (stage : Stage) :
    totalFaults Brain.faults
        ((SortedMap.Entries.mapWithState (thinkFor limit) entries stage).1.map Prod.snd) =
      totalFaults Brain.faults (entries.map Prod.snd) + (raisedFrom limit entries stage).length := by
  induction entries generalizing stage with
  | nil => rfl
  | cons entry rest ih =>
    obtain ⟨id, brain⟩ := entry
    simp only [SortedMap.Entries.mapWithState, raisedFrom, List.map_cons, totalFaults_cons,
      faults_thinkFor, ih, List.length_append]
    omega

/-- A tick adds to the count the faults that it raises. -/
theorem faults_step (s : Simulation) : s.step.faults = s.faults + s.raised.length :=
  totalFaults_mapWithState s.whenThinking.engine.chainLimit s.whenThinking.brains.toList
    ⟨s.whenThinking.world, s.whenThinking.random⟩

/-- Brains of a coherent world raise no fault but because of a value. -/
theorem raisedFrom_ofValue {w : World} {brains : SortedMap AgentId Brain} {limit : Nat}
    (h : Coherent w brains) {entries : List (AgentId × Brain)}
    (hentries : ∀ entry ∈ entries, entry ∈ brains.toList) {stage : Stage} (hstage : Staged w stage) :
    ∀ fault ∈ raisedFrom limit entries stage, fault.cause.OfValue := by
  induction entries generalizing stage with
  | nil => exact fun fault hfault => nomatch hfault
  | cons entry rest ih =>
    obtain ⟨id, brain⟩ := entry
    rw [List.forall_mem_cons] at hentries
    obtain ⟨hnext, _, hraised⟩ := conducted_thinkFor limit h
      (SortedMap.get?_eq_some_iff.mpr hentries.1) hstage
    rw [raisedFrom]
    refine List.forall_mem_append.mpr ⟨?_, ih hentries.2 hnext⟩
    split
    · next halive => exact hraised halive
    · exact fun fault hfault => nomatch hfault

theorem Sound.raised_ofValue (honest : engine.Honest) (h : Sound engine s) :
    ∀ fault ∈ s.raised, fault.cause.OfValue :=
  have hthinking := (h.whenThinking honest).coherent
  raisedFrom_ofValue hthinking (fun _ hentry => hentry)
    ⟨World.Each.refl Body.Kept.refl _, hthinking.acyclic⟩

/-! ## Sensing -/

/-- A built-in sensor does not fail where it is an agent's turn to use it: the agents before it have
sensed by then, and it has used its sensors before this one. -/
theorem Sound.sense_eq_ok (builtIn : engine.BuiltIn) (h : Sound engine s)
    {before after : List (AgentId × Brain)} {id : AgentId} {brain : Brain}
    {done todo : List SensorKind} {kind : SensorKind} {sensor : Sensor}
    (hbrains : s.whenSensing.brains.toList = before ++ (id, brain) :: after)
    (hkinds : brain.sensors.keys = done ++ kind :: todo)
    (hsensor : engine.sensors kind = some sensor) :
    (sensor.sense id
      (done.foldl (senseKind engine id) (before.foldl (senseFor engine) s.whenSensing.world))).1 =
        .ok () := by
  have honest := builtIn.honest
  have hquiet : s.whenSensing.world.Quiet
      (done.foldl (senseKind engine id) (before.foldl (senseFor engine) s.whenSensing.world)) :=
    (World.Quiet.foldl _ (fun entry _ w => quiet_senseFor honest entry w) _).trans
      (World.Quiet.foldl _ (fun kind _ w => quiet_senseKind honest id w kind) _)
  have hbrain : s.whenSensing.brains.get? id = some brain := by
    refine SortedMap.get?_eq_some_iff.mpr ?_
    rw [show s.whenSensing.brains.entries = before ++ (id, brain) :: after from hbrains]
    exact List.mem_append_right _ List.mem_cons_self
  obtain ⟨_, hmanned, hable⟩ := h.whenSensing.coherent.brains id brain hbrain
  obtain ⟨b, hb, _, hregistered⟩ := (hable.of_kept hquiet.kept).body
  obtain ⟨settings, rfl⟩ := builtIn kind sensor hsensor
  refine Sensor.sense_ofKind_eq_ok settings ?_
  intro b' hb' key hkey
  rw [hb] at hb'
  cases hb'
  refine hregistered key (hmanned.sensors kind ?_ key hkey)
  rw [hkinds]
  exact List.mem_append_right _ List.mem_cons_self

/-! ## Runs -/

/-- With the built-in sensors, in every state that a run reaches: no sensor fails in the next tick,
and the faults that the tick raises, which are all that it counts, depend on values of parameters. -/
theorem Reachable.faults_of_values (builtIn : engine.BuiltIn) (h : Reachable engine scenario s) :
    (∀ before id brain after done kind todo sensor,
      s.whenSensing.brains.toList = before ++ (id, brain) :: after →
      brain.sensors.keys = done ++ kind :: todo → engine.sensors kind = some sensor →
      (sensor.sense id
        (done.foldl (senseKind engine id) (before.foldl (senseFor engine) s.whenSensing.world))).1 =
          .ok ()) ∧
      (∀ fault ∈ s.raised, fault.cause.OfValue) ∧ s.step.faults = s.faults + s.raised.length := by
  have honest := builtIn.honest
  refine ⟨?_, (h.sound honest).raised_ofValue honest, faults_step s⟩
  intro before id brain after done kind todo sensor hbrains hkinds hsensor
  exact (h.sound honest).sense_eq_ok builtIn hbrains hkinds hsensor

/-- A wolf that takes the name of its species for how far it wanders raises one fault in its first
tick. -/
theorem Reachable.faults_of_values_wolf :
    let species : Binding := .literal ⟨"q.entity.species", .path ["q", "entity", "species"]⟩
    let wandering : LeafSpec :=
      .wander (.bool true) (.number 1.0) species (.number 1.0) (.number 1.0) (.number 1.0)
    let wolf : Template :=
      { name := "wolf", species := "wolf", enabled := true, maxHealth := 20.0
        defaultActivity := .core, overrides := .empty, declarations := [], herd := {}
        activities := [⟨.core, [⟨0, .leaf wandering⟩, ⟨1, .leaf (.countFollowers (.number 1.0))⟩]⟩] }
    let engine : Engine := { templates := { templates := .ofList [("wolf", wolf)] } }
    let scenario : Scenario := { agents := [{ template := "wolf", position := ⟨0, 0, 0⟩ }] }
    let s := ofScenario engine scenario
    engine.BuiltIn ∧ Reachable engine scenario s ∧ s.raised.length = 1 ∧
      (∀ before id brain after done kind todo sensor,
        s.whenSensing.brains.toList = before ++ (id, brain) :: after →
        brain.sensors.keys = done ++ kind :: todo → engine.sensors kind = some sensor →
        (sensor.sense id
          (done.foldl (senseKind engine id) (before.foldl (senseFor engine) s.whenSensing.world))).1 =
            .ok ()) ∧
      (∀ fault ∈ s.raised, fault.cause.OfValue) ∧ s.step.faults = s.faults + s.raised.length := by
  intro species wandering wolf engine scenario s
  have builtIn : engine.BuiltIn := by
    rintro kind _ ⟨⟩
    exact ⟨_, rfl⟩
  have reachable : Reachable engine scenario s := .start
  exact ⟨builtIn, reachable, by decide +kernel, reachable.faults_of_values builtIn⟩

end Menagerie.Simulation
