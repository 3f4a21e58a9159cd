import Menagerie.Proofs.Simulation.Chronicle

/-!
# What agents hold in memory

A property of the values that agents have under a key holds in every state that a run reaches, and before
and after each run of a leaf, where what sensors store and what leaves leave has it
(`Engine.Upholds`, `Simulation.Reachable.holds`): values run out of themselves, and nobody but sensors and
leaves writes any, except that agents forget where they walk.
-/

namespace Menagerie

variable {key : MemoryKey} {good : AgentId → MemoryValue → Option Tick → Prop}

/-- Whether an update leaves a value that is there, or stores a good one. -/
def MemoryUpdate.Keeps (key : MemoryKey) (good : MemoryValue → Option Tick → Prop) (u : MemoryUpdate) :
    Prop :=
  ∀ m m' : Blackboard, m.update u = .ok m' → ∀ value expiresAt,
    m'.state key = .present value expiresAt → m.state key = .present value expiresAt ∨ good value expiresAt

theorem MemoryUpdate.keeps_of_ne {u : MemoryUpdate} {good : MemoryValue → Option Tick → Prop}
    (hkey : u.key ≠ key) : u.Keeps key good := by
  intro m m' hupdate value expiresAt hstate
  have htouched : m.Touched (fun _ other _ => other = u.key) m' :=
    Blackboard.touched_update hupdate fun _ => rfl
  rw [htouched.state fun _ heq => hkey heq.symm] at hstate
  exact .inl hstate

theorem MemoryUpdate.keeps_store {value : MemoryValue} {good : MemoryValue → Option Tick → Prop}
    (h : good value none) : (MemoryUpdate.store key value).Keeps key good := by
  intro m m' hupdate value' expiresAt hstate
  obtain ⟨_, hkey, rfl⟩ := Blackboard.store_eq_ok_iff.mp hupdate
  rw [Blackboard.state_put_self hkey] at hstate
  cases hstate
  exact .inr h

namespace World

variable {w w' : World} {id : AgentId}

/-- Whether every value that an agent has under a key is good, given when it runs out. -/
def Holds (key : MemoryKey) (good : AgentId → MemoryValue → Option Tick → Prop) (w : World) : Prop :=
  ∀ id b value expiresAt, w.body? id = some b → b.memory.state key = .present value expiresAt →
    good id value expiresAt

theorem Holds.of_remembered? {value : MemoryValue} (h : w.Holds key good)
    (hvalue : w.remembered? id key = some value) : ∃ expiresAt, good id value expiresAt := by
  obtain ⟨memory, hmemory, hget⟩ := Option.bind_eq_some_iff.mp hvalue
  obtain ⟨b, hb, rfl⟩ := Option.map_eq_some_iff.mp hmemory
  unfold Blackboard.get? at hget
  split at hget
  · next expiresAt hstate =>
    cases hget
    exact ⟨expiresAt, h id b value expiresAt hb hstate⟩
  · cases hget

theorem Holds.of_lapses (h : w.Holds key good) (hlapses : w.Lapses (· = key) w') : w'.Holds key good := by
  intro id b' value expiresAt hb' hstate
  obtain ⟨b, hb, hmemory⟩ := hlapses.bodies.exists_of_right hb'
  rw [hmemory.state key rfl] at hstate
  exact h id b value expiresAt hb (MemoryState.eq_present_of_lapsed hstate)

theorem Holds.of_touched {may : Tick → MemoryKey → MemorySlot → Prop} {me : AgentId} (h : w.Holds key good)
    (htouched : w.Touched may me w') (hmay : ∀ now slot, ¬ may now key slot) : w'.Holds key good := by
  refine h.of_lapses (htouched.lapses ?_)
  rintro now _ slot rfl
  exact hmay now slot

theorem Holds.updateMemories {us : List MemoryUpdate} (hus : ∀ u ∈ us, u.Keeps key (good id))
    (h : w.Holds key good) : (w.updateMemories id us).2.Holds key good := by
  induction us generalizing w with
  | nil => exact h
  | cons u rest ih =>
    rw [List.forall_mem_cons] at hus
    rw [World.updateMemories]
    unfold updateMemory memory?
    cases hb : w.body? id with
    | none => exact ih hus.2 h
    | some b =>
      simp only [Option.map_some]
      cases hm : b.memory.update u with
      | error e => exact h
      | ok m =>
        refine ih hus.2 ?_
        intro other b' value expiresAt hb' hstate
        rw [body?_updateBody] at hb'
        split at hb'
        · next heq =>
          subst heq
          rw [hb] at hb'
          cases hb'
          exact (hus.1 _ _ hm value expiresAt hstate).elim (h other b value expiresAt hb) id
        · exact h other b' value expiresAt hb' hstate

end World

/-- Whether what sensors store and what leaves leave under a key is good, if what was there before is. -/
structure Engine.Upholds (e : Engine) (key : MemoryKey) (good : AgentId → MemoryValue → Option Tick → Prop) :
    Prop where
  walk : key ≠ .walkTarget
  senses : ∀ kind sensor, e.sensors kind = some sensor → ∀ id w, w.Indexed →
    ∀ u ∈ sensor.perceive id w, u.Keeps key (good id)
  runs : ∀ r : LeafRun, r.stage.world.Orderly → r.stage.world.Holds key good → r.after.world.Holds key good

namespace Engine.Upholds

variable {engine : Engine} {m m' : Moment}

theorem senseFor (h : engine.Upholds key good) {w : World} (horderly : w.Orderly) (hw : w.Holds key good)
    (entry : AgentId × Brain) : (Simulation.senseFor engine w entry).Holds key good := by
  have hkind : ∀ w : World, w.Orderly ∧ w.Holds key good → ∀ kind,
      (Simulation.senseKind engine entry.1 w kind).Orderly ∧
        (Simulation.senseKind engine entry.1 w kind).Holds key good := by
    intro w ⟨horderly, hw⟩ kind
    have hsensed : w.Unfolds (fun _ => True) (fun _ _ _ => True)
        (Simulation.senseKind engine entry.1 w kind) :=
      Simulation.unfolds_senseKind engine trivial w kind fun _ _ _ _ _ _ _ _ => trivial
    refine ⟨horderly.of_steady hsensed.steady, ?_⟩
    unfold Simulation.senseKind
    split
    · exact hw
    · next sensor hsensor =>
      split
      · exact hw.updateMemories (h.senses kind sensor hsensor entry.1 w horderly.indexed)
      · exact hw
  unfold Simulation.senseFor
  split
  · exact (List.foldlRecOn (motive := fun w => World.Orderly w ∧ w.Holds key good) _ _ ⟨horderly, hw⟩
      fun w hw kind _ => hkind w hw kind).2
  · exact hw

/-- What is good stays so, whatever happens. -/
theorem succeeds (h : engine.Upholds key good) (hsucceeds : m.Succeeds engine m') (horderly : m.world.Orderly)
    (hm : m.world.Holds key good) : m'.world.Holds key good := by
  cases hsucceeds with
  | spawns hblank _ =>
    intro id b value expiresAt hb hstate
    rw [World.body?_insertBody] at hb
    split at hb
    · cases hb
      have hnone := hblank.get?_eq_none key
      unfold Blackboard.get? at hnone
      rw [hstate] at hnone
      cases hnone
    · exact hm id b value expiresAt hb hstate
  | despawns id =>
    exact fun other b value expiresAt hb => hm other b value expiresAt (World.body?_of_removeBody hb)
  | refuses => exact hm
  | passes hpasses =>
    cases hpasses with
    | advances => exact hm.of_lapses horderly.lapses_advance
    | goesOn intents hsteady =>
      have hidle : World.Holds key good { m.world with intents } := hm
      refine hidle.of_lapses (hsteady.lapses ?_)
      rintro _ _ _ rfl hhalting
      exact h.walk hhalting.1
    | senses entries =>
      refine (List.foldlRecOn (motive := fun w => World.Orderly w ∧ w.Holds key good) entries _
        ⟨horderly, hm⟩ fun w hw entry _ => ⟨?_, h.senseFor hw.1 hw.2 entry⟩).2
      have hsensed : w.Unfolds _ (fun _ _ _ => True) ([entry].foldl (Simulation.senseFor engine) w) :=
        Simulation.unfolds_senses engine [entry] (fun _ _ _ _ _ _ _ _ _ => trivial) w
      exact hw.1.of_steady hsensed.steady
    | @runs r hstart =>
      rw [← hstart] at horderly hm
      exact h.runs r horderly hm

end Engine.Upholds

namespace Simulation

variable {engine : Engine} {scenario : Scenario} {s : Simulation}

/-- What is upheld holds in every state that a run reaches. -/
theorem Reachable.holds (h : Reachable engine scenario s) (hupholds : engine.Upholds key good) :
    s.world.Holds key good :=
  h.of_succeeds (fun _ _ _ _ hb => nomatch hb) fun _ _ => hupholds.succeeds

/-- It holds before each run of a leaf, too. -/
theorem Reachable.holds_of_mem_runs (h : Reachable engine scenario s) (hupholds : engine.Upholds key good)
    {r : LeafRun} (hr : r ∈ s.runs) : r.stage.world.Holds key good :=
  (h.of_mem_runs (fun _ _ _ _ hb => nomatch hb) (fun _ _ => hupholds.succeeds) r hr).1

end Simulation

end Menagerie
