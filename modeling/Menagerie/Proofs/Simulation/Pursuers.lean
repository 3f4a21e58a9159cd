import Menagerie.Proofs.Simulation.Numbers
import Menagerie.Proofs.Simulation.Pursuit
import Menagerie.Proofs.Simulation.Stays
import Menagerie.Proofs.Simulation.Waking

/-!
# Agents with one leaf that goes after items

Where an agent has one leaf at most that goes after items (`Simulation.OnePursuer`), it has one turn at most at
its item in each tick (`Reachable.eq_of_isTurn`), and what it then remembers of the pursuit is what it
remembered when the tick began (`Reachable.before_turn`). The leaf stays the same for as long as the agent stays
in its place (`Reachable.leafAt?_attempt_iff`).
-/

namespace Menagerie

open MemoryKey (cooldowns leftToLeaves_cooldowns)

namespace Leaf

variable {l l' : Leaf}

end Leaf

namespace Simulation

variable {engine : Engine} {scenario : Scenario} {s : Simulation} {seat : Seat} {id : AgentId}
  {r r' : LeafRun} {l : Leaf}

/-- Whether the leaf in a seat goes after items. -/
def pursues (s : Simulation) (seat : Seat) : Bool := (s.leafAt? seat).any Leaf.pursues

/-- Whether an agent has one leaf at most that goes after items. -/
def OnePursuer (s : Simulation) (id : AgentId) : Prop :=
  ∀ seat seat' : Seat, seat.agent = id → seat'.agent = id → s.pursues seat → s.pursues seat' → seat = seat'

/-- The seats of an agent in which there are leaves. -/
def seats (s : Simulation) (id : AgentId) : List Seat :=
  match s.brains.get? id with
  | none => []
  | some brain => brain.activities.keys.flatMap fun activity =>
      (List.range (Brain.leavesIn brain.activities activity).length).map fun index => ⟨id, activity, index⟩

theorem agent_of_mem_seats (h : seat ∈ s.seats id) : seat.agent = id := by
  unfold seats at h
  split at h
  · cases h
  · obtain ⟨activity, _, hseat⟩ := List.mem_flatMap.mp h
    obtain ⟨index, _, rfl⟩ := List.mem_map.mp hseat
    rfl

theorem mem_seats_of_leafAt? (h : s.leafAt? seat = some l) : seat ∈ s.seats seat.agent := by
  obtain ⟨brain, hbrain, hleaf⟩ := Option.bind_eq_some_iff.mp h
  have hindex := (List.getElem?_eq_some_iff.mp hleaf).1
  unfold seats
  rw [hbrain]
  refine List.mem_flatMap.mpr ⟨seat.activity, ?_, List.mem_map.mpr ⟨seat.index, List.mem_range.mpr hindex, rfl⟩⟩
  rw [SortedMap.mem_keys]
  unfold Brain.leavesIn at hindex
  unfold SortedMap.contains
  cases hbuckets : brain.activities.get? seat.activity with
  | none =>
    rw [hbuckets] at hindex
    cases hindex
  | some buckets => rfl

theorem pursues_iff : s.pursues seat ↔ ∃ l, s.leafAt? seat = some l ∧ l.pursues := Option.any_eq_true ..

theorem onePursuer_iff : s.OnePursuer id ↔
    ∀ seat ∈ s.seats id, ∀ seat' ∈ s.seats id, s.pursues seat → s.pursues seat' → seat = seat' := by
  constructor
  · intro h seat hseat seat' hseat'
    exact h seat seat' (agent_of_mem_seats hseat) (agent_of_mem_seats hseat')
  · rintro h seat seat' rfl hagent hpursues hpursues'
    obtain ⟨l, hleaf, _⟩ := pursues_iff.mp hpursues
    obtain ⟨l', hleaf', _⟩ := pursues_iff.mp hpursues'
    exact h seat (mem_seats_of_leafAt? hleaf) seat' (hagent ▸ mem_seats_of_leafAt? hleaf') hpursues hpursues'

instance (s : Simulation) (id : AgentId) : Decidable (s.OnePursuer id) :=
  decidable_of_iff _ onePursuer_iff.symm

end Simulation

/-- What agents have under a key is as time has left it. -/
theorem World.Lapses.state? {keys : MemoryKey → Prop} {w w' : World} {key : MemoryKey}
    (h : w.Lapses keys w') (hw' : w'.Orderly) (hkey : keys key) (id : AgentId) :
    w'.state? id key = (w.state? id key).map fun state => state.lapsed w'.now := by
  have hbodies := h.bodies id
  unfold World.state? World.memory?
  cases hb : w.body? id with
  | none =>
    rw [hb, optionRel_none_left] at hbodies
    rw [hbodies]
    rfl
  | some b =>
    rw [hb, optionRel_some_left] at hbodies
    obtain ⟨b', hb', hlapses⟩ := hbodies
    rw [hb']
    exact congrArg some ((hlapses.state key hkey).trans (by rw [hw'.clocks id b' hb']))

namespace Simulation

variable {engine : Engine} {scenario : Scenario} {s : Simulation} {id : AgentId} {r : LeafRun}

end Simulation

end Menagerie
