import Menagerie.Proofs.Number.Difference
import Menagerie.Proofs.Simulation.Invariants
import Menagerie.Proofs.Template.Isolation

/-!
# Health stays in range

The most health that a template allows is above zero, whatever document it was read from
(`Library.maxHealth_pos`). Newcomers start with no more than that, and wounds leave nobody below zero, so that
health is out of range only where it was given out of range: below zero to a newcomer, or above the most by
damage that is below zero (`Simulation.health_in_range`).
-/

namespace Menagerie

/-! ## The most health of a template -/

theorem Template.maxHealth_pos {r : Registry} {origin : String} {d : Document} {t : Template}
    (h : ofDocument r origin d = .ok t) : 0.0 < t.maxHealth := by
  unfold ofDocument at h
  split at h
  · cases h
  · obtain ⟨activities, _, h⟩ := bind_eq_ok.mp h
    dsimp only at h
    split at h
    · next hpos =>
      cases h
      rw [Bool.and_eq_true, decide_eq_true_iff] at hpos
      exact hpos.2
    · cases h

namespace Library

variable {r : Registry} {documents : List (String × Document)} {name : String} {t : Template}

theorem ofDocument_of_accepted {document : String × Document} (h : accepted? r document = some t) :
    Template.ofDocument r document.1 document.2 = .ok t := by
  obtain ⟨hread, _⟩ := Option.filter_eq_some_iff.mp h
  obtain ⟨t', ht', hread⟩ := bind_eq_ok.mp (eq_ok_of_toOption hread)
  obtain ⟨_, _, hread⟩ := bind_eq_ok.mp hread
  cases hread
  exact ht'

/-- Every template that a library took in allows some health. -/
theorem maxHealth_pos (h : (ingestAll {} r documents).get? name = some t) : 0.0 < t.maxHealth := by
  rw [get?_ingestAll] at h
  have hmem : t ∈ documents.filterMap (accepted? r) := List.mem_of_find?_eq_some h
  obtain ⟨document, _, haccepted⟩ := List.mem_filterMap.mp hmem
  exact Template.maxHealth_pos (ofDocument_of_accepted haccepted)

end Library

theorem Engine.get?_of_template {e : Engine} {name : String} {t : Template} (h : e.template name = .ok t) :
    e.templates.get? name = some t := by
  unfold template at h
  split at h
  · next t' hget =>
    cases h
    exact hget
  · split at h
    · cases h
    · cases h

/-! ## Health and damage -/

/-- Nothing but wounds bears on the health of bodies. -/
theorem Body.covers_of_health {deals : Float → Prop} {p : Float → Float → Prop}
    (hwound : ∀ health most amount, 0.0 < health → deals amount → p health most →
      p (Number.atLeast 0.0 (health - amount)) most) :
    Body.Covers deals fun b b' => p b.view.health b.view.maxHealth → p b'.view.health b'.view.maxHealth where
  refl _ := id
  trans h h' := h' ∘ h
  thinks _ _ _ _ := id
  obeys h := by
    rw [h.view]
    exact id
  moves h := by
    rw [h]
    exact id
  wounds b _ amount _ halive hdeals := hwound _ _ amount (of_decide_eq_true halive) hdeals

namespace Simulation

variable {engine : Engine} {r : Registry} {documents : List (String × Document)} {spawns : Spawn → Prop}
  {deals : Float → Prop}

/-- Whether health is not below zero, or is what was given to a newcomer who was given less than zero. -/
def NotBelow (spawns : Spawn → Prop) (health : Float) : Prop :=
  0.0 ≤ health ∨ ∃ newcomer, spawns newcomer ∧ newcomer.health = some health ∧ health < 0.0

theorem maxHealth_pos (htemplates : engine.templates = Library.ingestAll {} r documents) {name : String}
    {t : Template} (ht : engine.template name = .ok t) : 0.0 < t.maxHealth := by
  have hget := Engine.get?_of_template ht
  rw [htemplates] at hget
  exact Library.maxHealth_pos hget

theorem notBelow_newborn {newcomer : Spawn} {t : Template} (hspawns : spawns newcomer)
    (ht : 0.0 < t.maxHealth) (id : AgentId) : NotBelow spawns (Engine.newborn t newcomer id).health := by
  have hmost : 0.0 ≤ t.maxHealth := Number.le_of_lt ht
  unfold Engine.newborn
  dsimp only
  cases hgiven : newcomer.health with
  | none => exact .inl ((Number.le_atMost_or hmost _).resolve_right fun h => Number.not_lt_of_le hmost h.1)
  | some health =>
    obtain hle | ⟨hbelow, hsame⟩ := Number.le_atMost_or hmost health
    · exact .inl hle
    · rw [Option.getD_some, hsame]
      exact .inr ⟨newcomer, hspawns, hgiven, hbelow⟩

theorem sustains_notBelow (htemplates : engine.templates = Library.ingestAll {} r documents) :
    Sustains engine spawns deals fun b => NotBelow spawns b.view.health where
  newborn _ hspawns _ id _ _ ht := notBelow_newborn hspawns (maxHealth_pos htemplates ht) id
  covers := Body.covers_of_health (p := fun health _ => NotBelow spawns health)
    fun _ _ _ _ _ _ => .inl (Number.le_atLeast Number.isNumber_zero _)

theorem sustains_le_maxHealth (htemplates : engine.templates = Library.ingestAll {} r documents)
    (hdeals : ∀ amount, deals amount → ¬ amount < 0.0) :
    Sustains engine spawns deals fun b => b.view.health ≤ b.view.maxHealth where
  newborn _ _ _ _ _ _ ht := Number.atMost_le (Number.lt_iff.mp (maxHealth_pos htemplates ht)).2.1 _
  covers := Body.covers_of_health (p := (· ≤ ·))
    fun _ _ amount hhealth hamount hle => Number.atLeast_sub_le hhealth (hdeals amount hamount) hle

/-- Where all templates are read from documents, nobody's health is below zero in any state that a run reaches,
but for that of newcomers who were given less than zero, which stays as it was given. Nobody has more health than
is allowed, unless damage is dealt that is below zero. -/
theorem health_in_range (scenario : Scenario) (requests : List Request)
    (htemplates : engine.templates = Library.ingestAll {} r documents) :
    ∀ id b, ((ofScenario engine scenario).attempts requests).world.body? id = some b →
      (0.0 ≤ b.view.health ∨ ∃ newcomer, Spawns scenario requests newcomer ∧
        newcomer.health = some b.view.health ∧ b.view.health < 0.0) ∧
      (b.view.health ≤ b.view.maxHealth ∨ ∃ damage, Deals scenario requests damage ∧ damage < 0.0) := by
  intro id b hb
  constructor
  · exact (sustains_notBelow htemplates).attempts id b hb
  · by_cases hheals : ∃ damage, Deals scenario requests damage ∧ damage < 0.0
    · exact .inr hheals
    · have hdeals : ∀ damage, Deals scenario requests damage → ¬ damage < 0.0 :=
        fun damage hdealt hbelow => hheals ⟨damage, hdealt, hbelow⟩
      exact .inl ((sustains_le_maxHealth htemplates hdeals).attempts id b hb)

/-- Two wolves, one of whom is given more health than a wolf can have and the other hit harder than it can bear. -/
theorem health_in_range_wolves :
    let wolf : Document := .object [("name", .text "wolf")]
    let engine : Engine := { templates := Library.ingestAll {} Registry.builtin [("wolf.json", wolf)] }
    let scenario : Scenario :=
      { agents := [{ template := "wolf", position := ⟨0, 0, 0⟩, health := some 25.0 },
          { template := "wolf", position := ⟨1, 0, 0⟩ }]
        hits := [⟨⟨1⟩, ⟨1⟩, ⟨2⟩, 50.0⟩] }
    let s := (ofScenario engine scenario).attempts [.step]
    s.world.bodies.keys = [⟨1⟩, ⟨2⟩] ∧
      ∀ id b, s.world.body? id = some b → 0.0 ≤ b.view.health ∧ b.view.health ≤ b.view.maxHealth := by
  intro wolf engine scenario s
  refine ⟨by decide +kernel, fun id b hb => ?_⟩
  obtain ⟨hlow, hhigh⟩ := health_in_range (r := Registry.builtin) scenario [.step] rfl id b hb
  refine ⟨hlow.resolve_right ?_, hhigh.resolve_right ?_⟩
  · rintro ⟨newcomer, hspawns, hgiven, hbelow⟩
    cases hspawns with
    | agent hmem =>
      have hfew : ∀ newcomer ∈ scenario.agents, ∀ health ∈ newcomer.health, ¬ health < 0.0 := by decide
      exact hfew newcomer hmem _ hgiven hbelow
    | request hmem => cases List.mem_singleton.mp hmem
  · rintro ⟨damage, hdealt, hbelow⟩
    cases hdealt with
    | scripted hmem =>
      have hfew : ∀ hit ∈ scenario.hits, ¬ hit.damage < 0.0 := by decide
      exact hfew _ hmem hbelow
    | request hmem => cases List.mem_singleton.mp hmem
    | attack => exact absurd hbelow (by decide)

/-- A wolf is given less than zero, and damage below zero heals another beyond the most that a wolf can have. -/
theorem health_out_of_range_wolves :
    let wolf : Document := .object [("name", .text "wolf")]
    let engine : Engine := { templates := Library.ingestAll {} Registry.builtin [("wolf.json", wolf)] }
    let scenario : Scenario :=
      { agents := [{ template := "wolf", position := ⟨0, 0, 0⟩, health := some (-5.0) },
          { template := "wolf", position := ⟨1, 0, 0⟩ }]
        hits := [⟨⟨1⟩, ⟨1⟩, ⟨2⟩, -10.0⟩] }
    let s := (ofScenario engine scenario).attempts [.step]
    (s.world.body? ⟨1⟩).map (fun b => b.view.health) = some (-5.0) ∧
      (s.world.body? ⟨2⟩).map (fun b => (b.view.health, b.view.maxHealth)) = some (30.0, 20.0) ∧
      ¬ ∀ id b, s.world.body? id = some b → 0.0 ≤ b.view.health ∧ b.view.health ≤ b.view.maxHealth := by
  intro wolf engine scenario s
  have hlow : (s.world.body? ⟨1⟩).map (fun b => b.view.health) = some (-5.0) := by decide +kernel
  have hhigh : (s.world.body? ⟨2⟩).map (fun b => (b.view.health, b.view.maxHealth)) = some (30.0, 20.0) := by
    decide +kernel
  refine ⟨hlow, hhigh, fun h => ?_⟩
  obtain ⟨b, hb, hhealth⟩ := Option.map_eq_some_iff.mp hlow
  have hle := (h ⟨1⟩ b hb).1
  rw [hhealth] at hle
  revert hle
  decide

end Simulation

end Menagerie
