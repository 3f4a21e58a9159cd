import Menagerie.Proofs.Simulation.Bearing
import Menagerie.Proofs.Simulation.Moments
import Menagerie.Proofs.Simulation.Requests
import Menagerie.Proofs.SortedMap
import Menagerie.Proofs.World.Mirrors

/-!
# Memories mirror bodies

In every state that a run reaches, what agents remember of a trait is what their bodies show
(`Reachable.mirrors`). While brains think, what counts is what bodies will show once the intents that
wait are carried out, as deeds write memories at once; each intent that is carried out then leaves less
to wait for, whoever issued it and whether its agent is still alive (`World.mirrors_carryOut`).
-/

namespace Menagerie

variable {trait : Trait}

theorem Trait.leftToLeaves (trait : Trait) : LeftToLeaves (· = trait.key) := by
  rintro _ rfl
  refine ⟨by cases trait <;> decide, fun kind => ?_⟩
  cases trait <;> cases kind <;> decide

namespace World

variable {w w' : World} {me : AgentId} {intent : Intent} {intents : List (AgentId × Intent)}

/-- An intent that is not about a trait leaves what bodies show of it. -/
theorem each_showsSame_carryOut (w : World) (me : AgentId) (h : trait.set? intent = none) :
    w.Each (Body.ShowsSame trait) (w.carryOut me intent) := by
  have hbody : ∀ f : Body → Body, (∀ b, trait.shown (f b) = trait.shown b) →
      w.Each (Body.ShowsSame trait) (w.updateBody me f) := fun f hf =>
    each_updateBody Body.ShowsSame.refl fun b _ => hf b
  have hrefl : w.Each (Body.ShowsSame trait) w := .refl Body.ShowsSame.refl w
  cases intent with
  | walk target => exact hbody _ fun _ => trait.shown_congr rfl rfl
  | lookAt p => exact hbody _ fun _ => trait.shown_congr rfl rfl
  | stopMoving => exact hbody _ fun _ => trait.shown_congr rfl rfl
  | attack victim =>
    exact (w.calm_attack me victim).bodies.imp fun hcalm =>
      trait.shown_congr hcalm.pose hcalm.aspects
  | pickUp item =>
    show w.Each _ (w.pickUp me item)
    unfold pickUp
    split
    · split
      · exact hrefl
      · exact hbody _ fun _ => trait.shown_congr rfl rfl
    · exact hrefl
  | setPose pose =>
    refine hbody _ fun b => ?_
    cases trait with
    | sleep => cases h
    | nectar => rfl
  | setAspect name enabled =>
    refine hbody _ fun b => ?_
    cases trait with
    | sleep => rfl
    | nectar =>
      have hname : Task.nectarAspect ≠ name := by
        rintro rfl
        cases h
      show SortedMap.contains (if enabled then b.aspects.add name else b.aspects.erase name) _ = _
      rw [Bool.eq_iff_iff]
      split
      · rw [SortedSet.contains_add]
        exact or_iff_right hname
      · rw [SortedMap.contains_erase]
        exact and_iff_right hname
  | playSound name => exact hrefl

/-- An intent about a trait makes the body of its agent show what it says. -/
theorem carryOut_of_set? (w : World) (me : AgentId) {holds : Bool}
    (h : trait.set? intent = some holds) :
    ∃ f, w.carryOut me intent = w.updateBody me f ∧ ∀ b, trait.shown (f b) = holds := by
  cases intent with
  | setPose pose =>
    refine ⟨_, rfl, fun b => ?_⟩
    cases trait with
    | sleep =>
      cases h
      rfl
    | nectar => cases h
  | setAspect name enabled =>
    refine ⟨_, rfl, fun b => ?_⟩
    change (if trait = .nectar ∧ name = Task.nectarAspect then some enabled else none) = _ at h
    split at h
    · next heq =>
      obtain ⟨rfl, rfl⟩ := heq
      cases h
      show SortedMap.contains (if holds then b.aspects.add _ else b.aspects.erase _) _ = holds
      cases holds with
      | true => exact (SortedSet.contains_add ..).mpr (.inl rfl)
      | false => exact Bool.eq_false_iff.mpr fun hthere => ((SortedMap.contains_erase ..).mp hthere).1 rfl
    · cases h
  | walk | lookAt | stopMoving | attack | pickUp | playSound => cases h

/-- What bodies show of a trait once an intent is carried out. -/
theorem shown_carryOut {id : AgentId} {b b' : Body} (hb : w.body? id = some b)
    (hb' : (w.carryOut me intent).body? id = some b') :
    trait.shown b' = if me = id then (trait.set? intent).getD (trait.shown b) else trait.shown b := by
  cases hset : trait.set? intent with
  | none =>
    obtain ⟨b₀, hb₀, hshown⟩ := (w.each_showsSame_carryOut me hset).exists_of_right hb'
    rw [hb] at hb₀
    cases hb₀
    exact Eq.trans hshown (ite_self _).symm
  | some holds =>
    obtain ⟨f, hcarried, hf⟩ := w.carryOut_of_set? me hset
    rw [hcarried, body?_updateBody, hb] at hb'
    by_cases hid : id = me
    · rw [if_pos hid] at hb'
      cases hb'
      rw [if_pos hid.symm]
      exact hf b
    · rw [if_neg hid] at hb'
      cases hb'
      rw [if_neg (Ne.symm hid)]

/-- Carrying out the first of the intents that wait leaves the others to wait for. -/
theorem mirrors_carryOut {entry : AgentId × Intent} (h : w.Mirrors trait (entry :: intents)) :
    (w.carryOut entry.1 entry.2).Mirrors trait intents := by
  intro id b' hb'
  have hcarried : w.Unfolds (fun _ => True) Halting (w.carryOut entry.1 entry.2) :=
    unfolds_carryOut trivial w entry.2
  obtain ⟨b, hb, hsteady⟩ := hcarried.steady.bodies.exists_of_right hb'
  have hstate : b'.memory.state trait.key = b.memory.state trait.key :=
    hsteady.memory.state fun _ hhalting => (trait.leftToLeaves _ rfl).1 hhalting.1
  rw [shown_carryOut hb hb']
  exact (h id b hb).of_state hstate

theorem mirrors_settle (h : w.Mirrors trait w.intents) : w.settle.Mirrors trait [] := by
  have hall : ∀ (intents : List (AgentId × Intent)) (w : World), w.Mirrors trait intents →
      (intents.foldl (fun w entry => w.carryOut entry.1 entry.2) w).Mirrors trait [] := by
    intro intents
    induction intents with
    | nil => exact fun _ h => h
    | cons entry rest ih => exact fun _ h => ih _ (mirrors_carryOut h)
  exact hall w.intents { w with intents := [] } h

/-- Time, and whatever leaves bodies calm, leave them mirrored. -/
theorem Mirrors.of_calm (h : w.Mirrors trait intents) (hcalm : w.Calm w')
    (hlapses : w.Lapses (· = trait.key) w') : w'.Mirrors trait intents := by
  intro id b' hb'
  obtain ⟨b, hb, hbears⟩ := hcalm.bodies.exists_of_right hb'
  obtain ⟨b₀, hb₀, hlapsed⟩ := hlapses.bodies.exists_of_right hb'
  rw [hb] at hb₀
  cases hb₀
  rw [trait.shown_congr hbears.pose hbears.aspects]
  exact (h id b hb).of_lapsed (hlapsed.state _ rfl)

end World

namespace Simulation

variable {engine : Engine} {scenario : Scenario} {s s' : Simulation}

/-- Whoever comes in shows no trait and remembers none. -/
theorem mirrors_spawn (h : s.world.Mirrors trait []) (spawn : Spawn) :
    (s.spawn spawn).2.world.Mirrors trait [] := by
  obtain ⟨_, random, heq, _⟩ | ⟨id, t, brain, random, _, _, heq⟩ := s.spawn_cases spawn
  · rw [heq]
    exact h
  · rw [heq]
    intro other b hb
    change (s.world.insertBody _).body? other = some b at hb
    rw [World.body?_insertBody] at hb
    split at hb
    · cases hb
      have hblank := blank_bodyOf t (Engine.newborn t spawn id) brain s.world.now
      cases trait with
      | sleep => exact hblank.get?_eq_none _
      | nectar => exact hblank.get?_eq_none _
    · exact h other b hb

theorem mirrors_despawn {id : AgentId} (h : s.world.Mirrors trait [])
    (hs' : s.despawn id = .ok s') : s'.world.Mirrors trait [] := by
  rw [eq_of_despawn hs']
  exact fun other b hb => h other b (World.body?_of_removeBody hb)

theorem mirrors_hit {attacker victim : AgentId} {damage : Float} (h : s.world.Mirrors trait [])
    (hs' : s.hit attacker victim damage = .ok s') : s'.world.Mirrors trait [] := by
  rw [eq_of_hit hs']
  exact h.of_calm (World.calm_damage ..) (lapses_damage trait.leftToLeaves ..)

theorem Reachable.mirrors_step (honest : engine.Honest) (hs : Reachable engine scenario s)
    (h : s.world.Mirrors trait []) : s.step.world.Mirrors trait [] := by
  have hsensed : s.whenThinking.world.Mirrors trait s.whenThinking.world.intents := by
    rw [hs.orderly.whenThinking.idle]
    exact h.of_calm s.calm_whenThinking (hs.lapses_whenThinking honest trait.leftToLeaves)
  have hthought : s.whenSettling.world.Mirrors trait s.whenSettling.world.intents :=
    (hs.orderly.rel_think
      (fun w w' => w.Mirrors trait w.intents → w'.Mirrors trait w'.intents) (fun _ => id)
      (fun h h' => h' ∘ h) fun r hr _ _ => (hs.able_of_mem_runs honest r hr).does.mirrors).2 hsensed
  exact (World.mirrors_settle hthought).of_calm (World.calm_move _)
    (lapses_move trait.leftToLeaves _)

/-- In every state that a run reaches, what agents remember of a trait is what their bodies show. -/
theorem Reachable.mirrors (honest : engine.Honest) (h : Reachable engine scenario s) (trait : Trait) :
    s.world.Mirrors trait [] := by
  induction h with
  | start =>
    exact ofScenario_of_spawn (p := fun s => s.world.Mirrors trait []) engine scenario
      (fun _ _ _ _ hb => nomatch hb) (fun _ spawn h => mirrors_spawn h spawn) fun _ _ h => h
  | spawn spawn _ ih => exact mirrors_spawn ih spawn
  | despawn _ hs' ih => exact mirrors_despawn ih hs'
  | hit _ hs' ih => exact mirrors_hit ih hs'
  | step hs ih => exact hs.mirrors_step honest ih

end Simulation

end Menagerie
