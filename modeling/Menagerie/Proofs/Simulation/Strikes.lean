import Menagerie.Proofs.Simulation.Hits
import Menagerie.Proofs.Simulation.Nectar
import Menagerie.Proofs.Simulation.Reach

/-!
# Strikes that are still to be felt

An agent is struck before a tick (`Simulation.Struck`) if it is on the script to be hit as the tick starts, if
it was hit from outside since the last tick, or if an attack on it landed at the end of that one. However it
was struck, when sensors have sensed in the tick its last hit is no earlier than the last tick
(`Reachable.hitSince_whenThinking`).
-/

namespace Menagerie

variable {id : AgentId} {since : Tick}

/-- Whether a body was last hit at some tick or later. -/
def Body.HitSince (since : Tick) (b : Body) : Prop :=
  ∃ attacker hitAt, b.lastHit = some (attacker, hitAt) ∧ since ≤ hitAt

theorem Body.HitSince.of_lastHit {b b' : Body} (h : b.HitSince since) (hlast : b'.lastHit = b.lastHit) :
    b'.HitSince since := by
  unfold HitSince
  rw [hlast]
  exact h

namespace World

variable {w w' : World}

/-- Whether an agent was last hit at some tick or later. -/
def HitSince (w : World) (since : Tick) (id : AgentId) : Prop :=
  ∃ b, w.body? id = some b ∧ b.HitSince since

namespace HitSince

theorem of_each (h : w.HitSince since id)
    (heach : w.Each (fun b b' => b.HitSince since → b'.HitSince since) w') : w'.HitSince since id := by
  obtain ⟨b, hb, hhit⟩ := h
  obtain ⟨b', hb', hkeeps⟩ := heach.exists_of_left hb
  exact ⟨b', hb', hkeeps hhit⟩

theorem of_inward (h : w.HitSince since id) (hinward : w.Each Body.Inward w') : w'.HitSince since id :=
  h.of_each (hinward.imp fun hin hhit => hhit.of_lastHit hin.lastHit)

theorem earlier {before : Tick} (h : w.HitSince since id) (hle : before ≤ since) : w.HitSince before id := by
  obtain ⟨b, hb, attacker, hitAt, hlast, hsince⟩ := h
  exact ⟨b, hb, attacker, hitAt, hlast, Tick.le_trans hle hsince⟩

/-- A later hit is the last one. -/
theorem damage (h : w.HitSince since id) (hsince : since ≤ w.now) (attacker victim : AgentId)
    (amount : Float) : (w.damage attacker victim amount).HitSince since id :=
  h.of_each (w.each_damage (fun _ hhit => hhit) attacker victim amount
    fun _ _ _ => ⟨attacker, w.now, rfl, hsince⟩)

theorem carryOut (h : w.HitSince since id) (hsince : since ≤ w.now) (me : AgentId) (intent : Intent) :
    (w.carryOut me intent).HitSince since id := by
  refine h.of_each (w.each_carryOut (fun hobeys hhit => hhit.of_lastHit ?_) me intent
    fun _ _ _ => ⟨me, w.now, rfl, hsince⟩)
  rw [hobeys.rest]

theorem move (h : w.HitSince since id) : w.move.HitSince since id := by
  have hmoved : w.Each (fun b b' => b.HitSince since → b'.HitSince since) w.move := by
    refine each_move ?_ ?_ ?_ ?_ w
    · exact fun _ hhit => hhit
    · exact fun h h' => h' ∘ h
    · exact fun speed target b hhit => hhit.of_lastHit (stepBody_rest speed target b).1
    · exact fun b _ _ hhit => hhit.of_lastHit rfl
  exact h.of_each hmoved

end HitSince

theorem now_damage (w : World) (attacker victim : AgentId) (amount : Float) :
    (w.damage attacker victim amount).now = w.now :=
  congrArg Clock.now
    (w.steady_damage attacker victim amount : w.Steady Halting (w.damage attacker victim amount)).clock

theorem now_carryOut (w : World) (me : AgentId) (intent : Intent) : (w.carryOut me intent).now = w.now :=
  congrArg Clock.now
    (unfolds_carryOut trivial w intent : w.Unfolds (fun _ => True) Halting (w.carryOut me intent)).steady.clock

/-- An attack that lands is the last hit on the victim. -/
theorem Lands.hitSince {attacker : AgentId} (h : w.Lands attacker id) :
    (w.carryOut attacker (.attack id)).HitSince w.now id := by
  obtain ⟨b, _, _, hwounded⟩ := h.wounded
  exact ⟨_, hwounded, attacker, w.now, rfl, Tick.le_refl _⟩

theorem now_carryOutAll (w : World) (intents : List (AgentId × Intent)) :
    (w.carryOutAll intents).now = w.now :=
  List.foldlRecOn (motive := fun w' : World => w'.now = w.now) intents _ rfl
    fun w' hw' entry _ => (w'.now_carryOut entry.1 entry.2).trans hw'

theorem HitSince.carryOutAll (h : w.HitSince since id) (hsince : since ≤ w.now)
    (intents : List (AgentId × Intent)) : (w.carryOutAll intents).HitSince since id := by
  induction intents generalizing w with
  | nil => exact h
  | cons entry rest ih =>
    refine ih (h.carryOut hsince entry.1 entry.2) ?_
    rw [now_carryOut]
    exact hsince

/-- What makes a wound, and what puts together, comes of hits in order. -/
theorem each_strike {rel : Body → Body → Prop} (hrefl : ∀ b, rel b b)
    (htrans : ∀ {b b' b''}, rel b b' → rel b' b'' → rel b b'') (hits : List ScriptedHit) (w : World)
    (hwound : ∀ b attacker amount, b.view.isAlive → rel b (b.wounded attacker amount w.now)) :
    w.Each rel (w.strike hits) := by
  induction hits generalizing w with
  | nil => exact .refl hrefl w
  | cons hit rest ih =>
    have here : w.Each rel (w.damage hit.attacker hit.victim hit.damage) :=
      w.each_damage hrefl _ _ _ fun b halive => hwound b _ _ halive
    refine here.trans htrans (ih _ fun b attacker amount halive => ?_)
    rw [now_damage]
    exact hwound b attacker amount halive

theorem HitSince.strike (h : w.HitSince since id) (hsince : since ≤ w.now) (hits : List ScriptedHit) :
    (w.strike hits).HitSince since id := by
  refine h.of_each (each_strike ?_ ?_ hits w ?_)
  · exact fun _ hhit => hhit
  · exact fun h h' => h' ∘ h
  · exact fun _ attacker _ _ _ => ⟨attacker, w.now, rfl, hsince⟩

/-- Who is alive after hits was so before, and whoever they struck was last hit then. -/
theorem hitSince_strike {hits : List ScriptedHit} {hit : ScriptedHit} (hhit : hit ∈ hits)
    (halive : (w.strike hits).isAlive hit.victim) : (w.strike hits).HitSince w.now hit.victim := by
  induction hits generalizing w with
  | nil => cases hhit
  | cons first rest ih =>
    rcases List.mem_cons.mp hhit with rfl | hlater
    · obtain ⟨view, hview, hlives⟩ := (Option.any_eq_true _ _).mp halive
      obtain ⟨b', hb', rfl⟩ := Option.map_eq_some_iff.mp hview
      have hlived : w.Each (fun b b' => b'.view.isAlive → b.view.isAlive) (w.strike (hit :: rest)) := by
        refine each_strike ?_ ?_ _ w ?_
        · exact fun _ hlives => hlives
        · exact fun h h' => h ∘ h'
        · exact fun _ _ _ halive _ => halive
      obtain ⟨b, hb, hlived⟩ := hlived.exists_of_right hb'
      have hdealt : (w.damage hit.attacker hit.victim hit.damage).HitSince w.now hit.victim := by
        refine ⟨b.wounded hit.attacker hit.damage w.now, ?_, _, _, rfl, Tick.le_refl _⟩
        rw [body?_damage, hb, Option.map_some, if_pos ⟨rfl, hlived hlives⟩]
      refine hdealt.strike ?_ rest
      rw [now_damage]
      exact Tick.le_refl _
    · have hthen := ih (w := w.damage first.attacker first.victim first.damage) hlater halive
      rw [now_damage] at hthen
      exact hthen

end World

namespace Simulation

variable {engine : Engine} {scenario : Scenario} {s s' : Simulation}

/-- Whether an agent was hit, or will be as the next tick starts, and had no turn since. -/
inductive Struck (id : AgentId) : Simulation → Prop
  /-- It is on the script to be hit as the next tick starts. -/
  | script {s : Simulation} {hit : ScriptedHit} : hit ∈ s.hits → hit.tick ≤ s.world.now.next →
      hit.victim = id → Struck id s
  /-- It was hit while it lived. -/
  | hit {s s' : Simulation} {attacker : AgentId} {damage : Float} : s.world.isAlive id →
      s.hit attacker id damage = .ok s' → Struck id s'
  /-- An attack on it landed at the end of the last tick. -/
  | attack {s : Simulation} {attacker : AgentId} {earlier later : List (AgentId × Intent)} :
      s.whenSettling.world.intents = earlier ++ (attacker, .attack id) :: later →
      (s.settledBy earlier).Lands attacker id → Struck id s.step
  /-- Since it was struck other things were asked for, but no tick. -/
  | asked {s : Simulation} {request : Request} : Struck id s → request ≠ .step → request.Leaves id s →
      Struck id (s.attempt request).2

/-- An attack that landed in a tick was dealt at the time at which the tick ends. -/
theorem hitSince_step {attacker : AgentId} {earlier later : List (AgentId × Intent)}
    (hintents : s.whenSettling.world.intents = earlier ++ (attacker, .attack id) :: later)
    (hlands : (s.settledBy earlier).Lands attacker id) : s.step.world.HitSince s.step.world.now id := by
  have hnow : s.step.world.now = (s.settledBy earlier).now := by
    calc s.step.world.now
      _ = s.whenSettling.world.settle.now := congrArg Clock.now (World.unfolds_move _).steady.clock
      _ = s.whenSettling.world.now := World.now_carryOutAll { s.whenSettling.world with intents := [] } _
      _ = (s.settledBy earlier).now :=
        (World.now_carryOutAll { s.whenSettling.world with intents := [] } earlier).symm
  have hsettled : s.whenSettling.world.settle =
      ((s.settledBy earlier).carryOut attacker (.attack id)).carryOutAll later := by
    show World.carryOutAll { s.whenSettling.world with intents := [] } s.whenSettling.world.intents = _
    rw [hintents]
    unfold World.carryOutAll settledBy World.carryOutAll
    rw [List.foldl_append, List.foldl_cons]
  rw [hnow]
  refine World.HitSince.move ?_
  show s.whenSettling.world.settle.HitSince _ id
  rw [hsettled]
  refine hlands.hitSince.carryOutAll ?_ later
  rw [World.now_carryOut]
  exact Tick.le_refl _

theorem hitSince_spawn {newcomer : Spawn} (hleaves : (Request.spawn newcomer).Leaves id s)
    (h : s.world.HitSince since id) : (s.spawn newcomer).2.world.HitSince since id := by
  obtain ⟨_, random, heq, _⟩ | ⟨other, t, brain, random, _, _, heq⟩ := s.spawn_cases newcomer
  · rw [heq]
    exact h
  · obtain ⟨b, hb, hhit⟩ := h
    have hother : id ≠ other := by
      rintro rfl
      exact hleaves (World.contains_of_body? hb) (by rw [heq]; rfl)
    rw [heq]
    refine ⟨b, ?_, hhit⟩
    show (s.world.insertBody _).body? id = some b
    rw [World.body?_insertBody]
    exact (if_neg hother).trans hb

/-- What is asked for other than a tick leaves the script, the time, and who was hit. -/
theorem attempt_of_ne_step {request : Request} (hnostep : request ≠ .step)
    (hleaves : request.Leaves id s) :
    (s.attempt request).2.hits = s.hits ∧ (s.attempt request).2.world.now = s.world.now ∧
      (s.world.HitSince s.world.now id → (s.attempt request).2.world.HitSince s.world.now id) := by
  let same (s' : Simulation) : Prop := s'.hits = s.hits ∧ s'.world.now = s.world.now ∧
    (s.world.HitSince s.world.now id → s'.world.HitSince s.world.now id)
  have hrefused : same s := ⟨rfl, rfl, fun hhit => hhit⟩
  cases request with
  | spawn newcomer =>
    have hkept := s.hits_now_spawn newcomer
    exact ⟨hkept.1, hkept.2, hitSince_spawn hleaves⟩
  | despawn other =>
    refine attempt_of_outcome (p := same) hrefused fun s' hs' => ?_
    rw [eq_of_despawn hs']
    refine ⟨rfl, rfl, fun ⟨b, hb, hhit⟩ => ⟨b, ?_, hhit⟩⟩
    rw [World.body?_removeBody, if_neg (Ne.symm hleaves)]
    exact hb
  | hit attacker victim damage =>
    refine attempt_of_outcome (p := same) hrefused fun s' hs' => ?_
    rw [eq_of_hit hs']
    exact ⟨rfl, s.world.now_damage attacker victim damage,
      fun hhit => hhit.damage (Tick.le_refl _) attacker victim damage⟩
  | step => exact absurd rfl hnostep

/-- Before a tick who is struck is still to be hit by a script, or was hit at the time that it is. -/
theorem Struck.due_or_hitSince (h : Struck id s) :
    (∃ hit ∈ s.hits, hit.tick ≤ s.world.now.next ∧ hit.victim = id) ∨
      s.world.HitSince s.world.now id := by
  induction h with
  | script hhit hdue hvictim => exact .inl ⟨_, hhit, hdue, hvictim⟩
  | @hit s s' attacker damage halive hs' =>
    obtain ⟨view, hview, hlives⟩ := (Option.any_eq_true _ _).mp halive
    obtain ⟨b, hb, rfl⟩ := Option.map_eq_some_iff.mp hview
    rw [eq_of_hit hs']
    refine .inr ⟨b.wounded attacker damage s.world.now, ?_, attacker, s.world.now, rfl, ?_⟩
    · show (s.world.damage attacker id damage).body? id = _
      rw [World.body?_damage, hb, Option.map_some, if_pos ⟨rfl, hlives⟩]
    · show (s.world.damage attacker id damage).now ≤ _
      rw [World.now_damage]
      exact Tick.le_refl _
  | attack hintents hlands => exact .inr (hitSince_step hintents hlands)
  | asked _ hnostep hleaves ih =>
    obtain ⟨hhits, hnow, hkeeps⟩ := attempt_of_ne_step hnostep hleaves
    rw [hhits, hnow]
    exact ih.imp_right hkeeps

/-- However an agent was struck, its last hit is no earlier than the last tick when sensors have sensed in the
next one, if it is alive then. -/
theorem Reachable.hitSince_whenThinking (h : Reachable engine scenario s) (hstruck : Struck id s)
    (halive : s.whenThinking.world.isAlive id) : s.whenThinking.world.HitSince s.world.now id := by
  have hinward := s.inward_whenThinking
  have hstarts : s.world.now ≤ s.world.advance.now := Tick.le_after _ 1
  refine World.HitSince.of_inward ?_ hinward
  rw [world_whenSensing]
  rcases hstruck.due_or_hitSince with ⟨hit, hhit, hdue, rfl⟩ | hhit
  · have hmem : hit ∈ s.struck := by
      unfold struck
      rw [(takeWhile_eq_filter _ h.onTime.ascending).1]
      exact List.mem_filter.mpr ⟨hhit, decide_eq_true hdue⟩
    have hlives : s.whenSensing.world.isAlive hit.victim := by
      obtain ⟨view, hview, hlives⟩ := (Option.any_eq_true _ _).mp halive
      obtain ⟨b', hb', rfl⟩ := Option.map_eq_some_iff.mp hview
      obtain ⟨b, hb, hin⟩ := hinward.exists_of_right hb'
      rw [World.isAlive_of_body? hb, ← hin.view]
      exact hlives
    exact (World.hitSince_strike hmem hlives).earlier hstarts
  · exact (hhit.of_inward s.world.inward_advance).strike hstarts s.struck

end Simulation

end Menagerie
