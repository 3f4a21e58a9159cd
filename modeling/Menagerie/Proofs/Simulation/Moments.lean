import Mathlib.Data.List.Chain
import Menagerie.Proofs.Simulation.Course

/-!
# The moments of a simulation

While operations are carried out a simulation goes through moments (`Simulation.history`): one after
each part of a tick, one after each run of a leaf, and one after each hit. From one moment to the next
the clock advances, the world goes on of itself, agents sense, or a leaf is run (`Moment.Passes`). So
memories lapse under all keys that are nobody's but the leaves', or a leaf is run (`Moment.Follows`).
-/

namespace Menagerie

variable {keys : MemoryKey → Prop} {may : Tick → MemoryKey → MemorySlot → Prop}

namespace World

variable {w w' : World}

/-- Whether time goes on, and all that differs in memories under some keys is what time makes of it. -/
structure Lapses (keys : MemoryKey → Prop) (w w' : World) : Prop where
  now : w.now ≤ w'.now
  bodies : w.Each (fun b b' => b.memory.Lapses keys b'.memory) w'

theorem Lapses.trans {w'' : World} (h : w.Lapses keys w') (h' : w'.Lapses keys w'') :
    w.Lapses keys w'' :=
  ⟨Tick.le_trans h.now h'.now, h.bodies.trans Blackboard.Lapses.trans h'.bodies⟩

theorem Steady.lapses (h : w.Steady may w') (hkeys : ∀ now key slot, keys key → ¬ may now key slot) :
    w.Lapses keys w' := by
  have hnow : w'.now = w.now := congrArg Clock.now h.clock
  exact ⟨hnow ▸ Tick.le_refl _, h.bodies.imp fun hb => hb.memory.lapses (hkeys _)⟩

theorem Touched.lapses {me : AgentId} (h : w.Touched may me w')
    (hkeys : ∀ now key slot, keys key → ¬ may now key slot) : w.Lapses keys w' := by
  have hnow : w'.now = w.now := congrArg Clock.now h.clock
  refine ⟨hnow ▸ Tick.le_refl _, fun id => ?_⟩
  by_cases hid : id = me
  · subst hid
    exact optionRel_imp (fun hown => hown.memory.lapses (hkeys _)) h.own
  · exact optionRel_imp (fun halike => halike.memory.lapses) (h.others id hid)

theorem Orderly.lapses_advance (h : w.Orderly) : w.Lapses keys w.advance := by
  refine ⟨Tick.le_after w.now 1, fun id => ?_⟩
  rw [body?_advance]
  cases hb : w.body? id with
  | none => exact .none
  | some b =>
    refine .some (Blackboard.lapses_advance ?_)
    rw [h.clocks id b hb]
    exact Tick.le_after w.now 1

end World

/-- A moment of a simulation: its world, and the run of a leaf that has just ended in it, if one
has. -/
structure Moment where
  world : World
  cause : Option LeafRun := none

/-- What may happen between one moment and the next. -/
inductive Moment.Passes (engine : Engine) (m : Moment) : Moment → Prop
  /-- A tick begins. -/
  | advances : Passes engine m { world := m.world.advance }
  /-- Hits are dealt, intents are carried out, or bodies move. -/
  | goesOn (intents : List (AgentId × Intent)) {w : World} :
      World.Steady World.Halting { m.world with intents } w → Passes engine m { world := w }
  /-- Agents use their sensors. -/
  | senses (entries : List (AgentId × Brain)) :
      Passes engine m { world := entries.foldl (Simulation.senseFor engine) m.world }
  /-- A leaf is run. -/
  | runs {r : LeafRun} : r.stage.world = m.world → Passes engine m ⟨r.after.world, some r⟩

/-- How one moment follows another, as far as memories under some keys go: a run of a leaf leads from
the one to the other, or memories lapse. -/
structure Moment.Follows (keys : MemoryKey → Prop) (m m' : Moment) : Prop where
  before : m.world.Orderly
  after : m'.world.Orderly
  lapses : m'.cause = none → m.world.Lapses keys m'.world
  runs : ∀ r, m'.cause = some r → r.stage.world = m.world ∧ r.after.world = m'.world

/-- Whether keys are written by leaves alone, if at all. -/
def LeftToLeaves (keys : MemoryKey → Prop) : Prop :=
  ∀ key, keys key → key ≠ .walkTarget ∧ ∀ kind : SensorKind, key ∉ kind.memories

/-- Under keys that are left to leaves, memories lapse while the world goes on of itself. -/
theorem World.lapses_of_halting {w w' : World} (hkeys : LeftToLeaves keys) (h : w.Steady Halting w') :
    w.Lapses keys w' :=
  h.lapses fun _ key _ hkey hhalting => (hkeys key hkey).1 hhalting.1

/-- What honest sensors write is about the memories of their kinds. -/
theorem Engine.Honest.unfolds_senses {e : Engine} (honest : e.Honest) (entries : List (AgentId × Brain))
    (w : World) :
    w.Unfolds (fun id => w.isAlive id) (fun _ key _ => ∃ kind : SensorKind, key ∈ kind.memories)
      (entries.foldl (Simulation.senseFor e) w) :=
  Simulation.unfolds_senses e entries
    (fun kind sensor hsensor id w u hu _ _ => ⟨kind, honest kind sensor hsensor id w u hu⟩) w

namespace Moment

variable {engine : Engine} {m m' : Moment}

/-- What happens leaves the world in order. -/
theorem Passes.orderly (h : Passes engine m m') (hm : m.world.Orderly) : m'.world.Orderly := by
  cases h with
  | advances => exact hm.advance
  | goesOn intents hsteady =>
    have hidle : World.Orderly { m.world with intents } := ⟨hm.indexed, hm.clocks⟩
    exact hidle.of_steady hsteady
  | senses entries =>
    have hsensed : m.world.Unfolds _ (fun _ _ _ => True) (entries.foldl (Simulation.senseFor engine) m.world) :=
      Simulation.unfolds_senses engine entries (fun _ _ _ _ _ _ _ _ _ => trivial) m.world
    exact hm.of_steady hsensed.steady
  | @runs r hstart =>
    rw [← hstart] at hm
    exact hm.of_touched (r.touched hm.indexed)

/-- Sensors write nothing under keys that are left to leaves. -/
theorem Passes.follows (h : Passes engine m m') (honest : engine.Honest) (hkeys : LeftToLeaves keys)
    (hm : m.world.Orderly) : Follows keys m m' := by
  refine ⟨hm, h.orderly hm, ?_, ?_⟩
  · intro hcause
    cases h with
    | advances => exact hm.lapses_advance
    | goesOn intents hsteady =>
      -- What becomes of memories is not a matter of which intents still wait.
      have hlapses := World.lapses_of_halting hkeys hsteady
      exact ⟨hlapses.now, hlapses.bodies⟩
    | senses entries =>
      exact (honest.unfolds_senses entries m.world).steady.lapses
        fun _ key _ hkey ⟨kind, hkind⟩ => (hkeys key hkey).2 kind hkind
    | runs => cases hcause
  · intro r hcause
    cases h with
    | advances | goesOn | senses => cases hcause
    | runs hstart =>
      cases hcause
      exact ⟨hstart, rfl⟩

/-- The time stands still while a leaf is run. -/
theorem Follows.now_of_cause {r : LeafRun} (h : Follows keys m m') (hcause : m'.cause = some r) :
    m'.world.now = m.world.now := by
  obtain ⟨hbefore, hafter⟩ := h.runs r hcause
  rw [← hbefore, ← hafter]
  exact congrArg Clock.now (r.touched (hbefore ▸ h.before.indexed)).clock

theorem Follows.now_le (h : Follows keys m m') : m.world.now ≤ m'.world.now := by
  cases hcause : m'.cause with
  | none => exact (h.lapses hcause).now
  | some r => exact h.now_of_cause hcause ▸ Tick.le_refl _

/-- A chain in which an invariant is kept is one of what it is kept by and brought about by it. -/
theorem isChain_of_invariant {rel rel' : Moment → Moment → Prop} {p : Moment → Prop}
    (hkeeps : ∀ m m', rel m m' → p m → p m') (hrel : ∀ m m', rel m m' → p m → rel' m m') {l : List Moment}
    (h : (m :: l).IsChain rel) (hm : p m) : (m :: l).IsChain rel' := by
  induction l generalizing m with
  | nil => exact .singleton m
  | cons m' rest ih =>
    rw [List.isChain_cons_cons] at h ⊢
    exact ⟨hrel m m' h.1 hm, ih h.2 (hkeeps m m' h.1 hm)⟩

/-- A list of moments splits at two of them. -/
theorem split_of_getElem? {l : List Moment} {i j : Nat} (hm : l[i]? = some m)
    (hm' : (l.drop (i + 1))[j]? = some m') :
    l = l.take i ++ m :: ((l.drop (i + 1)).take j ++ m' :: (l.drop (i + 1)).drop (j + 1)) := by
  have hdrop : ∀ {l : List Moment} {k : Nat} {x : Moment}, l[k]? = some x → l.drop k = x :: l.drop (k + 1) := by
    intro l k x hx
    rw [List.drop_eq_getElem?_toList_append, hx]
    rfl
  rw [← hdrop hm', List.take_append_drop, ← hdrop hm, List.take_append_drop]

/-- A moment comes right after the last one before it. -/
theorem exists_last_of_isChain {rel : Moment → Moment → Prop} {between : List Moment}
    (h : (m :: (between ++ [m'])).IsChain rel) :
    (m :: between).IsChain rel ∧ ∃ x, (m :: between).getLast? = some x ∧ rel x m' := by
  rw [← List.cons_append, List.isChain_append] at h
  obtain ⟨hbefore, -, hnext⟩ := h
  have hlast := List.getLast?_eq_some_getLast (List.cons_ne_nil m between)
  exact ⟨hbefore, _, hlast, hnext _ hlast m' rfl⟩

end Moment

namespace Simulation

variable {engine : Engine} {scenario : Scenario} {s : Simulation} {rel : Moment → Moment → Prop}

/-- The moments that an operation goes through. -/
def moments (s : Simulation) : Operation → List Moment
  | .hit attacker victim damage => [{ world := (s.perform (.hit attacker victim damage)).world }]
  | .step =>
    { world := s.world.advance } :: { world := s.whenSensing.world } ::
      { world := s.whenThinking.world } :: (s.runs.map fun r => ⟨r.after.world, some r⟩) ++
      [{ world := s.whenSettling.world.settle }, { world := s.step.world }]

/-- The moments that follow while operations are carried out. -/
def ensuing (s : Simulation) : List Operation → List Moment
  | [] => []
  | operation :: rest => s.moments operation ++ (s.perform operation).ensuing rest

/-- All moments of a simulation from one on, while operations are carried out. -/
def history (s : Simulation) (operations : List Operation) : List Moment :=
  { world := s.world } :: s.ensuing operations

/-- Runs of leaves make one chain with what comes after them. -/
theorem isChain_runs (hpasses : ∀ {m m'}, Moment.Passes engine m m' → rel m m') {runs : List LeafRun}
    {stage stage' : Stage} {m : Moment} {rest : List Moment} (hruns : stage.Reaches runs stage')
    (hm : m.world = stage.world)
    (hrest : ∀ m' : Moment, m'.world = stage'.world → (m' :: rest).IsChain rel) :
    (m :: (runs.map (fun r => ⟨r.after.world, some r⟩) ++ rest)).IsChain rel := by
  induction runs generalizing stage m with
  | nil => exact hrest m (hm.trans hruns.symm)
  | cons r runs ih =>
    obtain ⟨hbefore, hruns⟩ := hruns
    exact .cons_cons (hpasses (.runs (hbefore.trans hm.symm))) (ih hruns rfl)

/-- An operation leads from one moment to the next. -/
theorem isChain_moments (hpasses : ∀ {m m'}, Moment.Passes s.engine m m' → rel m m') (operation : Operation)
    {m : Moment} {rest : List Moment} (hm : m.world = s.world)
    (hrest : ∀ m' : Moment, m'.world = (s.perform operation).world → (m' :: rest).IsChain rel) :
    (m :: (s.moments operation ++ rest)).IsChain rel := by
  obtain ⟨_, cause⟩ := m
  cases hm
  cases operation with
  | hit attacker victim damage =>
    refine .cons_cons (hpasses (.goesOn s.world.intents ?_)) (hrest _ rfl)
    rw [perform_hit]
    exact s.world.steady_damage attacker victim damage
  | step =>
    rw [moments, List.append_assoc]
    refine .cons_cons (hpasses .advances) <|
      .cons_cons (hpasses (.goesOn _ (unfolds_whenSensing World.Halting s).steady)) <|
      .cons_cons (hpasses (.senses _)) <| isChain_runs hpasses s.leads_think rfl ?_
    rintro ⟨_, _⟩ hm'
    cases hm'
    exact .cons_cons (hpasses (.goesOn [] (World.unfolds_settle s.whenSettling.world).steady)) <|
      .cons_cons (hpasses (.goesOn _ (World.unfolds_move s.whenSettling.world.settle).steady)) (hrest _ rfl)

/-- What sensors write is about the memories of their kinds. -/
theorem Reachable.unfolds_whenThinking (honest : engine.Honest) (h : Reachable engine scenario s) :
    s.whenSensing.world.Unfolds (fun id => s.whenSensing.world.isAlive id)
      (fun _ key _ => ∃ kind : SensorKind, key ∈ kind.memories) s.whenThinking.world := by
  rw [← (h.sound honest).engine] at honest
  exact honest.unfolds_senses s.brains.toList s.whenSensing.world

theorem lapses_whenSensing (s : Simulation) (hkeys : LeftToLeaves keys) :
    s.world.advance.Lapses keys s.whenSensing.world :=
  World.lapses_of_halting hkeys (unfolds_whenSensing World.Halting s).steady

theorem Reachable.lapses_sense (honest : engine.Honest) (h : Reachable engine scenario s)
    (hkeys : LeftToLeaves keys) : s.whenSensing.world.Lapses keys s.whenThinking.world :=
  (h.unfolds_whenThinking honest).steady.lapses
    fun _ key _ hkey ⟨kind, hkind⟩ => (hkeys key hkey).2 kind hkind

/-- Up to when brains think, memories lapse in a tick. -/
theorem Reachable.lapses_whenThinking (honest : engine.Honest) (h : Reachable engine scenario s)
    (hkeys : LeftToLeaves keys) : s.world.Lapses keys s.whenThinking.world :=
  h.orderly.world.lapses_advance.trans <|
    (s.lapses_whenSensing hkeys).trans (h.lapses_sense honest hkeys)

theorem lapses_damage (hkeys : LeftToLeaves keys) (w : World) (attacker victim : AgentId)
    (amount : Float) : w.Lapses keys (w.damage attacker victim amount) :=
  World.lapses_of_halting hkeys (w.steady_damage attacker victim amount)

/-- What intents leave of memories is not a matter of which of them still wait. -/
theorem lapses_settle (hkeys : LeftToLeaves keys) (w : World) : w.Lapses keys w.settle :=
  have hcleared := World.lapses_of_halting hkeys (World.unfolds_settle w).steady
  ⟨hcleared.now, hcleared.bodies⟩

theorem lapses_move (hkeys : LeftToLeaves keys) (w : World) : w.Lapses keys w.move :=
  World.lapses_of_halting hkeys w.unfolds_move.steady

theorem engine_perform (s : Simulation) (operation : Operation) : (s.perform operation).engine = s.engine := by
  cases operation with
  | hit attacker victim damage => rw [perform_hit]
  | step => rfl

/-- The moments of a simulation come one after another. -/
theorem isChain_history (s : Simulation) (operations : List Operation) :
    (s.history operations).IsChain (Moment.Passes s.engine) := by
  suffices hchain : ∀ m : Moment, m.world = s.world →
      (m :: s.ensuing operations).IsChain (Moment.Passes s.engine) from hchain _ rfl
  induction operations generalizing s with
  | nil => exact fun m _ => .singleton m
  | cons operation rest ih =>
    intro m hm
    refine isChain_moments id operation hm ?_
    rw [← s.engine_perform operation]
    exact ih (s.perform operation)

/-- The moments of a simulation follow one another. -/
theorem Reachable.isChain_history (honest : engine.Honest) (h : Reachable engine scenario s)
    (hkeys : LeftToLeaves keys) (operations : List Operation) :
    (s.history operations).IsChain (Moment.Follows keys) := by
  have hpasses := s.isChain_history operations
  rw [(h.sound honest).engine] at hpasses
  exact Moment.isChain_of_invariant (fun _ _ hpass => hpass.orderly)
    (fun _ _ hpass => hpass.follows honest hkeys) hpasses h.orderly.world

/-- The world of each moment is orderly, and if a run of a leaf has just ended, it is the world that the
run left. -/
theorem Reachable.of_mem_history (honest : engine.Honest) (h : Reachable engine scenario s)
    (hkeys : LeftToLeaves keys) (operations : List Operation) :
    ∀ m ∈ s.history operations, m.world.Orderly ∧
      ∀ r, m.cause = some r → r.after.world = m.world ∧ r.stage.world.now = m.world.now := by
  refine (h.isChain_history honest hkeys operations).induction _ _ ?_ ?_
  · intro m m' hfollows _
    refine ⟨hfollows.after, fun r hcause => ⟨(hfollows.runs r hcause).2, ?_⟩⟩
    rw [(hfollows.runs r hcause).1, hfollows.now_of_cause hcause]
  · exact fun _ => ⟨h.orderly.world, fun r (hr : none = some r) => nomatch hr⟩

end Simulation

end Menagerie
