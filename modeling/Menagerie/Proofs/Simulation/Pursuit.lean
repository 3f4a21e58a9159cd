import Menagerie.Proofs.Simulation.Holding
import Menagerie.Proofs.Task.Pursuit

/-!
# How long an item is pursued

An agent that goes after an item remembers how often it has attempted to reach it. From one moment of a run to
the next the count goes up by one with a turn at the item, is forgotten together with the want, or stays what
it is (`Moment.Attempts`). So it tells the turns since it was last forgotten, and those since an item became
the wanted one where nothing was held then (`Simulation.Reachable.attempts_since`). What an agent senses
changes its want alone: if an item is gone before the agent has another turn at it, the count goes on with the
next one (`Simulation.attempts_kept_wolves`).
-/

namespace Menagerie

namespace World

variable {w w' : World} {id : AgentId} {b : Body}

/-- The item that an agent wants. -/
def wanted? (w : World) (id : AgentId) : Option ItemId := (w.memory? id).bind Blackboard.wanted?

/-- How often an agent has attempted to reach it, if it remembers that. -/
def attempts? (w : World) (id : AgentId) : Option UInt32 := (w.memory? id).bind Blackboard.attempts?

theorem wanted?_of_body? (hb : w.body? id = some b) : w.wanted? id = b.memory.wanted? := by
  unfold wanted? memory?
  rw [hb]
  rfl

theorem attempts?_of_body? (hb : w.body? id = some b) : w.attempts? id = b.memory.attempts? := by
  unfold attempts? memory?
  rw [hb]
  rfl

theorem eq_none_of_body? (hb : w.body? id = none) : w.wanted? id = none ∧ w.attempts? id = none := by
  unfold wanted? attempts? memory?
  rw [hb]
  exact ⟨rfl, rfl⟩

end World

namespace Blackboard

variable {m m' : Blackboard}

theorem wanted?_congr (h : m'.state .wantedItem = m.state .wantedItem) : m'.wanted? = m.wanted? := by
  unfold wanted?
  rw [get?_congr h]

theorem attempts?_congr (h : m'.state .timeTryingToReachItem = m.state .timeTryingToReachItem) :
    m'.attempts? = m.attempts? := by
  unfold attempts?
  rw [get?_congr h]

end Blackboard

/-! ## Turns -/

/-- What a run may do to the want of an agent and to its count of attempts. -/
inductive World.Attempts (id : AgentId) (w w' : World) : Prop
  | keeps : w'.wanted? id = w.wanted? id → w'.attempts? id = w.attempts? id → Attempts id w w'
  | ends : w'.wanted? id = none → w'.attempts? id = none → Attempts id w w'
  | counts {item : ItemId} : w.wanted? id = some item → w'.wanted? id = some item →
      w'.attempts? id = some ((w.attempts? id).getD 0 + 1) → Attempts id w w'

namespace LeafRun

variable {r : LeafRun} {id : AgentId}

/-- Whether a run is a turn of an agent at its item that stores a count: it is another one than before. -/
def counts (r : LeafRun) (id : AgentId) : Bool :=
  decide (r.IsTurn id) && (r.after.world.attempts? id).isSome &&
    r.after.world.attempts? id != r.stage.world.attempts? id

theorem same_of_not_isTurn (hindexed : r.stage.world.Indexed) (hturn : ¬ r.IsTurn id) :
    r.after.world.wanted? id = r.stage.world.wanted? id ∧
      r.after.world.attempts? id = r.stage.world.attempts? id := by
  have hsame := r.state_of_not_isTurn hindexed hturn
  unfold World.wanted? World.attempts? World.memory?
  generalize r.stage.world.body? id = body, r.after.world.body? id = body' at hsame ⊢
  cases hsame with
  | none => exact ⟨rfl, rfl⟩
  | some hsame =>
    exact ⟨Blackboard.wanted?_congr (hsame _ (.inl rfl)), Blackboard.attempts?_congr (hsame _ (.inr rfl))⟩

theorem attempts_world (r : LeafRun) (hindexed : r.stage.world.Indexed) (id : AgentId) :
    World.Attempts id r.stage.world r.after.world := by
  have hattempts := r.attempts hindexed id
  cases hb : r.stage.world.body? id with
  | none =>
    rw [hb, optionRel_none_left] at hattempts
    obtain ⟨hwanted, hcount⟩ := World.eq_none_of_body? hattempts
    exact .ends hwanted hcount
  | some b =>
    rw [hb, optionRel_some_left] at hattempts
    obtain ⟨b', hb', hattempts⟩ := hattempts
    have hwanted := World.wanted?_of_body? hb
    have hcount := World.attempts?_of_body? hb
    have hwanted' := World.wanted?_of_body? hb'
    have hcount' := World.attempts?_of_body? hb'
    cases hattempts with
    | keeps hw ha =>
      refine .keeps ?_ ?_
      · rw [hwanted, hwanted', Blackboard.wanted?_congr hw]
      · rw [hcount, hcount', Blackboard.attempts?_congr ha]
    | ends hw ha =>
      refine .ends ?_ ?_
      · rw [hwanted', Blackboard.wanted?, hw]
        rfl
      · rw [hcount', Blackboard.attempts?, ha]
        rfl
    | @counts item hitem hw ha =>
      refine .counts (hwanted.trans hitem) ?_ ?_
      · rw [hwanted', Blackboard.wanted?_congr hw, hitem]
      · rw [hcount', hcount, Blackboard.attempts?, Blackboard.get?, ha]
        rfl

end LeafRun

/-! ## Counts that last -/

/-- Whether a value is a count that is there for good. -/
def CountsForGood (_ : AgentId) (value : MemoryValue) (expiresAt : Option Tick) : Prop :=
  expiresAt = none ∧ ∃ n, value = .count n

theorem leftToLeaves_attempts : LeftToLeaves (· = .timeTryingToReachItem) := by
  rintro _ rfl
  exact ⟨by decide, fun kind => by cases kind <;> decide⟩

theorem Engine.Honest.upholds_countsForGood {e : Engine} (honest : e.Honest) :
    e.Upholds .timeTryingToReachItem CountsForGood where
  walk := by decide
  senses := by
    intro kind sensor hsensor id w _ u hu
    refine MemoryUpdate.keeps_of_ne fun hkey => ?_
    have hmem := honest kind sensor hsensor id w u hu
    rw [hkey] at hmem
    exact (leftToLeaves_attempts _ rfl).2 kind hmem
  runs := by
    intro r horderly hr id b' value expiresAt hb' hstate
    have hattempts := r.attempts horderly.indexed id
    rw [hb', optionRel_some_right] at hattempts
    obtain ⟨b, hb, hattempts⟩ := hattempts
    cases hattempts with
    | keeps _ ha =>
      rw [ha] at hstate
      exact hr id b value expiresAt hb hstate
    | ends _ ha =>
      unfold Blackboard.get? at ha
      rw [hstate] at ha
      cases ha
    | counts _ _ ha =>
      rw [ha] at hstate
      cases hstate
      exact ⟨rfl, _, rfl⟩

theorem World.Holds.attempts?_of_lapses {w w' : World} (h : w.Holds .timeTryingToReachItem CountsForGood)
    (hlapses : w.Lapses (· = .timeTryingToReachItem) w') (id : AgentId) :
    w'.attempts? id = w.attempts? id := by
  have hbodies := hlapses.bodies id
  cases hb : w.body? id with
  | none =>
    rw [hb, optionRel_none_left] at hbodies
    rw [(World.eq_none_of_body? hb).2, (World.eq_none_of_body? hbodies).2]
  | some b =>
    rw [hb, optionRel_some_left] at hbodies
    obtain ⟨b', hb', hmemory⟩ := hbodies
    rw [World.attempts?_of_body? hb, World.attempts?_of_body? hb']
    refine Blackboard.attempts?_congr ?_
    rw [hmemory.state _ rfl]
    cases hstate : b.memory.state .timeTryingToReachItem with
    | absent | registered => rfl
    | present value expiresAt =>
      obtain ⟨rfl, _⟩ := h id b value expiresAt hb hstate
      rfl

/-! ## From moment to moment -/

/-- Whether a run has just ended in which an agent attempted to reach its item and counted that. -/
def Moment.pursues (id : AgentId) (m : Moment) : Bool := m.cause.any fun r => r.counts id

/-- What may become of the want of an agent and of its count of attempts from one moment to the next. -/
inductive Moment.Attempts (id : AgentId) (m m' : Moment) : Prop
  /-- No leaf changes the want. -/
  | keeps : m'.pursues id = false → (m'.cause.isSome → m'.world.wanted? id = m.world.wanted? id) →
      m'.world.attempts? id = m.world.attempts? id → Attempts id m m'
  | ends : m'.pursues id = false → m'.world.wanted? id = none → m'.world.attempts? id = none → Attempts id m m'
  | counts {item : ItemId} : m'.pursues id = true → m.world.wanted? id = some item →
      m'.world.wanted? id = some item →
      m'.world.attempts? id = some ((m.world.attempts? id).getD 0 + 1) → Attempts id m m'

namespace Moment

variable {engine : Engine} {m m' : Moment} {id : AgentId}

theorem attempts_of_run {r : LeafRun} (hindexed : m.world.Indexed) (hbefore : r.stage.world = m.world)
    (hafter : r.after.world = m'.world) (hcause : m'.cause = some r) : Attempts id m m' := by
  have hpursues : m'.pursues id = r.counts id := by
    unfold pursues
    rw [hcause]
    rfl
  rw [← hbefore] at hindexed
  have hattempts := r.attempts_world hindexed id
  unfold LeafRun.counts at hpursues
  rw [hbefore, hafter] at hattempts hpursues
  cases hattempts with
  | keeps hw ha =>
    refine .keeps ?_ (fun _ => hw) ha
    rw [hpursues, ha, bne_self_eq_false, Bool.and_false]
  | ends hw ha =>
    refine .ends ?_ hw ha
    rw [hpursues, ha]
    simp
  | counts hitem hw ha =>
    have hnew : m'.world.attempts? id ≠ m.world.attempts? id := by
      rw [ha]
      cases m.world.attempts? id with
      | none => simp
      | some n => simp
    have hturn : r.IsTurn id := by
      by_contra hturn
      obtain ⟨_, hsame⟩ := r.same_of_not_isTurn hindexed hturn
      rw [hbefore, hafter] at hsame
      exact hnew hsame
    refine .counts ?_ hitem hw ha
    rw [hpursues, decide_eq_true hturn, bne_iff_ne.mpr hnew, ha]
    rfl

/-- From each moment of a run to the next. -/
theorem Succeeds.attempts (honest : engine.Honest) (h : m.Succeeds engine m') (hm : m.world.Orderly)
    (hlast : m.world.Holds .timeTryingToReachItem CountsForGood) (id : AgentId) : Attempts id m m' := by
  have hsame {w : World} (hbody : w.body? id = m.world.body? id) : Attempts id m { world := w } := by
    refine .keeps rfl (fun hcause => nomatch hcause) ?_
    unfold World.attempts? World.memory?
    rw [hbody]
  cases h with
  | refuses => exact hsame rfl
  | @spawns b hblank _ =>
    have hbody := World.body?_insertBody m.world b id
    split at hbody
    · refine .ends rfl ?_ ?_
      · rw [World.wanted?_of_body? hbody, Blackboard.wanted?, hblank.get?_eq_none]
        rfl
      · rw [World.attempts?_of_body? hbody, Blackboard.attempts?, hblank.get?_eq_none]
        rfl
    · exact hsame hbody
  | despawns other =>
    have hbody := m.world.body?_removeBody other id
    split at hbody
    · exact .ends rfl (World.eq_none_of_body? hbody).1 (World.eq_none_of_body? hbody).2
    · exact hsame hbody
  | passes hpasses =>
    have hfollows := hpasses.follows honest leftToLeaves_attempts hm
    cases hcause : m'.cause with
    | none =>
      refine .keeps ?_ (fun hsome => ?_) (hlast.attempts?_of_lapses (hfollows.lapses hcause) id)
      · unfold pursues
        rw [hcause]
        rfl
      · rw [hcause] at hsome
        cases hsome
    | some r =>
      obtain ⟨hbefore, hafter⟩ := hfollows.runs r hcause
      exact attempts_of_run hm.indexed hbefore hafter hcause

variable {l since : List Moment}

/-- As long as an agent forgets nothing, the count goes up by one with each turn. -/
theorem attempts_eq_add (hchain : (m :: l).IsChain (Attempts id)) (hlast : (m :: l).getLast? = some m')
    (hgoing : ∀ x ∈ l, x.world.wanted? id ≠ none ∨ x.world.attempts? id ≠ none) :
    (m'.world.attempts? id).getD 0 =
      (m.world.attempts? id).getD 0 + .ofNat (l.countP fun x => x.pursues id) := by
  induction l generalizing m with
  | nil =>
    cases hlast
    simp
  | cons x rest ih =>
    obtain ⟨hnext, hrest⟩ := List.isChain_cons_cons.mp hchain
    rw [List.forall_mem_cons] at hgoing
    rw [List.getLast?_cons_cons] at hlast
    rw [ih hrest hlast hgoing.2, List.countP_cons]
    cases hnext with
    | keeps hidle _ hsame => rw [hsame, hidle]; simp
    | ends _ hwanted hcount => exact absurd hgoing.1 (by simp [hwanted, hcount])
    | counts hpursues _ _ hcount =>
      rw [hcount, hpursues, Option.getD_some, if_pos rfl, UInt32.ofNat_add,
        UInt32.add_comm (UInt32.ofNat _), UInt32.add_assoc]
      rfl

/-- As long as an agent has no turn, nothing is counted. -/
theorem attempts?_eq_none (hchain : (m :: l).IsChain (Attempts id)) (hm : m.world.attempts? id = none)
    (hidle : ∀ x ∈ l, x.pursues id = false) : ∀ x ∈ m :: l, x.world.attempts? id = none := by
  induction l generalizing m with
  | nil => exact List.forall_mem_singleton.mpr hm
  | cons x rest ih =>
    obtain ⟨hnext, hrest⟩ := List.isChain_cons_cons.mp hchain
    rw [List.forall_mem_cons] at hidle ⊢
    refine ⟨hm, ih hrest ?_ hidle.2⟩
    cases hnext with
    | keeps _ _ hsame => exact hsame.trans hm
    | ends _ _ hcount => exact hcount
    | counts hpursues => rw [hidle.1] at hpursues; cases hpursues

end Moment

namespace Simulation

variable {engine : Engine} {scenario : Scenario} {s : Simulation}

theorem Reachable.isChain_attempts (honest : engine.Honest) (h : Reachable engine scenario s)
    (requests : List Request) (id : AgentId) : (s.chronicle requests).IsChain (Moment.Attempts id) := by
  have hsucceeds := s.isChain_chronicle requests
  rw [h.paired.engine] at hsucceeds
  have hupholds := honest.upholds_countsForGood
  refine Moment.isChain_of_invariant
    (p := fun m => m.world.Orderly ∧ m.world.Holds .timeTryingToReachItem CountsForGood) ?_ ?_ hsucceeds
    ⟨h.orderly.world, h.holds hupholds⟩
  · exact fun _ _ hnext hm => ⟨hnext.orderly hm.1, hupholds.succeeds hnext hm.1 hm.2⟩
  · exact fun _ _ hnext hm => hnext.attempts honest hm.1 hm.2 id

/-- While one item is wanted, the count that a turn stores is what was held before and one for each turn since;
it is the number of turns since the count was last forgotten. What is held when an item becomes the wanted one
is what was held just before, and it is nothing where the agent has ended its last want itself, so that the next
turn is the first. -/
theorem Reachable.attempts_since (honest : engine.Honest) (h : Reachable engine scenario s)
    {requests : List Request} {before since after : List Moment} {m₀ m : Moment}
    (hchronicle : s.chronicle requests = before ++ m₀ :: (since ++ m :: after)) {id : AgentId}
    (hpursues : m.pursues id) :
    let turns := (since ++ [m]).countP fun x => x.pursues id
    (∀ item, (∀ x ∈ m₀ :: since, x.world.wanted? id = some item) → m.world.wanted? id = some item ∧
      m.world.attempts? id = some ((m₀.world.attempts? id).getD 0 + .ofNat turns)) ∧
    (m₀.world.attempts? id = none → (∀ x ∈ since, x.world.attempts? id ≠ none) →
      m.world.attempts? id = some (.ofNat turns)) ∧
    ∀ p item, before.getLast? = some p →
      (m₀.world.wanted? id = some item → p.world.wanted? id ≠ some item →
        m₀.world.attempts? id = p.world.attempts? id) ∧
      (p.world.wanted? id = some item → m₀.world.wanted? id ≠ some item → m₀.cause.isSome →
        (∀ x ∈ since, x.pursues id = false) → m.world.attempts? id = some 1) := by
  intro turns
  have hall := h.isChain_attempts honest requests id
  rw [hchronicle] at hall
  obtain ⟨hsince, x, hx, hnext⟩ :=
    Moment.exists_last_of_isChain (List.isChain_cons_split.mp hall.right_of_append).1
  -- A turn that counts is at the item that was wanted before it.
  obtain ⟨item, hbefore, hwanted, hcount⟩ : ∃ item, x.world.wanted? id = some item ∧
      m.world.wanted? id = some item ∧ m.world.attempts? id = some ((x.world.attempts? id).getD 0 + 1) := by
    cases hnext with
    | keeps hidle | ends hidle => rw [hidle] at hpursues; cases hpursues
    | counts _ hbefore hwanted hcount => exact ⟨_, hbefore, hwanted, hcount⟩
  have hturns (hgoing : ∀ x ∈ since, x.world.wanted? id ≠ none ∨ x.world.attempts? id ≠ none) :
      m.world.attempts? id = some ((m₀.world.attempts? id).getD 0 + .ofNat turns) := by
    rw [hcount, Moment.attempts_eq_add hsince hx hgoing, UInt32.add_assoc]
    congr 2
    show _ = UInt32.ofNat ((since ++ [m]).countP _)
    rw [List.countP_append, List.countP_singleton, if_pos hpursues, UInt32.ofNat_add]
    rfl
  refine ⟨?_, ?_, ?_⟩
  · intro i hi
    have heq : item = i := by
      rw [hi x (List.mem_of_getLast? hx)] at hbefore
      exact (Option.some.inj hbefore).symm
    subst heq
    refine ⟨hwanted, hturns fun y hy => .inl ?_⟩
    rw [hi y (List.mem_cons_of_mem _ hy)]
    exact Option.some_ne_none item
  · intro hnone hheld
    rw [hturns fun y hy => .inr (hheld y hy), hnone, Option.getD_none, UInt32.zero_add]
  · intro p i hp
    have hchange : Moment.Attempts id p m₀ := (List.isChain_append.mp hall).2.2 p hp m₀ rfl
    refine ⟨fun hbegun hnew => ?_, fun hpwanted hended hcause hidle => ?_⟩
    · cases hchange with
      | keeps _ _ hsame => exact hsame
      | ends _ hnone => cases hbegun.symm.trans hnone
      | counts _ hp' hm₀ => exact absurd (hp'.trans (hm₀.symm.trans hbegun)) hnew
    · have hforgotten : m₀.world.attempts? id = none := by
        cases hchange with
        | keeps _ hsame => exact absurd ((hsame hcause).trans hpwanted) hended
        | ends _ _ hnone => exact hnone
        | counts _ hp' hm₀ => exact absurd (hm₀.trans (hp'.symm.trans hpwanted)) hended
      rw [hcount, Moment.attempts?_eq_none hsince hforgotten hidle x (List.mem_of_getLast? hx)]
      rfl

/-- A wolf that gives up after two turns. It counts two, forgets them, and starts over after a pause. -/
theorem Reachable.attempts_since_wolf :
    let fetching : LeafSpec :=
      .moveToItem (.bool true) (.number 0.5) (.number 7.0) (.number 2.0) (.number 1.0)
    let wolf : Template :=
      { name := "wolf", species := "wolf", enabled := true, maxHealth := 20.0
        defaultActivity := .core, overrides := .empty, declarations := [], herd := {}
        activities := [⟨.core, [⟨0, .leaf fetching⟩]⟩] }
    let engine : Engine :=
      { settings := { sensors := { itemInterval := 1 } }
        templates := { templates := .ofList [("wolf", wolf)] } }
    let scenario : Scenario :=
      { agents := [{ template := "wolf", position := ⟨0, 64, 0⟩ }], items := [⟨⟨7⟩, ⟨5, 64, 0⟩⟩] }
    let s := ofScenario engine scenario
    let requests := [.step, .step, .step, .step]
    engine.Honest ∧ Reachable engine scenario s ∧
      (∃ before m₀ since m after, s.chronicle requests = before ++ m₀ :: (since ++ m :: after) ∧
        m.pursues ⟨1⟩ ∧ (∀ x ∈ m₀ :: since, x.world.wanted? ⟨1⟩ = some ⟨7⟩) ∧
        m₀.world.attempts? ⟨1⟩ = none ∧ (∀ x ∈ since, x.world.attempts? ⟨1⟩ ≠ none) ∧
        m.world.attempts? ⟨1⟩ = some 2 ∧ ∃ p, before.getLast? = some p ∧
          p.world.wanted? ⟨1⟩ ≠ some ⟨7⟩ ∧ m₀.world.attempts? ⟨1⟩ = p.world.attempts? ⟨1⟩) ∧
      ∃ before p m₀ since m after, s.chronicle requests = before ++ m₀ :: (since ++ m :: after) ∧
        m.pursues ⟨1⟩ ∧ before.getLast? = some p ∧ p.world.wanted? ⟨1⟩ = some ⟨7⟩ ∧
        m₀.world.wanted? ⟨1⟩ ≠ some ⟨7⟩ ∧ m₀.cause.isSome ∧ (∀ x ∈ since, x.pursues ⟨1⟩ = false) ∧
        m.world.attempts? ⟨1⟩ = some 1 := by
  intro fetching wolf engine scenario s requests
  have honest : engine.Honest := by
    rintro kind _ ⟨⟩
    exact Sensor.honest_ofKind _ kind
  have reachable : Reachable engine scenario s := .start
  have hbegins : ((s.chronicle requests)[3]?).any (fun m => m.world.wanted? ⟨1⟩ = some ⟨7⟩ ∧
      m.world.attempts? ⟨1⟩ = none) := by decide +kernel
  have hbefore : (((s.chronicle requests).take 3).getLast?).any (fun p =>
      p.world.wanted? ⟨1⟩ ≠ some ⟨7⟩) := by decide +kernel
  have hgoes : ∀ x ∈ ((s.chronicle requests).drop 4).take 6, x.world.wanted? ⟨1⟩ = some ⟨7⟩ ∧
      x.world.attempts? ⟨1⟩ ≠ none := by decide +kernel
  have hfirst : (((s.chronicle requests).drop 4).take 6).countP (fun x => x.pursues ⟨1⟩) = 1 := by
    decide +kernel
  have hsecond : (((s.chronicle requests).drop 4)[6]?).any (Moment.pursues ⟨1⟩) := by decide +kernel
  have hwants : (((s.chronicle requests).take 16).getLast?).any (fun p =>
      p.world.wanted? ⟨1⟩ = some ⟨7⟩) := by decide +kernel
  have hends : ((s.chronicle requests)[16]?).any (fun m => m.world.wanted? ⟨1⟩ ≠ some ⟨7⟩ ∧
      m.cause.isSome) := by decide +kernel
  have hpauses : ∀ x ∈ ((s.chronicle requests).drop 17).take 5, x.pursues ⟨1⟩ = false := by decide +kernel
  have hagain : (((s.chronicle requests).drop 17)[5]?).any (Moment.pursues ⟨1⟩) := by decide +kernel
  generalize hchronicle : s.chronicle requests = chronicle at *
  refine ⟨honest, reachable, ?_, ?_⟩
  · obtain ⟨m₀, hm₀, hfacts⟩ := (Option.any_eq_true _ _).mp hbegins
    obtain ⟨hwanted, hnone⟩ := of_decide_eq_true hfacts
    obtain ⟨m, hm, hpursues⟩ := (Option.any_eq_true _ _).mp hsecond
    have hsplit := Moment.split_of_getElem? hm₀ hm
    have hall : ∀ x ∈ m₀ :: (chronicle.drop 4).take 6, x.world.wanted? ⟨1⟩ = some ⟨7⟩ :=
      List.forall_mem_cons.mpr ⟨hwanted, fun x hx => (hgoes x hx).1⟩
    obtain ⟨p, hp, hnew⟩ := (Option.any_eq_true _ _).mp hbefore
    obtain ⟨hheld, _, hkept⟩ := reachable.attempts_since honest (hchronicle.trans hsplit) hpursues
    have hcounted := (hheld ⟨7⟩ hall).2
    rw [hnone, List.countP_append, hfirst, List.countP_singleton, if_pos hpursues] at hcounted
    exact ⟨_, m₀, _, m, _, hsplit, hpursues, hall, hnone, fun x hx => (hgoes x hx).2, hcounted, p, hp,
      of_decide_eq_true hnew, (hkept p ⟨7⟩ hp).1 hwanted (of_decide_eq_true hnew)⟩
  · obtain ⟨p, hp, hpwants⟩ := (Option.any_eq_true _ _).mp hwants
    obtain ⟨m₀, hm₀, hfacts⟩ := (Option.any_eq_true _ _).mp hends
    obtain ⟨hended, hcause⟩ := of_decide_eq_true hfacts
    obtain ⟨m, hm, hpursues⟩ := (Option.any_eq_true _ _).mp hagain
    have hsplit := Moment.split_of_getElem? hm₀ hm
    have hone := ((reachable.attempts_since honest (hchronicle.trans hsplit) hpursues).2.2 p ⟨7⟩ hp).2
      (of_decide_eq_true hpwants) hended hcause hpauses
    exact ⟨_, p, m₀, _, m, _, hsplit, hpursues, hp, of_decide_eq_true hpwants, hended, hcause, hpauses, hone⟩

/-- Of two wolves that go after one item, one reaches it first. The other goes after the next item, and the first
turn at that one counts as the second. -/
theorem attempts_kept_wolves :
    let fetching : LeafSpec :=
      .moveToItem (.bool true) (.number 0.6) (.number 7.0) (.number 60.0) (.number 100.0)
    let wolf : Template :=
      { name := "wolf", species := "wolf", enabled := true, maxHealth := 20.0
        defaultActivity := .core, overrides := .empty, declarations := [], herd := {}
        activities := [⟨.core, [⟨0, .leaf fetching⟩]⟩] }
    let engine : Engine :=
      { settings := { sensors := { itemInterval := 1 } }
        templates := { templates := .ofList [("wolf", wolf)] } }
    let scenario : Scenario :=
      { agents := [{ template := "wolf", position := ⟨0, 64, 0⟩ },
          { template := "wolf", position := ⟨4, 64, 0⟩ }]
        items := [⟨⟨7⟩, ⟨4, 64, 0⟩⟩, ⟨⟨8⟩, ⟨0, 64, 5⟩⟩] }
    let chronicle := (ofScenario engine scenario).chronicle [.step, .step]
    (chronicle.any fun m => m.pursues ⟨1⟩ && (m.world.wanted? ⟨1⟩ == some ⟨8⟩ &&
      m.world.attempts? ⟨1⟩ == some 2)) ∧
    (chronicle.countP fun m => m.pursues ⟨1⟩ && m.world.wanted? ⟨1⟩ == some ⟨8⟩) = 1 := by
  decide +kernel

end Simulation

end Menagerie
