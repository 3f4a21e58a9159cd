import Menagerie.Behavior.Tree
import Menagerie.Proofs.Behavior.Picks

/-!
# What a tick does, written down

All that a tree does to the state its actor does for it: guards are looked at, numbers are drawn, leaves are run. An
actor may write all this down (`Actor.logged`). Ticks are the same where it does (`Tree.tick_logged`), so that what it
writes down tells what a tick does otherwise, too (`Tree.events`).

A choice draws once and ticks at most the one child that it picks, and a gate that is barred does nothing but look at
its guard (`Tree.events_choice_of_pick`, `Tree.events_gate_of_barred`).
-/

namespace Menagerie

variable {ε ν σ τ Leaf Guard : Type}

/-- What an actor does for a tree. -/
inductive Event (Leaf Guard : Type) where
  | checked (guard : Guard)
  | drew (x : Float)
  | ran (l : Leaf)

/-- The same actor, which writes down what it does. -/
def Actor.logged (actor : Actor ε Leaf Guard σ) : Actor ε Leaf Guard (σ × List (Event Leaf Guard)) where
  run l := fun (s, log) =>
    let t := actor.run l s
    ⟨t.outcome, t.node, t.state, log ++ [.ran l]⟩
  check guard := fun (s, log) =>
    let (outcome, s) := actor.check guard s
    (outcome, s, log ++ [.checked guard])
  draw := fun (s, log) =>
    let (x, s) := actor.draw s
    (x, s, log ++ [.drew x])

namespace Actor

variable {actor : Actor ε Leaf Guard σ} {guard : Guard} {outcome : Except ε Bool} {s s' : σ} {x : Float}

theorem logged_check (h : actor.check guard s = (outcome, s')) (log : List (Event Leaf Guard)) :
    actor.logged.check guard (s, log) = (outcome, s', log ++ [.checked guard]) := by
  simp only [logged, h]

theorem logged_draw (h : actor.draw s = (x, s')) (log : List (Event Leaf Guard)) :
    actor.logged.draw (s, log) = (x, s', log ++ [.drew x]) := by
  simp only [logged, h]

end Actor

/-! ## Actors that go alike -/

/-- The same tick, of a state that is seen otherwise. -/
def Ticked.seen (f : σ → τ) (t : Ticked ε ν σ) : Ticked ε ν τ := ⟨t.outcome, t.node, f t.state⟩

/-- Whether an actor does with states as they are seen what another does with them as they are. -/
structure Actor.Follows (actor' : Actor ε Leaf Guard τ) (f : σ → τ) (actor : Actor ε Leaf Guard σ) : Prop where
  run : ∀ l s, actor'.run l (f s) = (actor.run l s).seen f
  check : ∀ guard s, actor'.check guard (f s) = ((actor.check guard s).1, f (actor.check guard s).2)
  draw : ∀ s, actor'.draw (f s) = ((actor.draw s).1, f (actor.draw s).2)

namespace Tree

variable {actor : Actor ε Leaf Guard σ} {actor' : Actor ε Leaf Guard τ} {f : σ → τ}

mutual

/-- Trees are ticked alike by actors that go alike. -/
theorem tick_of_follows (h : actor'.Follows f actor) : ∀ (t : Tree Leaf Guard) (s : σ),
    tick actor' t (f s) = (tick actor t s).seen f
  | .leaf l, s => by
    rw [tick, tick, h.run]
    rfl
  | .selector children, s => by
    rw [tick, tick, tickFirst_of_follows h children s]
    rfl
  | .choice options, s => by
    rw [tick, tick, h.draw]
    dsimp only
    cases pickWeighted (weights options) (actor.draw s).1 with
    | some i =>
      dsimp only
      rw [tickAt_of_follows h i options (actor.draw s).2]
      rfl
    | none => rfl
  | .gate guard child, s => by
    rw [tick, tick, h.check]
    rcases actor.check guard s with ⟨_ | holds, s'⟩
    · rfl
    · cases holds with
      | true =>
        dsimp only
        rw [tick_of_follows h child s']
        rfl
      | false => rfl

theorem tickFirst_of_follows (h : actor'.Follows f actor) : ∀ (children : List (Tree Leaf Guard)) (s : σ),
    tickFirst actor' children (f s) = (tickFirst actor children s).seen f
  | [], s => by
    rw [tickFirst, tickFirst]
    rfl
  | child :: rest, s => by
    rw [tickFirst, tickFirst, tick_of_follows h child s]
    rcases tick actor child s with ⟨_ | status, child', s'⟩
    · rfl
    · cases status with
      | success => rfl
      | failure =>
        dsimp only [Ticked.seen]
        rw [tickFirst_of_follows h rest s']
        rfl

theorem tickAt_of_follows (h : actor'.Follows f actor) :
    ∀ (i : Nat) (options : List (UInt32 × Tree Leaf Guard)) (s : σ),
    tickAt actor' i options (f s) = (tickAt actor i options s).seen f
  | _, [], s => by
    rw [tickAt, tickAt]
    rfl
  | 0, (_, child) :: _, s => by
    rw [tickAt, tickAt, tick_of_follows h child s]
    rfl
  | i + 1, _ :: rest, s => by
    rw [tickAt, tickAt, tickAt_of_follows h i rest s]
    rfl

end

/-! ## The events of a tick -/

/-- What is done in a tick, one thing after the other. -/
def events (actor : Actor ε Leaf Guard σ) (t : Tree Leaf Guard) (s : σ) : List (Event Leaf Guard) :=
  (tick actor.logged t (s, [])).state.2

/-- A tick that is written down is the same tick, and its events come after what was written down before. -/
theorem tick_logged (actor : Actor ε Leaf Guard σ) (t : Tree Leaf Guard) (s : σ) (log : List (Event Leaf Guard)) :
    tick actor.logged t (s, log) = (tick actor t s).seen (·, log ++ events actor t s) := by
  have herased : tick actor t s = (tick actor.logged t (s, [])).seen Prod.fst :=
    tick_of_follows (f := Prod.fst) ⟨fun _ _ => rfl, fun _ _ => rfl, fun _ => rfl⟩ t (s, [])
  have hbefore : actor.logged.Follows (fun state => (state.1, log ++ state.2)) actor.logged := by
    refine ⟨fun l state => ?_, fun guard state => ?_, fun state => ?_⟩
    all_goals
      simp only [Actor.logged, Ticked.seen, List.append_assoc]
  have hlog := tick_of_follows hbefore t (s, [])
  rw [List.append_nil] at hlog
  rw [hlog, herased]
  rfl

variable {guard : Guard} {child : Tree Leaf Guard} {options : List (UInt32 × Tree Leaf Guard)} {weight : UInt32}
  {s s' : σ} {x : Float} {i : Nat}

/-! ## Gates -/

/-- A guard that does not hold, or faults, is all that is looked at. -/
theorem tick_gate_of_barred (child : Tree Leaf Guard) (hcheck : (actor.check guard s).1 ≠ .ok true) :
    tick actor (.gate guard child) s =
      ⟨(actor.check guard s).1.map fun _ => .failure, .gate guard child, (actor.check guard s).2⟩ := by
  rw [tick]
  rcases h : actor.check guard s with ⟨_ | holds, s'⟩
  · rfl
  · cases holds with
    | true =>
      rw [h] at hcheck
      exact absurd rfl hcheck
    | false => rfl

theorem events_gate_of_barred (hcheck : (actor.check guard s).1 ≠ .ok true) :
    events actor (.gate guard child) s = [.checked guard] := by
  have hlogged : (actor.logged.check guard (s, [])).1 ≠ .ok true := hcheck
  rw [events, tick_gate_of_barred child hlogged]
  rfl

theorem tick_gate_of_open (hcheck : actor.check guard s = (.ok true, s')) :
    tick actor (.gate guard child) s = (tick actor child s').inside (.gate guard) := by
  rw [tick, hcheck]

theorem events_gate_of_open (hcheck : actor.check guard s = (.ok true, s')) :
    events actor (.gate guard child) s = .checked guard :: events actor child s' := by
  rw [events, tick_gate_of_open (Actor.logged_check hcheck []), tick_logged]
  rfl

/-! ## Choices -/

theorem tick_choice_of_none (hdraw : actor.draw s = (x, s')) (hpick : pickWeighted (weights options) x = none) :
    tick actor (.choice options) s = ⟨.ok .failure, .choice options, s'⟩ := by
  rw [tick, hdraw]
  dsimp only
  rw [hpick]

theorem events_choice_of_none (hdraw : actor.draw s = (x, s')) (hpick : pickWeighted (weights options) x = none) :
    events actor (.choice options) s = [.drew x] := by
  rw [events, tick_choice_of_none (Actor.logged_draw hdraw []) hpick]
  rfl

/-- The option at a position is ticked, and the others are left as they are. -/
theorem tickAt_eq (h : options[i]? = some (weight, child)) (s : σ) :
    tickAt actor i options s = (tick actor child s).inside fun child => options.set i (weight, child) := by
  induction options generalizing i with
  | nil => cases h
  | cons option rest ih =>
    cases i with
    | zero =>
      cases h
      rw [tickAt]
      rfl
    | succ i =>
      rw [tickAt, ih h]
      rfl

/-- Options keep their weights. -/
theorem map_fst_set (h : options[i]? = some (weight, child)) (child' : Tree Leaf Guard) :
    (options.set i (weight, child')).map Prod.fst = options.map Prod.fst := by
  have hweight : (options.map Prod.fst)[i]? = some weight := by
    rw [List.getElem?_map, h]
    rfl
  obtain ⟨hi, rfl⟩ := List.getElem?_eq_some_iff.mp hweight
  rw [List.map_set]
  exact List.set_getElem_self hi

theorem tick_choice_of_pick (hdraw : actor.draw s = (x, s')) (hpick : pickWeighted (weights options) x = some i)
    (h : options[i]? = some (weight, child)) :
    tick actor (.choice options) s =
      (tick actor child s').inside fun child => .choice (options.set i (weight, child)) := by
  rw [tick, hdraw]
  dsimp only
  rw [hpick]
  dsimp only
  rw [tickAt_eq h]
  rfl

theorem events_choice_of_pick (hdraw : actor.draw s = (x, s')) (hpick : pickWeighted (weights options) x = some i)
    (h : options[i]? = some (weight, child)) :
    events actor (.choice options) s = .drew x :: events actor child s' := by
  rw [events, tick_choice_of_pick (Actor.logged_draw hdraw []) hpick h, tick_logged]
  rfl

/-- A draw picks no option exactly where all weights are zero. -/
theorem pickWeighted_weights_eq_none_iff : pickWeighted (weights options) x = none ↔ ∀ o ∈ options, o.1 = 0 := by
  rw [pickWeighted_eq_none_iff, weights, List.forall_mem_map]
  exact forall₂_congr fun o _ => by rw [weighs_toFloat_iff, not_not]

/-- An option that is picked has a weight above zero. -/
theorem exists_of_pickWeighted_weights (h : pickWeighted (weights options) x = some i) :
    ∃ weight child, options[i]? = some (weight, child) ∧ weight ≠ 0 := by
  obtain ⟨hi, hcounts⟩ := weighs_of_pickWeighted h
  rw [weights, List.length_map] at hi
  refine ⟨options[i].1, options[i].2, List.getElem?_eq_getElem hi, ?_⟩
  rw [← weighs_toFloat_iff]
  simpa [weights] using hcounts

end Tree

end Menagerie
