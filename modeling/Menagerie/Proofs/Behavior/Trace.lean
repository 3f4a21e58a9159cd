import Menagerie.Proofs.Behavior.Tree

/-!
# Which leaves a tick runs

A tick of a tree runs some of its leaves, one after the other (`Tree.runs`). Where guards and draws
change nothing that is looked at, these runs are all that a tick does: each starts from what the one
before it left, and the last leaves what the tick leaves (`Tree.leads_tick`).
-/

namespace Menagerie

variable {ε ν ρ ρ' σ ω Leaf Guard : Type}

/-! ## Runs in sequence -/

/-- Whether runs lead from one state to another, as far as the states are looked at: each run starts
from what the one before it left, and the last leaves what there is in the end. -/
def Leads (view : σ → ω) (before after : ρ → σ) : σ → List ρ → σ → Prop
  | s, [], s' => view s' = view s
  | s, run :: rest, s' => view (before run) = view s ∧ Leads view before after (after run) rest s'

namespace Leads

variable {view : σ → ω} {before after : ρ → σ} {runs runs' : List ρ} {s s' s'' : σ}

theorem of_view_left (hview : view s = view s') (h : Leads view before after s' runs s'') :
    Leads view before after s runs s'' := by
  cases runs with
  | nil => exact Eq.trans h hview.symm
  | cons run rest => exact ⟨h.1.trans hview.symm, h.2⟩

theorem append (h : Leads view before after s runs s') (h' : Leads view before after s' runs' s'') :
    Leads view before after s (runs ++ runs') s'' := by
  induction runs generalizing s with
  | nil => exact h'.of_view_left (Eq.symm h)
  | cons run rest ih => exact ⟨h.1, ih h.2⟩

theorem map {before' after' : ρ' → σ} {f : ρ → ρ'} (hbefore : ∀ run, before' (f run) = before run)
    (hafter : ∀ run, after' (f run) = after run) (h : Leads view before after s runs s') :
    Leads view before' after' s (runs.map f) s' := by
  induction runs generalizing s with
  | nil => exact h
  | cons run rest ih =>
    refine ⟨?_, ?_⟩
    · rw [hbefore]
      exact h.1
    · rw [hafter]
      exact ih h.2

/-- What comes after a run leads on to the end. -/
theorem exists_of_mem {run : ρ} (h : Leads view before after s runs s') (hrun : run ∈ runs) :
    ∃ rest, (∀ later ∈ rest, later ∈ runs) ∧ Leads view before after (after run) rest s' := by
  induction runs generalizing s with
  | nil => cases hrun
  | cons first rest ih =>
    rcases List.mem_cons.mp hrun with rfl | hlater
    · exact ⟨rest, fun later => List.mem_cons_of_mem _, h.2⟩
    · obtain ⟨after, hafter, hleads⟩ := ih h.2 hlater
      exact ⟨after, fun later hlater => List.mem_cons_of_mem _ (hafter later hlater), hleads⟩

/-- What every run brings about, and what puts together, the runs bring about. -/
theorem rel (rel : ω → ω → Prop) (hrefl : ∀ a, rel a a)
    (htrans : ∀ {a b c}, rel a b → rel b c → rel a c)
    (hruns : ∀ run ∈ runs, rel (view (before run)) (view (after run)))
    (h : Leads view before after s runs s') : rel (view s) (view s') := by
  induction runs generalizing s with
  | nil =>
    have hsame : view s' = view s := h
    rw [hsame]
    exact hrefl _
  | cons run rest ih =>
    rw [List.forall_mem_cons] at hruns
    rw [← h.1]
    exact htrans hruns.1 (ih hruns.2 h.2)

/-- What holds at first and is kept by every run holds before and after each of them. -/
theorem forall_mem {p : ω → Prop}
    (hruns : ∀ run ∈ runs, p (view (before run)) → p (view (after run)))
    (h : Leads view before after s runs s') (hs : p (view s)) :
    ∀ run ∈ runs, p (view (before run)) ∧ p (view (after run)) := by
  induction runs generalizing s with
  | nil => exact fun run hrun => nomatch hrun
  | cons run rest ih =>
    rw [List.forall_mem_cons] at hruns ⊢
    have hbefore : p (view (before run)) := h.1 ▸ hs
    have hafter := hruns.1 hbefore
    exact ⟨⟨hbefore, hafter⟩, ih hruns.2 h.2 hafter⟩

/-- What is counted of runs, each of which makes some value go up if it is counted and none of which
makes it go down, is at most what the value has gone up by in the end. -/
theorem add_countP_le (value : ω → Nat) (p : ρ → Bool)
    (hruns : ∀ run ∈ runs, value (view (before run)) + (if p run then 1 else 0) ≤
      value (view (after run)))
    (h : Leads view before after s runs s') :
    value (view s) + runs.countP p ≤ value (view s') := by
  induction runs generalizing s with
  | nil =>
    have hsame : view s' = view s := h
    rw [hsame]
    exact Nat.le_refl _
  | cons run rest ih =>
    rw [List.forall_mem_cons] at hruns
    have hrest := ih hruns.2 h.2
    have hrun := hruns.1
    rw [h.1] at hrun
    rw [List.countP_cons]
    omega

end Leads

/-- Whether guards and draws change nothing that is looked at. -/
structure Actor.Unseen (actor : Actor ε Leaf Guard σ) (view : σ → ω) : Prop where
  check : ∀ g s, view (actor.check g s).2 = view s
  draw : ∀ s, view (actor.draw s).2 = view s

namespace Tree

/-! ## The runs of a tick -/

mutual

/-- The leaves that a tick runs, each with the state that it starts from. -/
def runs (actor : Actor ε Leaf Guard σ) : Tree Leaf Guard → σ → List (Leaf × σ)
  | .leaf l, s => [(l, s)]
  | .selector children, s => runsFirst actor children s
  | .choice options, s =>
    let (draw, s) := actor.draw s
    match pickWeighted (weights options) draw with
    | some i => runsAt actor i options s
    | none => []
  | .gate guard child, s =>
    match actor.check guard s with
    | (.ok true, s) => runs actor child s
    | _ => []

/-- The leaves that are run where children are ticked up to the first that does not fail. -/
def runsFirst (actor : Actor ε Leaf Guard σ) : List (Tree Leaf Guard) → σ → List (Leaf × σ)
  | [], _ => []
  | child :: rest, s =>
    let t := tick actor child s
    match t.outcome with
    | .ok .failure => runs actor child s ++ runsFirst actor rest t.state
    | _ => runs actor child s

/-- The leaves that are run where the option at a position is ticked. -/
def runsAt (actor : Actor ε Leaf Guard σ) :
    Nat → List (UInt32 × Tree Leaf Guard) → σ → List (Leaf × σ)
  | _, [], _ => []
  | 0, (_, child) :: _, s => runs actor child s
  | i + 1, _ :: rest, s => runsAt actor i rest s

end

variable {actor : Actor ε Leaf Guard σ} {view : σ → ω}

mutual

/-- A tick comes to what its runs come to. -/
theorem leads_tick (unseen : actor.Unseen view) : ∀ (t : Tree Leaf Guard) (s : σ),
    Leads view Prod.snd (fun run => (actor.run run.1 run.2).state) s (runs actor t s)
      (tick actor t s).state
  | .leaf l, s => by
    rw [runs, tick]
    exact ⟨rfl, rfl⟩
  | .selector children, s => by
    rw [runs, tick]
    exact leads_tickFirst unseen children s
  | .choice options, s => by
    have hdrawn := unseen.draw s
    rw [runs, tick]
    dsimp only
    cases pickWeighted (weights options) (actor.draw s).1 with
    | some i => exact (leads_tickAt unseen i options _).of_view_left hdrawn.symm
    | none => exact hdrawn
  | .gate guard child, s => by
    have hchecked := unseen.check guard s
    rw [runs, tick]
    rcases hcheck : actor.check guard s with ⟨fault | holds, s'⟩
    · rw [hcheck] at hchecked
      exact hchecked
    · rw [hcheck] at hchecked
      cases holds with
      | true => exact (leads_tick unseen child s').of_view_left hchecked.symm
      | false => exact hchecked

theorem leads_tickFirst (unseen : actor.Unseen view) : ∀ (children : List (Tree Leaf Guard)) (s : σ),
    Leads view Prod.snd (fun run => (actor.run run.1 run.2).state) s (runsFirst actor children s)
      (tickFirst actor children s).state
  | [], s => by
    rw [runsFirst, tickFirst]
    rfl
  | child :: rest, s => by
    have here := leads_tick unseen child s
    rw [runsFirst, tickFirst]
    rcases (tick actor child s).outcome with fault | status
    · exact here
    · cases status with
      | success => exact here
      | failure => exact here.append (leads_tickFirst unseen rest _)

theorem leads_tickAt (unseen : actor.Unseen view) :
    ∀ (i : Nat) (options : List (UInt32 × Tree Leaf Guard)) (s : σ),
    Leads view Prod.snd (fun run => (actor.run run.1 run.2).state) s (runsAt actor i options s)
      (tickAt actor i options s).state
  | _, [], s => by
    rw [runsAt, tickAt]
    rfl
  | 0, (_, child) :: _, s => by
    rw [runsAt, tickAt]
    exact leads_tick unseen child s
  | i + 1, _ :: rest, s => by
    rw [runsAt, tickAt]
    exact leads_tickAt unseen i rest s

end

/-! ## What holds where leaves are run -/

variable {p : Leaf → Prop} {inv : σ → Prop} {bad : ε → Prop}

theorem forall_mem_runsFirst (keeps : actor.Keeps p inv bad) {children : List (Tree Leaf Guard)}
    (hchildren : ∀ t ∈ children, t.Every p)
    (hruns : ∀ t ∈ children, ∀ s, inv s → ∀ run ∈ runs actor t s, p run.1 ∧ inv run.2) {s : σ}
    (hs : inv s) : ∀ run ∈ runsFirst actor children s, p run.1 ∧ inv run.2 := by
  induction children generalizing s with
  | nil =>
    rw [runsFirst]
    exact fun run hrun => nomatch hrun
  | cons child rest ih =>
    rw [List.forall_mem_cons] at hchildren hruns
    have here := hruns.1 s hs
    rw [runsFirst]
    split
    · exact List.forall_mem_append.mpr
        ⟨here, ih hchildren.2 hruns.2 (hchildren.1.tick keeps hs).state⟩
    · exact here

theorem forall_mem_runsAt {options : List (UInt32 × Tree Leaf Guard)}
    (hruns : ∀ o ∈ options, ∀ s, inv s → ∀ run ∈ runs actor o.2 s, p run.1 ∧ inv run.2) (i : Nat)
    {s : σ} (hs : inv s) : ∀ run ∈ runsAt actor i options s, p run.1 ∧ inv run.2 := by
  induction options generalizing i with
  | nil =>
    rw [runsAt]
    exact fun run hrun => nomatch hrun
  | cons option rest ih =>
    rw [List.forall_mem_cons] at hruns
    cases i with
    | zero =>
      rw [runsAt]
      exact hruns.1 s hs
    | succ i =>
      rw [runsAt]
      exact ih hruns.2 i

/-- What holds of the leaves of a tree holds of those that a tick runs, and each is run where the
invariant holds. -/
theorem Every.runs (keeps : actor.Keeps p inv bad) {t : Tree Leaf Guard} (h : t.Every p) {s : σ}
    (hs : inv s) : ∀ run ∈ t.runs actor s, p run.1 ∧ inv run.2 := by
  induction h generalizing s with
  | leaf hp =>
    rw [Tree.runs]
    exact List.forall_mem_singleton.mpr ⟨hp, hs⟩
  | selector hchildren ih =>
    rw [Tree.runs]
    exact forall_mem_runsFirst keeps hchildren (fun t ht s hs => ih t ht hs) hs
  | choice hoptions ih =>
    have hdrawn := keeps.draw s hs
    rw [Tree.runs]
    dsimp only
    split
    · exact forall_mem_runsAt (fun o ho s hs => ih o ho hs) _ hdrawn
    · exact fun run hrun => nomatch hrun
  | @gate guard child hchild ih =>
    have hchecked := (keeps.check guard s hs).1
    rw [Tree.runs]
    split
    · next hcheck =>
      rw [hcheck] at hchecked
      exact ih hchecked
    · exact fun run hrun => nomatch hrun

end Tree

end Menagerie
