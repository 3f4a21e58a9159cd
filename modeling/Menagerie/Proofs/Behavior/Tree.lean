import Menagerie.Behavior.Tree

/-!
# What ticks keep

What is true of every leaf of a behavior tree is stated by `Tree.Every`, and which leaves can be reached
in it by `Tree.Has`. Where the leaves and guards of an actor keep what holds of the state, and leaves keep
what holds of them, every tree does (`Tree.Every.tick`): a tick of a tree is no more than ticks of leaves,
guards and draws.
-/

namespace Menagerie

variable {ε ν μ σ Leaf Guard : Type}

/-- What holds of a node, a state and a fault after a tick. -/
structure Ticked.Keeps (t : Ticked ε ν σ) (node : ν → Prop) (state : σ → Prop) (bad : ε → Prop) :
    Prop where
  node : node t.node
  state : state t.state
  fault : ∀ e, t.outcome = .error e → bad e

namespace Ticked.Keeps

variable {p q : ν → Prop} {inv : σ → Prop} {bad : ε → Prop}

theorem imp {t : Ticked ε ν σ} {inv' : σ → Prop} (h : t.Keeps p inv bad) (hnode : ∀ n, p n → q n)
    (hstate : ∀ s, inv s → inv' s) : t.Keeps q inv' bad :=
  ⟨hnode _ h.node, hstate _ h.state, h.fault⟩

theorem inside {t : Ticked ε ν σ} {wrap : ν → μ} {p' : μ → Prop} (h : t.Keeps p inv bad)
    (hwrap : ∀ n, p n → p' (wrap n)) : (t.inside wrap).Keeps p' inv bad :=
  ⟨hwrap _ h.node, h.state, h.fault⟩

/-- Nodes that are ticked in order keep what each of them keeps. -/
theorem firstToApply {tick : ν → σ → Ticked ε ν σ} {nodes : List ν} (hnodes : ∀ n ∈ nodes, p n)
    (htick : ∀ n ∈ nodes, ∀ s, inv s → (tick n s).Keeps p inv bad) {s : σ} (hs : inv s) :
    (firstToApply tick nodes s).Keeps (fun nodes => ∀ n ∈ nodes, p n) inv bad := by
  induction nodes generalizing s with
  | nil => exact ⟨hnodes, hs, fun e he => nomatch he⟩
  | cons n rest ih =>
    rw [List.forall_mem_cons] at hnodes htick
    have here := htick.1 s hs
    rw [Menagerie.firstToApply]
    split
    · refine (ih hnodes.2 htick.2 here.state).inside ?_
      intro others hothers
      exact List.forall_mem_cons.mpr ⟨here.node, hothers⟩
    · refine here.inside ?_
      intro n' hn'
      exact List.forall_mem_cons.mpr ⟨hn', hnodes.2⟩

end Ticked.Keeps

/-- What the leaves and guards of an actor keep. -/
structure Actor.Keeps (actor : Actor ε Leaf Guard σ) (p : Leaf → Prop) (inv : σ → Prop)
    (bad : ε → Prop) : Prop where
  run : ∀ l s, p l → inv s → (actor.run l s).Keeps p inv bad
  check : ∀ g s, inv s → inv (actor.check g s).2 ∧ ∀ e, (actor.check g s).1 = .error e → bad e
  draw : ∀ s, inv s → inv (actor.draw s).2

namespace Tree

/-- Something is true of every leaf of a tree. -/
inductive Every (p : Leaf → Prop) : Tree Leaf Guard → Prop
  | leaf {l} : p l → Every p (.leaf l)
  | selector {children} : (∀ t ∈ children, Every p t) → Every p (.selector children)
  | choice {options} : (∀ o ∈ options, Every p o.2) → Every p (.choice options)
  | gate {guard child} : Every p child → Every p (.gate guard child)

/-- A leaf can be reached from the root of a tree. -/
inductive Has (l : Leaf) : Tree Leaf Guard → Prop
  | leaf : Has l (.leaf l)
  | selector {children t} : t ∈ children → Has l t → Has l (.selector children)
  | choice {options o} : o ∈ options → Has l o.2 → Has l (.choice options)
  | gate {guard child} : Has l child → Has l (.gate guard child)

theorem has_leaf {l l' : Leaf} : Has l (.leaf l' : Tree Leaf Guard) ↔ l = l' := by
  constructor
  · rintro ⟨⟩
    rfl
  · rintro rfl
    exact .leaf

/-- What is true of the leaves that can be reached is true of every leaf. -/
theorem every_of_has {p : Leaf → Prop} (t : Tree Leaf Guard) (h : ∀ l, t.Has l → p l) : t.Every p :=
  match t with
  | .leaf l => .leaf (h l .leaf)
  | .selector children => .selector fun t ht => every_of_has t fun l hl => h l (.selector ht hl)
  | .choice options => .choice fun o ho => every_of_has o.2 fun l hl => h l (.choice ho hl)
  | .gate guard child => .gate (every_of_has child fun l hl => h l (.gate hl))
termination_by t
decreasing_by
  · decreasing_tactic
  · have hsize := List.sizeOf_lt_of_mem ‹o ∈ options›
    cases o
    simp only [Prod.mk.sizeOf_spec, Tree.choice.sizeOf_spec] at hsize ⊢
    omega
  · decreasing_tactic

theorem has_gate_choice {l : Leaf} {guard : Guard} {options : List (UInt32 × Tree Leaf Guard)} :
    Has l (.gate guard (.choice options)) ↔ ∃ o ∈ options, Has l o.2 := by
  constructor
  · rintro (_ | _ | _ | ⟨_ | _ | ⟨ho, h⟩⟩)
    exact ⟨_, ho, h⟩
  · rintro ⟨o, ho, h⟩
    exact .gate (.choice ho h)

variable {actor : Actor ε Leaf Guard σ} {p : Leaf → Prop} {inv : σ → Prop} {bad : ε → Prop}

theorem keeps_tickAt {options : List (UInt32 × Tree Leaf Guard)}
    (hoptions : ∀ o ∈ options, o.2.Every p)
    (htick : ∀ o ∈ options, ∀ s, inv s → (o.2.tick actor s).Keeps (Every p) inv bad) (i : Nat) {s : σ}
    (hs : inv s) :
    (tickAt actor i options s).Keeps (fun options => ∀ o ∈ options, o.2.Every p) inv bad := by
  induction options generalizing i with
  | nil =>
    rw [tickAt]
    exact ⟨hoptions, hs, fun e he => nomatch he⟩
  | cons option rest ih =>
    rw [List.forall_mem_cons] at hoptions htick
    cases i with
    | zero =>
      rw [tickAt]
      refine (htick.1 s hs).inside ?_
      intro child hchild
      exact List.forall_mem_cons.mpr ⟨hchild, hoptions.2⟩
    | succ i =>
      rw [tickAt]
      refine (ih hoptions.2 htick.2 i).inside ?_
      intro others hothers
      exact List.forall_mem_cons.mpr ⟨hoptions.1, hothers⟩

/-- A tree keeps what its leaves and guards keep. -/
theorem Every.tick (keeps : actor.Keeps p inv bad) {t : Tree Leaf Guard} (h : t.Every p) {s : σ}
    (hs : inv s) : (t.tick actor s).Keeps (Every p) inv bad := by
  induction h generalizing s with
  | leaf hp =>
    rw [Tree.tick]
    exact (keeps.run _ s hp hs).inside fun _ => .leaf
  | selector hchildren ih =>
    rw [Tree.tick, tickFirst_eq_firstToApply]
    exact (Ticked.Keeps.firstToApply hchildren (fun t ht s hs => ih t ht hs) hs).inside fun _ => .selector
  | @choice options hoptions ih =>
    have hdrawn := keeps.draw s hs
    rw [Tree.tick]
    dsimp only
    split
    · exact (keeps_tickAt hoptions (fun o ho s hs => ih o ho hs) _ hdrawn).inside fun _ => .choice
    · exact ⟨.choice hoptions, hdrawn, fun e he => nomatch he⟩
  | @gate guard child hchild ih =>
    obtain ⟨hs', hfault⟩ := keeps.check guard s hs
    rw [Tree.tick]
    split
    · next hcheck =>
      rw [hcheck] at hs'
      exact (ih hs').inside fun _ => .gate
    · next hcheck =>
      rw [hcheck] at hs'
      exact ⟨.gate hchild, hs', fun e he => nomatch he⟩
    · next fault s' hcheck =>
      rw [hcheck] at hs' hfault
      refine ⟨.gate hchild, hs', ?_⟩
      rintro _ ⟨⟩
      exact hfault fault rfl

end Tree

end Menagerie
