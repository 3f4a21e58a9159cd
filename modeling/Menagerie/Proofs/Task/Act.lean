import Menagerie.Proofs.Effect
import Menagerie.Proofs.World.Deeds
import Menagerie.Task.Act

/-!
# How actions conduct themselves

An action conducts itself if it changes the world by sound deeds of its agent alone and faults only
because of what value a parameter has, where the agent is able to act (`World.Able`): it has a body,
the keys that the action writes are registered, and what it remembers has the kinds of its keys. What
an agent is able to do before its deeds it is able to do after them, so that actions conduct
themselves together if each of them does (`Conducts.bind`).
-/

namespace Menagerie

/-- Faults that depend on what values parameters have for an agent. -/
inductive FaultCause.OfValue : FaultCause → Prop
  | evaluation {e : EvalError} : OfValue (.evaluation e)
  | endlessRange {x : Float} : x.isFinite = false → OfValue (.endlessRange x)

/-- Whether every body is kept under its own number. -/
def World.Indexed (w : World) : Prop := ∀ id b, w.body? id = some b → b.view.id = id

/-- Whether an agent is able to act with the given keys. -/
structure World.Able (w : World) (me : AgentId) (keys : List MemoryKey) : Prop where
  indexed : w.Indexed
  body : ∃ b, w.body? me = some b ∧ b.memory.WellKinded ∧
    ∀ key ∈ keys, b.memory.isRegistered key

theorem World.Indexed.of_kept {w w' : World} (h : w.Indexed) (kept : w.Kept w') : w'.Indexed := by
  intro id b' hb'
  obtain ⟨b, hb, hkept⟩ := kept.exists_of_right hb'
  rw [hkept.id]
  exact h id b hb

theorem World.Able.of_kept {w w' : World} {me : AgentId} {keys : List MemoryKey}
    (h : w.Able me keys) (kept : w.Kept w') : w'.Able me keys := by
  obtain ⟨b, hb, hkinds, hkeys⟩ := h.body
  obtain ⟨b', hb', hkept⟩ := kept.exists_of_left hb
  refine ⟨h.indexed.of_kept kept, b', hb', hkept.memory.kinds hkinds, ?_⟩
  intro key hkey
  rw [hkept.memory.registered]
  exact hkeys key hkey

namespace Act

variable {α β : Type} {env : ActEnv} {s : Stage} {keys : List MemoryKey}

/-- Whether an action that starts from a stage conducts itself. -/
def Proper (act : Act α) (env : ActEnv) (s : Stage) : Prop :=
  Meets act env s (fun _ s' => Does env.agent s.world s'.world)
    (fun e s' => Does env.agent s.world s'.world ∧ e.cause.OfValue)

/-- Whether an action conducts itself wherever its agent is able to act. -/
def Conducts (keys : List MemoryKey) (act : Act α) : Prop :=
  ∀ env s, s.world.Able env.agent keys → Proper act env s

/-- Whether an action changes nothing and yields a value. -/
def Yields (act : Act α) (env : ActEnv) (s : Stage) (a : α) : Prop := act.runOn env s = (.ok a, s)

theorem Yields.meets {act : Act α} {a : α} {good : α → Stage → Prop} {bad : TaskFault → Stage → Prop}
    (h : Yields act env s a) : Meets act env s good bad ↔ good a s := by
  unfold Meets
  rw [show (act.run env).run.run s = (.ok a, s) from h]

/-- What is true of the stage that an action leaves, whatever it comes to. -/
theorem of_meets {act : Act α} {p : Stage → Prop} (h : Meets act env s (fun _ => p) fun _ => p) :
    p (act.runOn env s).2 := by
  unfold Meets at h
  unfold Act.runOn
  split at h
  · next heq =>
    rw [heq]
    exact h
  · next heq =>
    rw [heq]
    exact h

/-- What an action comes to that promises not to fault. -/
theorem exists_of_meets {act : Act α} {good : α → Stage → Prop}
    (h : Meets act env s good fun _ _ => False) :
    ∃ a s', act.runOn env s = (.ok a, s') ∧ good a s' := by
  unfold Meets at h
  split at h
  · next a s' heq => exact ⟨a, s', heq, h⟩
  · exact h.elim

theorem Yields.bind {x : Act α} {f : α → Act β} {a : α} {b : β} (hx : Yields x env s a)
    (hf : Yields (f a) env s b) : Yields (x >>= f) env s b := by
  have hrun : (x.run env).run.run s = (.ok a, s) := hx
  unfold Yields runOn
  rw [ReaderT.run_bind, ExceptT.run_bind, StateT.run_bind, hrun]
  exact hf

theorem Proper.pure {a : α} : Proper (pure a) env s := Does.refl _ _

theorem Proper.bind {x : Act α} {f : α → Act β} (hx : Proper x env s)
    (hf : ∀ a s', Does env.agent s.world s'.world → Proper (f a) env s') :
    Proper (x >>= f) env s := by
  unfold Proper
  rw [meets_bind]
  refine hx.imp ?_ fun _ _ he => he
  intro a s' ha
  exact (hf a s' ha).imp (fun _ _ h => ha.trans h) fun _ _ he => ⟨ha.trans he.1, he.2⟩

/-- An action goes on from what was read. -/
theorem Proper.read {x : Act α} {a : α} {f : α → Act β} (hx : Yields x env s a)
    (hf : Proper (f a) env s) : Proper (x >>= f) env s := by
  unfold Proper
  rw [meets_bind, hx.meets]
  exact hf

theorem Proper.ite {c : Prop} [Decidable c] {x y : Act α} (hx : Proper x env s)
    (hy : Proper y env s) : Proper (if c then x else y) env s := by
  split
  · exact hx
  · exact hy

/-- What becomes of an action that conducts itself. -/
theorem Proper.runOn {act : Act α} (h : Proper act env s) :
    Does env.agent s.world (act.runOn env s).2.world ∧
      ∀ fault, (act.runOn env s).1 = .error fault → fault.cause.OfValue := by
  unfold Proper Meets at h
  unfold Act.runOn
  split at h
  · next heq =>
    rw [heq]
    exact ⟨h, fun fault hfault => nomatch hfault⟩
  · next heq =>
    rw [heq]
    refine ⟨h.1, ?_⟩
    rintro _ ⟨⟩
    exact h.2

theorem Conducts.pure {a : α} : Conducts keys (pure a) := fun _ _ _ => .pure

theorem Conducts.bind {x : Act α} {f : α → Act β} (hx : Conducts keys x)
    (hf : ∀ a, Conducts keys (f a)) : Conducts keys (x >>= f) := fun env s able =>
  (hx env s able).bind fun a s' hdoes => hf a env s' (able.of_kept hdoes.kept)

theorem Conducts.ite {c : Prop} [Decidable c] {x y : Act α} (hx : Conducts keys x)
    (hy : Conducts keys y) : Conducts keys (if c then x else y) := by
  split
  · exact hx
  · exact hy

theorem Conducts.of_yields {x : Act α} (hx : ∀ env s, ∃ a, Yields x env s a) :
    Conducts keys x := by
  intro env s _
  obtain ⟨a, ha⟩ := hx env s
  exact ha.meets.mpr (.refl _ _)

/-! ## Reading -/

theorem yields_world (env : ActEnv) (s : Stage) : Yields world env s s.world := rfl

theorem yields_now (env : ActEnv) (s : Stage) : Yields now env s s.world.now := rfl

theorem yields_read (env : ActEnv) (s : Stage) : Yields read env s env := rfl

theorem yields_remembered (key : MemoryKey) (env : ActEnv) (s : Stage) :
    Yields (remembered key) env s (s.world.remembered? env.agent key) := rfl

theorem yields_schedule (env : ActEnv) (s : Stage) :
    Yields schedule env s (s.world.schedule? env.agent) := rfl

theorem yields_isActive (activity : Activity) (env : ActEnv) (s : Stage) :
    Yields (isActive activity) env s
      ((s.world.schedule? env.agent).any fun sch => sch.isActive activity) := rfl

theorem yields_me {b : Body} (hb : s.world.body? env.agent = some b) : Yields me env s b.view := by
  have hview : s.world.view? env.agent = some b.view := by
    unfold World.view?
    rw [hb]
    rfl
  unfold me
  refine .bind (yields_read env s) (.bind (yields_world env s) ?_)
  rw [hview]
  rfl

theorem conducts_world : Conducts keys world := .of_yields fun env s => ⟨_, yields_world env s⟩

theorem conducts_remembered (key : MemoryKey) : Conducts keys (remembered key) :=
  .of_yields fun env s => ⟨_, yields_remembered key env s⟩

theorem conducts_isActive (activity : Activity) : Conducts keys (isActive activity) :=
  .of_yields fun env s => ⟨_, yields_isActive activity env s⟩

theorem conducts_me : Conducts keys me := by
  intro env s able
  obtain ⟨b, hb, _⟩ := able.body
  exact (yields_me hb).meets.mpr (.refl _ _)

/-- Looking at a parameter changes nothing, and what is wrong is wrong with its value. -/
theorem meets_evaluate {look : Nat → Scope → Param → Except EvalError α} {p : Param}
    (able : s.world.Able env.agent keys) :
    Meets (evaluate look p) env s (fun _ s' => s' = s) (fun e s' => s' = s ∧ e.cause.OfValue) := by
  obtain ⟨b, hb, _⟩ := able.body
  simp only [evaluate, meets_bind, (yields_me hb).meets, (yields_world env s).meets, meets_read]
  split
  · rfl
  · exact ⟨rfl, .evaluation⟩

theorem conducts_evaluate {look : Nat → Scope → Param → Except EvalError α} {p : Param} :
    Conducts keys (evaluate look p) := by
  intro env s able
  refine (meets_evaluate able).imp ?_ ?_
  · rintro _ _ rfl
    exact .refl _ _
  · rintro _ _ ⟨rfl, hcause⟩
    exact ⟨.refl _ _, hcause⟩

theorem conducts_number (p : Param) : Conducts keys (number p) := conducts_evaluate

/-! ## Chance -/

theorem conducts_draw : Conducts keys draw := by
  intro env s _
  simp only [Proper, draw, meets_bind, meets_get, meets_set, meets_pure]
  exact .refl _ _

theorem conducts_chance (p : Float) : Conducts keys (chance p) := by
  unfold chance
  split
  · exact conducts_draw.bind fun x => .pure
  · exact .pure

theorem conducts_spread (range : Float) : Conducts keys (spread range) := by
  unfold spread
  split
  · next h =>
    intro env s _
    refine ⟨.refl _ _, .endlessRange ?_⟩
    simpa using h
  · split
    · exact .pure
    · intro env s _
      simp only [Proper, meets_bind, meets_get, meets_set, meets_pure]
      exact .refl _ _

/-! ## Deeds -/

theorem meets_modifyWorld {f : World → World} {good : Unit → Stage → Prop}
    {bad : TaskFault → Stage → Prop} :
    Meets (modifyWorld f) env s good bad ↔ good () { s with world := f s.world } := Iff.rfl

/-- A change of memory that does not fail is a change of the agent's body. -/
theorem meets_updateMemory {f : Blackboard → Except MemoryError Blackboard}
    {g : Blackboard → Blackboard} {b : Body} {good : Unit → Stage → Prop}
    {bad : TaskFault → Stage → Prop} (hb : s.world.body? env.agent = some b)
    (hf : f b.memory = .ok (g b.memory)) :
    Meets (updateMemory f) env s good bad ↔
      good () { s with world := s.world.mapMemory env.agent g } := by
  have hmemory : s.world.memory? env.agent = some b.memory := by
    unfold World.memory?
    rw [hb]
    rfl
  have hworld : s.world.updateBody env.agent (fun b' => { b' with memory := g b.memory }) =
      s.world.mapMemory env.agent g := by
    refine World.updateBody_congr fun b' hb' => ?_
    rw [hb] at hb'
    cases hb'
    rfl
  simp only [updateMemory, meets_bind, meets_read, (yields_world env s).meets, hmemory, hf,
    meets_modifyWorld, hworld]

/-- A value that fits its key is stored. -/
theorem meets_store {key : MemoryKey} {value : MemoryValue} {expiresAt : Option Tick} {b : Body}
    {f : Blackboard → Except MemoryError Blackboard} {good : Unit → Stage → Prop}
    {bad : TaskFault → Stage → Prop} (hb : s.world.body? env.agent = some b)
    (hf : f b.memory = b.memory.store key value expiresAt) (hkind : value.kind = key.kind)
    (hkey : b.memory.isRegistered key) :
    Meets (updateMemory f) env s good bad ↔ good () { s with
      world := s.world.mapMemory env.agent fun m => m.put key (some (value, expiresAt)) } := by
  refine meets_updateMemory (g := fun m => m.put key (some (value, expiresAt))) hb ?_
  rw [hf]
  exact Blackboard.store_eq_ok_iff.mpr ⟨hkind, hkey, rfl⟩

theorem meets_remember {key : MemoryKey} {value : MemoryValue} {b : Body}
    {good : Unit → Stage → Prop} {bad : TaskFault → Stage → Prop}
    (hb : s.world.body? env.agent = some b) (hkind : value.kind = key.kind)
    (hkey : b.memory.isRegistered key) :
    Meets (remember key value) env s good bad ↔ good () { s with
      world := s.world.mapMemory env.agent fun m => m.put key (some (value, none)) } :=
  meets_store (f := fun m => m.set key value) hb rfl hkind hkey

theorem meets_rememberFor {key : MemoryKey} {value : MemoryValue} {ticks : UInt64} {b : Body}
    {good : Unit → Stage → Prop} {bad : TaskFault → Stage → Prop}
    (hb : s.world.body? env.agent = some b) (hkind : value.kind = key.kind)
    (hkey : b.memory.isRegistered key) :
    Meets (rememberFor key value ticks) env s good bad ↔ good () { s with
      world := s.world.mapMemory env.agent fun m =>
        m.put key (some (value, some (b.memory.now.after ticks))) } :=
  meets_store (f := fun m => m.setFor key value ticks) hb rfl hkind hkey

theorem conducts_store {key : MemoryKey} {value : MemoryValue}
    {f : Blackboard → Except MemoryError Blackboard} (hkey : key ∈ keys)
    (hkind : value.kind = key.kind) (hfree : key ∉ Deed.reserved)
    (hf : ∀ m, ∃ expiresAt, f m = m.store key value expiresAt) :
    Conducts keys (updateMemory f) := by
  intro env s able
  obtain ⟨b, hb, _, hkeys⟩ := able.body
  obtain ⟨expiresAt, hfm⟩ := hf b.memory
  exact (meets_store hb hfm hkind (hkeys key hkey)).mpr (.single (.store hkind hfree))

theorem conducts_remember {key : MemoryKey} {value : MemoryValue} (hkey : key ∈ keys)
    (hkind : value.kind = key.kind) (hfree : key ∉ Deed.reserved) :
    Conducts keys (remember key value) :=
  conducts_store hkey hkind hfree fun _ => ⟨_, rfl⟩

theorem conducts_rememberFor {key : MemoryKey} {value : MemoryValue} {ticks : UInt64}
    (hkey : key ∈ keys) (hkind : value.kind = key.kind) (hfree : key ∉ Deed.reserved) :
    Conducts keys (rememberFor key value ticks) :=
  conducts_store hkey hkind hfree fun _ => ⟨_, rfl⟩

theorem meets_forget {key : MemoryKey} {good : Unit → Stage → Prop} {bad : TaskFault → Stage → Prop} :
    Meets (forget key) env s good bad ↔
      good () { s with world := s.world.mapMemory env.agent fun m => m.erase key } := Iff.rfl

theorem meets_issue {intent : Intent} {good : Unit → Stage → Prop} {bad : TaskFault → Stage → Prop} :
    Meets (issue intent) env s good bad ↔
      good () { s with world := s.world.issue env.agent intent } := Iff.rfl

theorem conducts_forget {key : MemoryKey} (hkey : key ∉ Trait.keys) : Conducts keys (forget key) :=
  fun _ _ _ => meets_forget.mpr (.single (.forget hkey))

/-- An intent is issued that is about no trait. -/
theorem conducts_issue {intent : Intent} (h : ∀ trait : Trait, trait.set? intent = none) :
    Conducts keys (issue intent) :=
  fun _ _ _ => meets_issue.mpr (.single (.issue h))

theorem conducts_activate (activity : Activity) : Conducts keys (activate activity) := by
  intro env s _
  simp only [Proper, activate, meets_bind, (yields_schedule env s).meets]
  split
  · exact .refl _ _
  · next sch _ =>
    simp only [meets_bind, meets_read, meets_modifyWorld, meets_pure]
    exact .single (.schedule sch)

/-! ## Traits -/

/-- What an action goes on with after deeds. -/
theorem Proper.does {act : Act α} {s' : Stage} (hdoes : Does env.agent s.world s'.world)
    (h : Proper act env s') :
    Meets act env s' (fun _ s'' => Does env.agent s.world s''.world)
      (fun e s'' => Does env.agent s.world s''.world ∧ e.cause.OfValue) :=
  Meets.imp h (fun _ _ h => hdoes.trans h) fun _ _ he => ⟨hdoes.trans he.1, he.2⟩

/-- A trait is acquired by an intent and by what is remembered. -/
theorem Conducts.acquire (trait : Trait) {act : Act α} (hkey : trait.key ∈ keys)
    (hact : Conducts keys act) :
    Conducts keys (do
      issue (trait.intent true)
      remember trait.key .flag
      act) := by
  intro env s able
  obtain ⟨b, hb, _, hkeys⟩ := able.body
  have hdoes : Does env.agent s.world _ := .single (.acquire hb (hkeys trait.key hkey))
  unfold Proper
  rw [meets_bind, meets_issue, meets_bind]
  refine (meets_remember (b := b) ?_ (by cases trait <;> rfl) (hkeys trait.key hkey)).mpr ?_
  · exact hb
  · exact Proper.does hdoes (hact env _ (able.of_kept hdoes.kept))

/-- A trait is shed by an intent and by what is forgotten. -/
theorem Conducts.shed (trait : Trait) {act : Act α} (htrait : trait ≠ .nectar)
    (hact : Conducts keys act) :
    Conducts keys (do
      issue (trait.intent false)
      forget trait.key
      act) := by
  intro env s able
  have hdoes : Does env.agent s.world _ := .single (.shed htrait)
  unfold Proper
  rw [meets_bind, meets_issue, meets_bind, meets_forget]
  exact Proper.does hdoes (hact env _ (able.of_kept hdoes.kept))

end Act

end Menagerie
