/-!
# Steps that read, change and fail

Tasks act, and content is compiled, in steps that read surroundings, change a state and may fail;
what was changed before a failure stays changed. `Meets` says what such a step comes to from given
surroundings and a given state: what is promised where it succeeds and where it fails. Each way of
putting steps together has one rule, by which a promise about the whole is one about its parts.
-/

namespace Menagerie

variable {ρ ε σ α β : Type}

/-- Steps that read `ρ`, change `σ` and may fail with `ε`. -/
abbrev Effect (ρ ε σ : Type) := ReaderT ρ (ExceptT ε (StateM σ))

/-- Whether a step keeps a promise: what it yields and the state it leaves are `good` where it
succeeds, and the failure and the state are `bad` where it fails. -/
def Meets (x : Effect ρ ε σ α) (env : ρ) (s : σ) (good : α → σ → Prop) (bad : ε → σ → Prop) : Prop :=
  match (x.run env).run.run s with
  | (.ok a, s') => good a s'
  | (.error e, s') => bad e s'

namespace Meets

variable {env : ρ} {s : σ} {good : α → σ → Prop} {bad : ε → σ → Prop}

/-- What is so whatever a step comes to is promised of it. -/
theorem of_forall {x : Effect ρ ε σ α} (hgood : ∀ a s', good a s') (hbad : ∀ e s', bad e s') :
    Meets x env s good bad := by
  unfold Meets
  split
  · exact hgood _ _
  · exact hbad _ _

/-- A promise may be weakened. -/
theorem imp {x : Effect ρ ε σ α} {good' : α → σ → Prop} {bad' : ε → σ → Prop}
    (h : Meets x env s good bad) (hgood : ∀ a s', good a s' → good' a s')
    (hbad : ∀ e s', bad e s' → bad' e s') : Meets x env s good' bad' := by
  unfold Meets at h ⊢
  split at h
  · exact hgood _ _ h
  · exact hbad _ _ h

/-- Two promises that are kept are kept together. -/
theorem and {x : Effect ρ ε σ α} {good' : α → σ → Prop} {bad' : ε → σ → Prop}
    (h : Meets x env s good bad) (h' : Meets x env s good' bad') :
    Meets x env s (fun a s' => good a s' ∧ good' a s') fun e s' => bad e s' ∧ bad' e s' := by
  unfold Meets at h h' ⊢
  split at h
  · next heq =>
    rw [heq] at h'
    exact ⟨h, h'⟩
  · next heq =>
    rw [heq] at h'
    exact ⟨h, h'⟩

end Meets

variable {env : ρ} {s : σ} {good : α → σ → Prop} {bad : ε → σ → Prop}

@[simp] theorem meets_pure {a : α} :
    Meets (pure a : Effect ρ ε σ α) env s good bad ↔ good a s := Iff.rfl

@[simp] theorem meets_throw {e : ε} :
    Meets (throw e : Effect ρ ε σ α) env s good bad ↔ bad e s := Iff.rfl

@[simp] theorem meets_read {good : ρ → σ → Prop} :
    Meets (read : Effect ρ ε σ ρ) env s good bad ↔ good env s := Iff.rfl

@[simp] theorem meets_get {good : σ → σ → Prop} :
    Meets (get : Effect ρ ε σ σ) env s good bad ↔ good s s := Iff.rfl

@[simp] theorem meets_set {s' : σ} {good : PUnit → σ → Prop} :
    Meets (set s' : Effect ρ ε σ PUnit) env s good bad ↔ good ⟨⟩ s' := Iff.rfl

@[simp] theorem meets_modify {f : σ → σ} {good : PUnit → σ → Prop} :
    Meets (modify f : Effect ρ ε σ PUnit) env s good bad ↔ good ⟨⟩ (f s) := Iff.rfl

@[simp] theorem meets_withReader {f : ρ → ρ} {x : Effect ρ ε σ α} :
    Meets (withReader f x : Effect ρ ε σ α) env s good bad ↔ Meets x (f env) s good bad := Iff.rfl

/-- Of two steps the second starts from what the first leaves. -/
@[simp] theorem meets_bind {x : Effect ρ ε σ β} {f : β → Effect ρ ε σ α} :
    Meets (x >>= f) env s good bad ↔
      Meets x env s (fun b s' => Meets (f b) env s' good bad) bad := by
  unfold Meets
  rw [ReaderT.run_bind, ExceptT.run_bind, StateT.run_bind]
  obtain ⟨outcome, s', hrun⟩ : ∃ outcome s', (x.run env).run.run s = (outcome, s') := ⟨_, _, rfl⟩
  rw [hrun]
  cases outcome with
  | ok b => rfl
  | error e => rfl

end Menagerie
