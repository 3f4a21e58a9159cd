import Menagerie.Variable.Binding
import Menagerie.Proofs.Outcome

/-!
# What overrides leave alone

An override changes the value of a variable and never its declaration. Whether an override is
accepted, and whether a binding resolves, depends on the declarations alone. Both are therefore the
same before and after any overrides, and at any place.
-/

namespace Menagerie

namespace VariableTable

variable {t t' : VariableTable} {name : String} {place : Location}

/-- Whether two tables declare the same variables, whatever values these have. -/
def SameDeclarations (t t' : VariableTable) : Prop :=
  ∀ name, t.declaration? name = t'.declaration? name

theorem SameDeclarations.refl (t : VariableTable) : SameDeclarations t t := fun _ => rfl

theorem SameDeclarations.trans {t'' : VariableTable} (h : SameDeclarations t t')
    (h' : SameDeclarations t' t'') : SameDeclarations t t'' :=
  fun name => (h name).trans (h' name)

theorem sameDeclarations_modify (t : VariableTable) (name : String) (value : VariableValue) :
    SameDeclarations t ⟨t.entries.modify name fun v => { v with value }⟩ := by
  intro other
  unfold declaration?
  rw [SortedMap.get?_modify]
  split
  · rw [Option.map_map]
    rfl
  · rfl

/-- What a table is after a value was set. -/
theorem set_eq_ok {value : VariableValue} (h : t.set name value place = .ok t') :
    t' = ⟨t.entries.modify name fun v => { v with value }⟩ := by
  unfold set at h
  split at h
  · cases h
  · dsimp only at h
    split at h
    · cases h
      rfl
    · split at h
      · cases h
        rfl
      · cases h

theorem sameDeclarations_of_applyOverride {o : VariableOverride}
    (h : t.applyOverride name o place = .ok t') : SameDeclarations t t' := by
  unfold applyOverride at h
  split at h
  · cases h
  · split at h
    · cases h
    · rw [set_eq_ok h]
      exact sameDeclarations_modify t name _

/-- An override that one table accepts is accepted by every table with the same declarations. -/
theorem applyOverride_of_same {o : VariableOverride} {changed : VariableTable}
    (same : SameDeclarations t t') (h : t.applyOverride name o place = .ok changed)
    (place' : Location) : ∃ changed', t'.applyOverride name o place' = .ok changed' := by
  unfold applyOverride at h ⊢
  rw [← same name]
  cases hd : t.declaration? name with
  | none => simp [hd] at h
  | some d =>
    simp only [hd] at h ⊢
    cases hv : o.value? d.kind with
    | none => simp [hv] at h
    | some value =>
      simp only [hv] at h ⊢
      unfold set at h ⊢
      rw [← same name]
      simp only [hd] at h ⊢
      cases value with
      | dynamic e => exact ⟨_, rfl⟩
      | constant v =>
        dsimp only at h ⊢
        split at h
        · next hkind =>
          rw [if_pos hkind]
          exact ⟨_, rfl⟩
        · cases h

/-- Overrides that a table accepts one by one are accepted together. -/
theorem applyOverrides_of_each {overrides : SortedMap String VariableOverride}
    (each : ∀ entry ∈ overrides.toList,
      ∃ place changed, t.applyOverride entry.1 entry.2 place = .ok changed)
    (place : Location) :
    ∃ changed, t.applyOverrides overrides place = .ok changed ∧ SameDeclarations t changed := by
  unfold applyOverrides
  generalize overrides.toList = entries at each
  suffices h : ∀ now, SameDeclarations t now →
      ∃ changed, entries.foldlM (fun t entry => t.applyOverride entry.1 entry.2 (place.field entry.1)) now =
        .ok changed ∧ SameDeclarations t changed from h t (.refl t)
  induction entries with
  | nil =>
    intro now same
    exact ⟨now, rfl, same⟩
  | cons entry rest ih =>
    obtain ⟨name, o⟩ := entry
    intro now same
    rw [List.forall_mem_cons] at each
    obtain ⟨⟨_, _, haccepted⟩, hrest⟩ := each
    obtain ⟨next, hnext⟩ := applyOverride_of_same same haccepted (place.field name)
    obtain ⟨changed, hchanged, hsame⟩ :=
      ih hrest next (same.trans (sameDeclarations_of_applyOverride hnext))
    refine ⟨changed, ?_, hsame⟩
    rw [List.foldlM_cons]
    exact bind_eq_ok.mpr ⟨next, hnext, hchanged⟩

end VariableTable

namespace Binding

/-- Whether a binding can be resolved: it names no variable, or one that is declared with the kind
that it says. -/
def Resolves (table : VariableTable) : Binding → Prop
  | literal _ => True
  | reference r =>
    ∃ d, table.declaration? r.name = some d ∧ ∀ kind, r.kind = some kind → kind = d.kind

theorem Resolves.of_same {t t' : VariableTable} {b : Binding} (same : t.SameDeclarations t')
    (h : b.Resolves t) : b.Resolves t' := by
  cases b with
  | literal e => trivial
  | reference r =>
    obtain ⟨d, hd, hkind⟩ := h
    exact ⟨d, same r.name ▸ hd, hkind⟩

theorem exists_simplify_iff {table : VariableTable} {place : Location} {b : Binding} :
    (∃ p, b.simplify table place = .ok p) ↔ b.Resolves table := by
  cases b with
  | literal e =>
    refine iff_of_true ?_ trivial
    unfold simplify
    cases hconstant : e.constant? with
    | none => exact ⟨.expression e, by simp only [hconstant]⟩
    | some v => exact ⟨.constant v, by simp only [hconstant]⟩
  | reference r =>
    unfold simplify Resolves VariableTable.declaration?
    cases hknown : table.entries.get? r.name with
    | none => simp [hknown]
    | some known =>
      cases hkind : r.kind with
      | none => simp [hknown, hkind]
      | some kind =>
        by_cases h : kind = known.declaration.kind
        · simp [hknown, hkind, h]
        · simp [hknown, hkind, h]

end Binding

end Menagerie
