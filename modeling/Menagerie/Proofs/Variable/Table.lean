import Menagerie.Proofs.SortedMap
import Menagerie.Proofs.Variable.Resolution

/-!
# Declarations and overrides in order

Declaring variables one by one keeps the first declaration of each name, and succeeds if the others agree
with it in kind and it has an initial value (`VariableTable.exists_declares_iff`). Overrides that are applied
one by one are accepted if each names a declared variable and gives it a value of its kind, and then replace
the values of these variables and nothing else (`VariableTable.overridden_of_applyOverrides`).
-/

namespace Menagerie

namespace Declaration

/-- The first declaration of a name. -/
def first? (ds : List Declaration) (name : String) : Option Declaration :=
  ds.find? fun d => d.name = name

/-- The variable that a declaration makes, if its initial value is one of its kind. -/
def declared? (d : Declaration) : Option Variable :=
  d.initialValue?.map fun v => ⟨d, .constant v⟩

theorem first?_cons (d : Declaration) (ds : List Declaration) (name : String) :
    first? (d :: ds) name = if d.name = name then some d else first? ds name := by
  unfold first?
  rw [List.find?_cons]
  by_cases h : d.name = name
  · simp [h]
  · simp [h]

theorem mem_of_first? {ds : List Declaration} {name : String} {d : Declaration}
    (h : first? ds name = some d) : d ∈ ds ∧ d.name = name :=
  ⟨List.mem_of_find?_eq_some h, by simpa using List.find?_some h⟩

theorem declaration_of_declared? {d : Declaration} {v : Variable} (h : d.declared? = some v) :
    v.declaration = d := by
  obtain ⟨_, _, rfl⟩ := Option.map_eq_some_iff.mp h
  rfl

theorem exists_first?_of_mem {ds : List Declaration} {d : Declaration} (h : d ∈ ds) :
    ∃ d₀, first? ds d.name = some d₀ := by
  refine Option.isSome_iff_exists.mp (List.find?_isSome.mpr ⟨d, h, ?_⟩)
  exact decide_eq_true rfl

end Declaration

namespace VariableOverride

/-- What value an override gives to a variable of a kind. -/
inductive Gives (kind : VariableKind) : VariableOverride → VariableValue → Prop
  | bool (b : Bool) : kind = .boolean → Gives kind (.bool b) (.constant (.bool b))
  | number (x : Float) : kind = .number → Gives kind (.number x) (.constant (.number x))
  /-- A text writes the value as an initial value is written. -/
  | text {raw : String} {v : Value} : kind.read? raw = some v → Gives kind (.text raw) (.constant v)
  /-- An expression that is a single literal is its value. -/
  | literal {e : Expression} {v : Value} :
      e.constant? = some v → VariableKind.of v = kind → Gives kind (.expression e) (.constant v)
  /-- Any other expression stays one, whatever it will come to. -/
  | live {e : Expression} : e.constant? = none → Gives kind (.expression e) (.dynamic e)

/-- An override gives the value that it is converted to, if that is an expression or of the kind. -/
theorem gives_iff {kind : VariableKind} {o : VariableOverride} {value : VariableValue} :
    o.Gives kind value ↔
      o.value? kind = some value ∧ ∀ v, value = .constant v → VariableKind.of v = kind := by
  constructor
  · intro h
    cases h with
    | bool b hkind | number x hkind =>
      subst hkind
      exact ⟨rfl, fun _ hv => by cases hv; rfl⟩
    | text hread =>
      refine ⟨congrArg (Option.map _) hread, fun _ hv => ?_⟩
      cases hv
      exact VariableKind.of_read? hread
    | literal hconstant hkind =>
      refine ⟨by simp only [value?, hconstant], fun _ hv => ?_⟩
      cases hv
      exact hkind
    | live hconstant => exact ⟨by simp only [value?, hconstant], nofun⟩
  · rintro ⟨hvalue, hkind⟩
    cases o with
    | bool b =>
      cases hvalue
      exact .bool b (hkind _ rfl).symm
    | number x =>
      cases hvalue
      exact .number x (hkind _ rfl).symm
    | text raw =>
      obtain ⟨v, hread, rfl⟩ := Option.map_eq_some_iff.mp hvalue
      exact .text hread
    | expression e =>
      unfold value? at hvalue
      cases hconstant : e.constant? with
      | some v =>
        simp only [hconstant, Option.some.injEq] at hvalue
        subst hvalue
        exact .literal hconstant (hkind v rfl)
      | none =>
        simp only [hconstant, Option.some.injEq] at hvalue
        subst hvalue
        exact .live hconstant

end VariableOverride

namespace VariableTable

variable {t t' next : VariableTable} {name : String} {place : Location} {d : Declaration}
  {ds : List Declaration}

/-! ## Declaring -/

/-- A declaration is accepted if it agrees in kind with the one that is there, and changes nothing then, or
if there is none and its initial value is one of its kind. -/
theorem declare_eq_ok_iff :
    t.declare d place = .ok next ↔
      (∃ known, t.declaration? d.name = some known ∧ known.kind = d.kind ∧ next = t) ∨
      (t.declaration? d.name = none ∧
        ∃ v, d.declared? = some v ∧ next = ⟨t.entries.insert d.name v⟩) := by
  unfold declare Declaration.declared?
  cases t.declaration? d.name with
  | some known =>
    by_cases hkind : known.kind = d.kind
    · simp [hkind, eq_comm]
    · simp [hkind]
  | none =>
    cases d.initialValue? with
    | some v => simp [eq_comm]
    | none => simp

/-- A variable that is there stays as it is. -/
theorem get?_of_declare (h : t.declare d place = .ok next) (name : String) :
    next.entries.get? name = (t.entries.get? name).or (if d.name = name then d.declared? else none) := by
  rcases declare_eq_ok_iff.mp h with ⟨known, hknown, _, rfl⟩ | ⟨hnew, v, hv, rfl⟩
  · obtain ⟨v, hv, _⟩ := Option.map_eq_some_iff.mp hknown
    split
    · next heq => rw [← heq, hv, Option.some_or]
    · rw [Option.or_none]
  · have hnone := Option.map_eq_none_iff.mp hnew
    rw [SortedMap.get?_insert]
    by_cases heq : name = d.name
    · rw [if_pos heq, if_pos heq.symm, heq, hnone, hv]
      rfl
    · rw [if_neg heq, if_neg (Ne.symm heq), Option.or_none]

theorem declaration?_of_declare (h : t.declare d place = .ok next) (name : String) :
    next.declaration? name = (t.declaration? name).or (if d.name = name then some d else none) := by
  have hget := get?_of_declare h name
  unfold declaration?
  rw [hget]
  cases hname : t.entries.get? name with
  | some v => rfl
  | none =>
    split
    · next heq =>
      subst heq
      rcases declare_eq_ok_iff.mp h with ⟨known, hknown, _⟩ | ⟨_, v, hv, _⟩
      · obtain ⟨_, hv, _⟩ := Option.map_eq_some_iff.mp hknown
        cases hname.symm.trans hv
      · rw [hv]
        exact congrArg some (Declaration.declaration_of_declared? hv)
    · rfl

theorem kind_of_declare {known : Declaration} (h : t.declare d place = .ok next)
    (hknown : next.declaration? d.name = some known) : known.kind = d.kind := by
  rcases declare_eq_ok_iff.mp h with ⟨_, hthere, hkind, rfl⟩ | ⟨hnew, _⟩
  · cases hthere.symm.trans hknown
    exact hkind
  · rw [declaration?_of_declare h, hnew, if_pos rfl] at hknown
    cases hknown
    rfl

/-- A declaration that is added has an initial value. -/
theorem exists_declared?_of_declare {known : Declaration} (h : t.declare d place = .ok next)
    (hnew : t.declaration? name = none) (hknown : next.declaration? name = some known) :
    ∃ v, known.declared? = some v := by
  rw [declaration?_of_declare h, hnew, Option.none_or] at hknown
  split at hknown
  · next hname =>
    cases hknown
    subst hname
    rcases declare_eq_ok_iff.mp h with ⟨_, hthere, _⟩ | ⟨_, v, hv, _⟩
    · cases hthere.symm.trans hnew
    · exact ⟨v, hv⟩
  · cases hknown

/-- The declaration that a name has in a table, or gets if others are added. -/
def inForce? (t : VariableTable) (ds : List Declaration) (name : String) : Option Declaration :=
  (t.declaration? name).or (Declaration.first? ds name)

theorem inForce?_of_declare (h : t.declare d place = .ok next) (name : String) :
    next.inForce? ds name = t.inForce? (d :: ds) name := by
  unfold inForce?
  rw [declaration?_of_declare h, Option.or_assoc, Declaration.first?_cons]
  congr 1
  split
  · rfl
  · rfl

/-- Whether declarations can be added to a table: each agrees in kind with the one in force, and where that
one is new to the table, it has an initial value. -/
def Takes (t : VariableTable) (ds : List Declaration) : Prop :=
  ∀ d ∈ ds, ∀ known, t.inForce? ds d.name = some known →
    known.kind = d.kind ∧ (t.declaration? d.name = none → ∃ v, known.declared? = some v)

/-- If the first of several declarations is accepted, the others can be added if all of them could. -/
theorem takes_cons_iff (place : Location) :
    t.Takes (d :: ds) ↔ ∃ next, t.declare d place = .ok next ∧ next.Takes ds := by
  constructor
  · intro h
    obtain ⟨next, hnext⟩ : ∃ next, t.declare d place = .ok next := by
      have hd := h d List.mem_cons_self
      unfold inForce? at hd
      simp only [declare_eq_ok_iff]
      cases hknown : t.declaration? d.name with
      | some known =>
        rw [hknown] at hd
        exact ⟨t, .inl ⟨known, rfl, (hd known rfl).1, rfl⟩⟩
      | none =>
        rw [hknown, Declaration.first?_cons, if_pos rfl] at hd
        obtain ⟨v, hv⟩ := (hd d rfl).2 rfl
        exact ⟨_, .inr ⟨rfl, v, hv, rfl⟩⟩
    refine ⟨next, hnext, fun d' hd' known hknown => ?_⟩
    rw [inForce?_of_declare hnext] at hknown
    obtain ⟨hkind, hinitial⟩ := h d' (List.mem_cons_of_mem _ hd') known hknown
    refine ⟨hkind, fun hnew => hinitial ?_⟩
    rw [declaration?_of_declare hnext, Option.or_eq_none_iff] at hnew
    exact hnew.1
  · rintro ⟨next, hnext, h⟩ d' hd' known hknown
    rw [← inForce?_of_declare hnext] at hknown
    cases hthere : next.declaration? d'.name with
    | none =>
      have hlater : d' ∈ ds := by
        refine (List.mem_cons.mp hd').resolve_left ?_
        rintro rfl
        rw [declaration?_of_declare hnext, if_pos rfl, Option.or_eq_none_iff] at hthere
        cases hthere.2
      obtain ⟨hkind, hinitial⟩ := h d' hlater known hknown
      exact ⟨hkind, fun _ => hinitial hthere⟩
    | some there =>
      have heq : there = known := by
        rw [inForce?, hthere] at hknown
        exact Option.some.inj hknown
      subst heq
      refine ⟨?_, fun hnew => ?_⟩
      · rcases List.mem_cons.mp hd' with rfl | hlater
        · exact kind_of_declare hnext hthere
        · exact (h d' hlater there hknown).1
      · exact exists_declared?_of_declare hnext hnew hthere

/-! ## Several declarations -/

/-- Declares variables in order, each at a place of its own. -/
def declares (t : VariableTable) (entries : List (Location × Declaration)) :
    Except ContentError VariableTable :=
  entries.foldlM (fun t entry => t.declare entry.2 entry.1) t

variable {entries : List (Location × Declaration)}

/-- Declarations that can be added to a table are accepted one by one, and no others. -/
theorem exists_declares_iff (t : VariableTable) (entries : List (Location × Declaration)) :
    (∃ t', t.declares entries = .ok t') ↔ t.Takes (entries.map Prod.snd) := by
  induction entries generalizing t with
  | nil => exact iff_of_true ⟨t, rfl⟩ nofun
  | cons entry rest ih =>
    obtain ⟨place, d⟩ := entry
    rw [List.map_cons, takes_cons_iff place]
    simp only [← ih]
    constructor
    · rintro ⟨t', ht'⟩
      obtain ⟨next, hnext, ht'⟩ := bind_eq_ok.mp ht'
      exact ⟨next, hnext, t', ht'⟩
    · rintro ⟨next, hnext, t', ht'⟩
      exact ⟨t', bind_eq_ok.mpr ⟨next, hnext, ht'⟩⟩

/-- Of the declarations of a name that is new to the table the first makes the variable. -/
theorem get?_of_declares (h : t.declares entries = .ok t') (name : String) :
    t'.entries.get? name =
      (t.entries.get? name).or
        ((Declaration.first? (entries.map Prod.snd) name).bind Declaration.declared?) := by
  induction entries generalizing t with
  | nil =>
    cases h
    exact Option.or_none.symm
  | cons entry rest ih =>
    obtain ⟨next, hnext, h⟩ := bind_eq_ok.mp h
    rw [ih h, get?_of_declare hnext, Option.or_assoc, List.map_cons, Declaration.first?_cons]
    split
    · next hname =>
      subst hname
      rcases declare_eq_ok_iff.mp hnext with ⟨_, hknown, _⟩ | ⟨_, v, hv, _⟩
      · obtain ⟨_, hthere, _⟩ := Option.map_eq_some_iff.mp hknown
        rw [hthere]
        rfl
      · rw [Option.bind_some, hv, Option.some_or]
    · rfl

/-- What a table declares in which nothing was declared before. -/
theorem declaration?_of_declares_empty (h : empty.declares entries = .ok t') (name : String) :
    t'.declaration? name = Declaration.first? (entries.map Prod.snd) name := by
  have htakes := (exists_declares_iff empty entries).mp ⟨t', h⟩
  unfold declaration?
  rw [get?_of_declares h]
  cases hfirst : Declaration.first? (entries.map Prod.snd) name with
  | none => rfl
  | some d =>
    obtain ⟨hmem, rfl⟩ := Declaration.mem_of_first? hfirst
    obtain ⟨v, hv⟩ := (htakes d hmem d hfirst).2 rfl
    show d.declared?.map Variable.declaration = some d
    rw [hv]
    exact congrArg some (Declaration.declaration_of_declared? hv)

/-- Declarations can be made in an empty table if all of one name have one kind, and the first of each name
has an initial value of its kind. -/
theorem takes_empty_iff {ds : List Declaration} :
    empty.Takes ds ↔ (∀ d ∈ ds, ∀ d' ∈ ds, d.name = d'.name → d.kind = d'.kind) ∧
      ∀ name d, Declaration.first? ds name = some d → ∃ v, d.initialValue? = some v := by
  constructor
  · intro h
    have hfirst : ∀ d ∈ ds, ∀ first, Declaration.first? ds d.name = some first → first.kind = d.kind :=
      fun d hd first hfirst => (h d hd first hfirst).1
    refine ⟨fun d hd d' hd' hname => ?_, fun name d hd => ?_⟩
    · obtain ⟨first, hfound⟩ := Declaration.exists_first?_of_mem hd
      rw [← hfirst d hd first hfound]
      exact hfirst d' hd' first (hname ▸ hfound)
    · obtain ⟨hmem, rfl⟩ := Declaration.mem_of_first? hd
      obtain ⟨_, hv⟩ := (h d hmem d hd).2 rfl
      obtain ⟨v, hv, _⟩ := Option.map_eq_some_iff.mp hv
      exact ⟨v, hv⟩
  · rintro ⟨hkinds, hinitials⟩ d hd first hfirst
    obtain ⟨hmem, hname⟩ := Declaration.mem_of_first? hfirst
    refine ⟨hkinds first hmem d hd hname, fun _ => ?_⟩
    obtain ⟨v, hv⟩ := hinitials d.name first hfirst
    exact ⟨_, congrArg (Option.map _) hv⟩

theorem value?_of_declares_empty (h : empty.declares entries = .ok t') (name : String) :
    t'.value? name =
      (Declaration.first? (entries.map Prod.snd) name).bind fun d => d.initialValue?.map .constant := by
  unfold value?
  rw [get?_of_declares h]
  cases Declaration.first? (entries.map Prod.snd) name with
  | none => rfl
  | some d =>
    show d.declared?.map Variable.value = d.initialValue?.map VariableValue.constant
    unfold Declaration.declared?
    rw [Option.map_map]
    rfl

/-! ## Overriding -/

variable {o : VariableOverride} {overrides : SortedMap String VariableOverride}

/-- An override is accepted if it names a declared variable and gives it a value, and replaces that. -/
theorem applyOverride_eq_ok_iff :
    t.applyOverride name o place = .ok next ↔ ∃ d value, t.declaration? name = some d ∧
      o.Gives d.kind value ∧ next = ⟨t.entries.modify name fun v => { v with value }⟩ := by
  simp only [VariableOverride.gives_iff]
  unfold applyOverride
  cases hd : t.declaration? name with
  | none => simp
  | some d =>
    cases hvalue : o.value? d.kind with
    | none => simp [hvalue]
    | some value =>
      unfold set
      simp only [hd]
      cases value with
      | dynamic e => simp [hvalue, eq_comm]
      | constant v =>
        by_cases hkind : VariableKind.of v = d.kind
        · simp [hvalue, hkind, eq_comm]
        · simp [hvalue, hkind]

/-- Whether every override names a declared variable and gives it a value. -/
def Accepts (t : VariableTable) (overrides : List (String × VariableOverride)) : Prop :=
  ∀ entry ∈ overrides, ∃ d value, t.declaration? entry.1 = some d ∧ entry.2.Gives d.kind value

/-- Whether overrides lead from one table to another: those that they name have the values that they give,
and nothing else is different. -/
structure Overridden (t : VariableTable) (overrides : List (String × VariableOverride))
    (t' : VariableTable) : Prop where
  declaration : ∀ name, t'.declaration? name = t.declaration? name
  kept : ∀ name, name ∉ overrides.map Prod.fst → t'.value? name = t.value? name
  replaced : ∀ entry ∈ overrides, ∃ d value, t.declaration? entry.1 = some d ∧
    entry.2.Gives d.kind value ∧ t'.value? entry.1 = some value

theorem overridden_of_applyOverride (h : t.applyOverride name o place = .ok next) :
    t.Overridden [(name, o)] next := by
  obtain ⟨d, value, hd, hgives, rfl⟩ := applyOverride_eq_ok_iff.mp h
  refine ⟨fun other => (sameDeclarations_modify t name value other).symm, ?_, ?_⟩
  · intro other hother
    unfold value?
    rw [SortedMap.get?_modify, if_neg]
    simpa using hother
  · intro entry hentry
    cases List.mem_singleton.mp hentry
    obtain ⟨v, hv, _⟩ := Option.map_eq_some_iff.mp hd
    refine ⟨d, value, hd, hgives, ?_⟩
    unfold value?
    rw [SortedMap.get?_modify, if_pos rfl, hv]
    rfl

/-- Overrides of different variables lead on from those before them. -/
theorem Overridden.cons {entry : String × VariableOverride} {rest : List (String × VariableOverride)}
    (h : t.Overridden [entry] next) (h' : next.Overridden rest t') (hnew : entry.1 ∉ rest.map Prod.fst) :
    t.Overridden (entry :: rest) t' := by
  refine ⟨fun name => (h'.declaration name).trans (h.declaration name), ?_, ?_⟩
  · intro name hname
    rw [List.map_cons, List.mem_cons, not_or] at hname
    rw [h'.kept name hname.2]
    exact h.kept name (by simpa using hname.1)
  · intro later hlater
    rcases List.mem_cons.mp hlater with rfl | hlater
    · rw [h'.kept _ hnew]
      exact h.replaced _ List.mem_cons_self
    · obtain ⟨d, value, hd, hgives, hvalue⟩ := h'.replaced later hlater
      rw [h.declaration] at hd
      exact ⟨d, value, hd, hgives, hvalue⟩

/-- Overrides replace the values of the variables that they name, and nothing else. -/
theorem overridden_of_applyOverrides (h : t.applyOverrides overrides place = .ok t') :
    t.Overridden overrides.toList t' := by
  have hnodup : (overrides.toList.map Prod.fst).Nodup := overrides.nodup_keys
  unfold applyOverrides at h
  generalize overrides.toList = entries at h hnodup
  induction entries generalizing t with
  | nil =>
    cases h
    exact ⟨fun _ => rfl, fun _ _ => rfl, nofun⟩
  | cons entry rest ih =>
    rw [List.map_cons, List.nodup_cons] at hnodup
    obtain ⟨next, hnext, h⟩ := bind_eq_ok.mp h
    exact (overridden_of_applyOverride hnext).cons (ih h hnodup.2) hnodup.1

theorem exists_applyOverrides_iff (t : VariableTable) (overrides : SortedMap String VariableOverride)
    (place : Location) :
    (∃ t', t.applyOverrides overrides place = .ok t') ↔ t.Accepts overrides.toList := by
  constructor
  · rintro ⟨t', h⟩ entry hentry
    obtain ⟨d, value, hd, hgives, _⟩ := (overridden_of_applyOverrides h).replaced entry hentry
    exact ⟨d, value, hd, hgives⟩
  · intro h
    have heach : ∀ entry ∈ overrides.toList,
        ∃ place changed, t.applyOverride entry.1 entry.2 place = .ok changed := by
      intro entry hentry
      obtain ⟨d, value, hd, hgives⟩ := h entry hentry
      exact ⟨place, _, applyOverride_eq_ok_iff.mpr ⟨d, value, hd, hgives, rfl⟩⟩
    obtain ⟨t', ht', _⟩ := applyOverrides_of_each heach place
    exact ⟨t', ht'⟩

end VariableTable

end Menagerie
