import Menagerie.Proofs.SortedMap
import Menagerie.Task.Registry

/-!
# Where complaints about task specifications point

The location that a complaint carries is the way that reading took, and this way can be gone again in the
document (`Document.node?`): it leads to a node of which the complaint is true (`ContentError.TrueOf`). A
specification that was read mirrors its document (`TaskSpec.Mirrors`): at every level its kind is what the tag
names, and there is one task for each entry of the list, in order. Each of the functions that read together
comes to one or the other (`Judged`), by induction over the document.
-/

namespace Menagerie

/-- A step from a node of a document to one inside it. -/
inductive Step where
  | field (name : String)
  | index (i : Nat)

namespace Document

/-- The node that a step leads to. -/
def child? : Document → Step → Option Document
  | d, .field name => d.field? name
  | .list items, .index i => items[i]?
  | _, .index _ => none

/-- The node that steps lead to, one after the other. -/
def node? (d : Document) : List Step → Option Document
  | [] => some d
  | step :: rest => (d.child? step).bind fun child => child.node? rest

/-- The items of a list in a field. -/
def items? (name : String) (d : Document) : Option (List Document) :=
  match d.field? name with
  | some (.list items) => some items
  | _ => none

end Document

namespace Location

/-- The location that a step leads to. -/
def step (l : Location) : Step → Location
  | .field name => l.field name
  | .index i => l.index i

/-- The location that steps lead to, one after the other. -/
def along (l : Location) (way : List Step) : Location := way.foldl step l

end Location

namespace Registry

/-- Whether every tag is the name of the kind that it stands for. -/
def Plain (r : Registry) : Prop := ∀ tag kind, r.kinds.get? tag = some kind → tag = Named.name kind

theorem plain_builtin : builtin.Plain := by
  intro tag kind h
  have hall : ∀ entry ∈ builtin.kinds.toList, entry.1 = Named.name entry.2 := by decide +kernel
  exact hall (tag, kind) (SortedMap.get?_eq_some_iff.mp h)

/-- A tag is normalized by taking the namespace off once, if it is there. -/
theorem eq_normalize_or (tag : String) : tag = normalize tag ∨ tag = nameSpace ++ ":" ++ normalize tag := by
  unfold normalize
  dsimp only
  split
  · next hwritten =>
    right
    rw [← String.toList_inj, String.toList_append, String.toList_ofList]
    exact ((congrArg (· ++ _) hwritten.symm).trans (List.take_append_drop _ _)).symm
  · exact .inl rfl

/-- A registered tag is the name of its kind, with the namespace before it or not. -/
theorem Plain.tag_of_resolve? {r : Registry} (hr : r.Plain) {tag : String} {kind : TaskKind}
    (h : r.resolve? tag = some kind) : tag = Named.name kind ∨ tag = nameSpace ++ ":" ++ Named.name kind :=
  hr _ kind h ▸ eq_normalize_or tag

end Registry

namespace LeafSpec

variable {α β : Type} {p : β → Prop}

theorem forall_mem_map {f : α → β} {a? : Option α} (h : ∀ a, p (f a)) : ∀ b ∈ f <$> a?, p b := by
  cases a? with
  | none => exact fun _ hb => nomatch hb
  | some a =>
    rintro _ ⟨⟩
    exact h a

theorem forall_mem_seq {f? : Option (α → β)} {a? : Option α} (h : ∀ f ∈ f?, ∀ a, p (f a)) :
    ∀ b ∈ f? <*> a?, p b := by
  cases f? with
  | none => exact fun _ hb => nomatch hb
  | some f => exact forall_mem_map (h f rfl)

/-- A task that is read as one of a kind is of that kind, whatever its fields are. -/
theorem kind_of_ofFields? (kind : TaskKind) (fields : Fields Document) :
    ∀ l ∈ ofFields? kind fields, l.kind = kind := by
  cases kind <;> rw [ofFields?]
  case allOf | oneOf | random => exact fun _ h => nomatch h
  case doNothing | switchToHerd =>
    rintro _ ⟨⟩
    rfl
  all_goals
    repeat refine forall_mem_seq ?_
    refine forall_mem_map ?_
    intros
    rfl

end LeafSpec

namespace TaskSpec

/-! ## Complaints -/

/-- Whether an object cannot be read as a task of its kind, or a condition not as a binding. -/
def Unreadable (r : Registry) (d : Document) : Prop :=
  Binding.ofDocument? d = none ∨
    ∃ fields place kind, d = .object fields ∧ kindOf r fields place = .ok kind ∧
      (Document.strictRecord? (LeafSpec.fieldNames kind) (.object (fields.filter fun f => f.1 ≠ "type"))).bind
        (LeafSpec.ofFields? kind) = none

end TaskSpec

/-- Whether what a complaint says is so of a node. -/
def ContentError.TrueOf (r : Registry) (d : Document) : ContentError → Prop
  | .unknownTag _ tag => d.field? "type" = some (.text tag) ∧ r.resolve? tag = none
  | .missingField _ name => (∃ fields, d = .object fields) ∧ d.field? name = none
  | .malformed _ .notAnObject | .malformed _ .notAnEntry => ∀ fields, d ≠ .object fields
  | .malformed _ .notAList => ∀ items, d ≠ .list items
  | .malformed _ (.notAText found) => d = found ∧ d.text? = none
  | .malformed _ (.unknownField name) => (d.field? name).isSome
  | .malformed _ .unreadable => TaskSpec.Unreadable r d
  | .emptyChoice _ => ∃ items, d = .list items
  | .invalidParameter _ field (.notANatural found) | .invalidParameter _ field (.notAWeight found) =>
    d.field? field = some found
  | _ => False

/-- Whether a complaint points at a node of a document at a place, and is true of it. -/
def ContentError.PointsInto (r : Registry) (place : Location) (d : Document) (e : ContentError) : Prop :=
  ∃ way node, d.node? way = some node ∧ e.place? = some (place.along way) ∧ e.TrueOf r node

namespace TaskSpec

/-- What is read of a document at a place has a property, or there is a complaint that points into it. -/
def Judged {α : Type} (r : Registry) (place : Location) (d : Document) (good : α → Prop) :
    Except ContentError α → Prop
  | .ok a => good a
  | .error e => e.PointsInto r place d

section Judged

variable {α β : Type} {r : Registry} {place : Location} {d d' : Document} {good : α → Prop} {good' : β → Prop}

/-- A complaint about the document itself. -/
theorem judged_here {e : ContentError} (hplace : e.place? = some place) (h : e.TrueOf r d) :
    Judged r place d good (.error e) :=
  ⟨[], d, rfl, hplace, h⟩

/-- What is judged of a node is judged of the document that it is inside. -/
theorem Judged.inside (step : Step) {x : Except ContentError α} (hchild : d.child? step = some d')
    (h : Judged r (place.step step) d' good x) : Judged r place d good x := by
  cases x with
  | ok a => exact h
  | error e =>
    obtain ⟨way, node, hnode, hplace, htrue⟩ := h
    refine ⟨step :: way, node, ?_, hplace, htrue⟩
    rw [Document.node?, hchild]
    exact hnode

theorem Judged.bind {x : Except ContentError α} {f : α → Except ContentError β}
    (h : Judged r place d good x) (hf : ∀ a, good a → Judged r place d good' (f a)) :
    Judged r place d good' (x >>= f) := by
  cases x with
  | ok a => exact hf a h
  | error e => exact h

theorem Judged.imp {good' : α → Prop} {x : Except ContentError α} (h : Judged r place d good x)
    (himp : ∀ a, good a → good' a) : Judged r place d good' x := by
  cases x with
  | ok a => exact himp a h
  | error e => exact h

end Judged

/-! ## Mirrors -/

/-- The tasks inside a task. -/
def tasks : TaskSpec → List TaskSpec
  | leaf _ => []
  | allOf _ tasks => tasks
  | oneOf _ options => options.map Prod.snd
  | random _ choices => choices.map Prod.snd

/-- The documents of the tasks that a document lists, if it describes a task of the kind. -/
def nodes? (d : Document) : TaskKind → Option (List Document)
  | .allOf => d.items? "tasks"
  | .oneOf => (d.items? "options").bind (List.mapM (Document.field? "task"))
  | .random => (d.items? "choices").bind (List.mapM (Document.field? "task"))
  | _ => some []

/-- Whether the tag of a document is the name of a kind, with the namespace before it or not. -/
def Tagged (d : Document) (kind : TaskKind) : Prop :=
  ∃ tag, d.field? "type" = some (.text tag) ∧
    (tag = Named.name kind ∨ tag = Registry.nameSpace ++ ":" ++ Named.name kind)

/-- Whether a task is what a document describes, level by level: its kind is named by the tag, and there is one
task inside it for each entry of the list, in order. -/
inductive Mirrors : Document → TaskSpec → Prop
  | node {d : Document} {t : TaskSpec} {nodes : List Document} (tagged : Tagged d t.kind)
      (listed : nodes? d t.kind = some nodes) (each : List.Forall₂ Mirrors nodes t.tasks) : Mirrors d t

/-! ## Parts -/

section Lookup

variable {fields : Fields Document} {name found : String} {d : Document}

theorem lookup_cons_of_eq (h : found = name) : List.lookup name ((found, d) :: fields) = some d := by
  rw [h, List.lookup_cons_self]

theorem lookup_cons_of_ne (h : found ≠ name) : List.lookup name ((found, d) :: fields) = fields.lookup name := by
  rw [List.lookup_cons, beq_false_of_ne h.symm]

theorem items?_of_lookup {items : List Document} (h : fields.lookup name = some (.list items)) :
    (Document.object fields).items? name = some items := by
  show (match fields.lookup name with
    | some (.list items) => some items
    | _ => none) = some items
  rw [h]

theorem lookup_of_items? {items : List Document} (h : (Document.object fields).items? name = some items) :
    fields.lookup name = some (.list items) := by
  unfold Document.items? at h
  split at h
  · next heq =>
    cases h
    exact heq
  · cases h

end Lookup

section Parts

variable {r : Registry} {place : Location} {fields : Fields Document}

theorem judged_conditionOf :
    Judged r place (.object fields) (fun _ => True) (conditionOf fields place) := by
  unfold conditionOf
  cases hlookup : fields.lookup "condition" with
  | none => trivial
  | some d =>
    refine Judged.inside (.field "condition") hlookup ?_
    cases hbinding : Binding.ofDocument? d with
    | some b =>
      dsimp only
      rw [hbinding]
      trivial
    | none =>
      dsimp only
      rw [hbinding]
      exact judged_here rfl (.inl hbinding)

theorem judged_rejectUnknown (known : List String) :
    Judged r place (.object fields) (fun _ => True) (rejectUnknown known fields place) := by
  unfold rejectUnknown
  cases hunknown : fields.find? fun f => !known.contains f.1 with
  | none => trivial
  | some f =>
    refine judged_here rfl ?_
    show (fields.lookup f.1).isSome
    rw [List.lookup_isSome_iff]
    exact ⟨f, List.mem_of_find?_eq_some hunknown, beq_self_eq_true f.1⟩

theorem judged_weightOf (time : DrawTime) :
    Judged r place (.object fields) (fun _ => True) (time.weightOf place (fields.lookup "weight")) := by
  cases hweight : fields.lookup "weight" with
  | none => cases time <;> trivial
  | some d =>
    cases time with
    | eachTick =>
      dsimp only [DrawTime.weightOf]
      split
      · trivial
      · exact judged_here rfl hweight
    | onSpawn =>
      dsimp only [DrawTime.weightOf]
      split
      · trivial
      · exact judged_here rfl hweight

/-- The kind is the one that the tag names. -/
theorem judged_kindOf (hr : r.Plain) :
    Judged r place (.object fields)
      (fun kind => Tagged (.object fields) kind ∧ kindOf r fields place = .ok kind) (kindOf r fields place) := by
  unfold kindOf
  split
  · next hmissing => exact judged_here rfl ⟨⟨fields, rfl⟩, hmissing⟩
  · next tag htag =>
    cases hkind : r.resolve? tag with
    | some kind => exact ⟨⟨tag, htag, hr.tag_of_resolve? hkind⟩, rfl⟩
    | none => exact judged_here rfl ⟨htag, hkind⟩
  · next other hnotText hother =>
    refine Judged.inside (.field "type") hother (judged_here rfl ⟨rfl, ?_⟩)
    cases other with
    | text tag => exact absurd rfl (hnotText tag)
    | null | bool _ | int _ | float _ | list _ | object _ => rfl

end Parts

/-! ## Trees -/

variable {r : Registry}

mutual

/-- What reading comes to: a task that mirrors its document, or a complaint that points into the document. -/
theorem judged_parse (hr : r.Plain) {place : Location} : ∀ (d : Document),
    Judged r place d (Mirrors d) (parse r place d)
  | .object fields => by
    rw [parse]
    refine (judged_kindOf hr).bind fun kind ⟨htagged, hkind⟩ => ?_
    split
    · refine judged_conditionOf.bind fun condition _ => ?_
      refine (judged_parseTasks hr fields rfl).bind fun tasks ⟨nodes, hnodes, hmirrors⟩ => ?_
      refine (judged_rejectUnknown _).bind fun _ _ => ?_
      exact .node htagged hnodes hmirrors
    · refine judged_conditionOf.bind fun condition _ => ?_
      refine (judged_parseEntries hr .eachTick fields rfl).bind fun options ⟨nodes, hnodes, hmirrors⟩ => ?_
      refine (judged_rejectUnknown _).bind fun _ _ => ?_
      exact .node htagged hnodes hmirrors
    · refine judged_conditionOf.bind fun condition _ => ?_
      refine (judged_parseEntries hr .onSpawn fields rfl).bind fun choices ⟨nodes, hnodes, hmirrors⟩ => ?_
      refine (judged_rejectUnknown _).bind fun _ _ => ?_
      split
      · obtain ⟨items, hitems, _⟩ := Option.bind_eq_some_iff.mp hnodes
        have hlisted := lookup_of_items? hitems
        exact Judged.inside (.field "choices") hlisted (judged_here rfl ⟨items, rfl⟩)
      · exact .node htagged hnodes hmirrors
    · next hallOf honeOf hrandom =>
      have hkindless : nodes? (.object fields) kind = some [] := by
        cases kind with
        | allOf => exact absurd rfl hallOf
        | oneOf => exact absurd rfl honeOf
        | random => exact absurd rfl hrandom
        | _ => rfl
      dsimp only
      split
      · next hrecord =>
        exact judged_here rfl (.inr ⟨fields, place, kind, rfl, hkind, by rw [hrecord]; rfl⟩)
      · next rest hrecord =>
        cases hl : LeafSpec.ofFields? kind rest with
        | none => exact judged_here rfl (.inr ⟨fields, place, kind, rfl, hkind, by rw [hrecord]; exact hl⟩)
        | some l =>
          obtain rfl := LeafSpec.kind_of_ofFields? kind rest l hl
          exact .node htagged hkindless .nil
  | .null | .bool _ | .int _ | .float _ | .text _ | .list _ => by
    rw [parse]
    · exact judged_here rfl fun _ => nofun
    · exact fun _ => nofun
termination_by structural d => d

theorem judged_parseTasks (hr : r.Plain) {place : Location} {name : String} {all : Fields Document} :
    ∀ (fields : List (String × Document)), fields.lookup name = all.lookup name →
      Judged r place (.object all)
        (fun tasks => ∃ nodes, (Document.object all).items? name = some nodes ∧ List.Forall₂ Mirrors nodes tasks)
        (parseTasks r place name fields)
  | [], hsame => judged_here rfl ⟨⟨all, rfl⟩, hsame.symm⟩
  | (found, d) :: rest, hsame => by
    rw [parseTasks]
    split
    · next hfound =>
      have hd := (lookup_cons_of_eq hfound).symm.trans hsame
      refine Judged.inside (.field name) hd.symm ?_
      exact (judged_parseTaskList hr d).imp fun _ ⟨nodes, hnodes, hmirrors⟩ =>
        ⟨nodes, items?_of_lookup (hd.symm.trans (congrArg some hnodes)), hmirrors⟩
    · next hfound => exact judged_parseTasks hr rest ((lookup_cons_of_ne hfound).symm.trans hsame)
termination_by structural fields => fields

theorem judged_parseTaskList (hr : r.Plain) {place : Location} : ∀ (d : Document),
    Judged r place d (fun tasks => ∃ nodes, d = .list nodes ∧ List.Forall₂ Mirrors nodes tasks)
      (parseTaskList r place d)
  | .list items => (judged_parseEach hr items rfl).imp fun tasks hmirrors => ⟨items, rfl, hmirrors⟩
  | .null | .bool _ | .int _ | .float _ | .text _ | .object _ => by
    rw [parseTaskList]
    · exact judged_here rfl fun _ => nofun
    · exact fun _ => nofun
termination_by structural d => d

theorem judged_parseEach (hr : r.Plain) {place : Location} {all : List Document} {i : Nat} :
    ∀ (items : List Document), all.drop i = items →
      Judged r place (.list all) (fun tasks => List.Forall₂ Mirrors items tasks) (parseEach r place i items)
  | [], _ => .nil
  | d :: rest, hdrop => by
    rw [parseEach]
    have hd : all[i]? = some d := by rw [← List.head?_drop, hdrop, List.head?_cons]
    refine Judged.bind (Judged.inside (.index i) hd (judged_parse hr d)) fun t ht => ?_
    have hrest : all.drop (i + 1) = rest := by rw [← List.tail_drop, hdrop, List.tail_cons]
    exact (judged_parseEach hr rest hrest).bind fun others hothers => .cons ht hothers
termination_by structural items => items

theorem judged_parseEntries (hr : r.Plain) (time : DrawTime) {place : Location} {name : String} {all : Fields Document} :
    ∀ (fields : List (String × Document)), fields.lookup name = all.lookup name →
      Judged r place (.object all)
        (fun entries => ∃ nodes, ((Document.object all).items? name).bind (List.mapM (Document.field? "task")) =
          some nodes ∧ List.Forall₂ Mirrors nodes (entries.map Prod.snd))
        (parseEntries r place time name fields)
  | [], hsame => judged_here rfl ⟨⟨all, rfl⟩, hsame.symm⟩
  | (found, d) :: rest, hsame => by
    rw [parseEntries]
    split
    · next hfound =>
      have hd := (lookup_cons_of_eq hfound).symm.trans hsame
      refine Judged.inside (.field name) hd.symm ?_
      refine (judged_parseEntryList hr time d).imp fun _ ⟨items, nodes, hitems, hnodes, hmirrors⟩ =>
        ⟨nodes, ?_, hmirrors⟩
      rw [items?_of_lookup (hd.symm.trans (congrArg some hitems))]
      exact hnodes
    · next hfound => exact judged_parseEntries hr time rest ((lookup_cons_of_ne hfound).symm.trans hsame)
termination_by structural fields => fields

theorem judged_parseEntryList (hr : r.Plain) (time : DrawTime) {place : Location} : ∀ (d : Document),
    Judged r place d
      (fun entries => ∃ items nodes, d = .list items ∧ items.mapM (Document.field? "task") = some nodes ∧
        List.Forall₂ Mirrors nodes (entries.map Prod.snd))
      (parseEntryList r place time d)
  | .list items => (judged_parseEachEntry hr time items rfl).imp fun _ ⟨nodes, h⟩ => ⟨items, nodes, rfl, h⟩
  | .null | .bool _ | .int _ | .float _ | .text _ | .object _ => by
    rw [parseEntryList]
    · exact judged_here rfl fun _ => nofun
    · exact fun _ => nofun
termination_by structural d => d

theorem judged_parseEachEntry (hr : r.Plain) (time : DrawTime) {place : Location} {all : List Document} {i : Nat} :
    ∀ (items : List Document), all.drop i = items →
      Judged r place (.list all)
        (fun entries => ∃ nodes, items.mapM (Document.field? "task") = some nodes ∧
          List.Forall₂ Mirrors nodes (entries.map Prod.snd))
        (parseEachEntry r place time i items)
  | [], _ => ⟨[], rfl, .nil⟩
  | d :: rest, hdrop => by
    rw [parseEachEntry]
    have hd : all[i]? = some d := by rw [← List.head?_drop, hdrop, List.head?_cons]
    refine Judged.bind (Judged.inside (.index i) hd (judged_parseEntry hr time d)) ?_
    intro entry ⟨node, hnode, hmirror⟩
    have hrest : all.drop (i + 1) = rest := by rw [← List.tail_drop, hdrop, List.tail_cons]
    refine (judged_parseEachEntry hr time rest hrest).bind fun others ⟨nodes, hnodes, hmirrors⟩ => ?_
    refine ⟨node :: nodes, ?_, .cons hmirror hmirrors⟩
    rw [List.mapM_cons, hnode, hnodes]
    rfl
termination_by structural items => items

theorem judged_parseEntry (hr : r.Plain) (time : DrawTime) {place : Location} : ∀ (d : Document),
    Judged r place d (fun entry => ∃ node, d.field? "task" = some node ∧ Mirrors node entry.2)
      (parseEntry r place time d)
  | .object fields => by
    rw [parseEntry]
    refine (judged_parseEntryTask hr fields rfl).bind fun task htask => ?_
    exact (judged_weightOf time).bind fun w _ => htask
  | .null | .bool _ | .int _ | .float _ | .text _ | .list _ => by
    rw [parseEntry]
    · exact judged_here rfl fun _ => nofun
    · exact fun _ => nofun
termination_by structural d => d

theorem judged_parseEntryTask (hr : r.Plain) {place : Location} {all : Fields Document} :
    ∀ (fields : List (String × Document)), fields.lookup "task" = all.lookup "task" →
      Judged r place (.object all)
        (fun t => ∃ node, (Document.object all).field? "task" = some node ∧ Mirrors node t)
        (parseEntryTask r place all fields)
  | [], hsame => judged_here rfl ⟨⟨all, rfl⟩, hsame.symm⟩
  | (found, d) :: rest, hsame => by
    rw [parseEntryTask]
    split
    · next hfound =>
      have hd := (lookup_cons_of_eq hfound).symm.trans hsame
      refine (judged_rejectUnknown _).bind fun _ _ => ?_
      refine Judged.inside (.field "task") hd.symm ?_
      exact (judged_parse hr d).imp fun t ht => ⟨d, hd.symm, ht⟩
    · next hfound => exact judged_parseEntryTask hr rest ((lookup_cons_of_ne hfound).symm.trans hsame)
termination_by structural fields => fields

end

/-- Wherever reading fails, the complaint carries the location that steps lead to from the place of the document,
these steps lead to a node of the document, and what the complaint says is so of this node. Where it succeeds, the
task mirrors the document. -/
theorem parse_points (place : Location) (d : Document) :
    (∀ e, parse .builtin place d = .error e →
      ∃ way node, d.node? way = some node ∧ e.place? = some (place.along way) ∧ e.TrueOf .builtin node) ∧
    ∀ t, parse .builtin place d = .ok t → Mirrors d t := by
  have hjudged : Judged .builtin place d (Mirrors d) (parse .builtin place d) :=
    judged_parse Registry.plain_builtin d
  refine ⟨fun e he => ?_, fun t ht => ?_⟩
  · rw [he] at hjudged
    exact hjudged
  · rw [ht] at hjudged
    exact hjudged

/-- A dance, which no task is, inside two groups; and a group in which all is well, with tags that carry the
namespace and that do not. -/
theorem parse_points_dance :
    let task (tag : String) : Document := .object [("type", .text tag)]
    let group (tag field : String) (entries : List Document) : Document :=
      .object [(field, .list entries), ("type", .text tag)]
    let entry (d : Document) : Document := .object [("task", d), ("weight", .int 2)]
    let dance := group "all_of" "tasks" [task "wander", group "brain:one_of" "options" [entry (task "dance")]]
    let rest := group "brain:all_of" "tasks" [group "random" "choices" [entry (task "brain:wander")], task "do_nothing"]
    (∃ e, parse .builtin (.root "test") dance = .error e ∧ e.place? = some ⟨"test.tasks[1].options[0].task"⟩ ∧
      ∃ way node, dance.node? way = some node ∧ e.place? = some ((Location.root "test").along way) ∧
        e.TrueOf .builtin node) ∧
    ∃ t, parse .builtin (.root "test") rest = .ok t ∧ Mirrors rest t := by
  intro task group entry dance rest
  have herror : parse .builtin (.root "test") dance = .error (.unknownTag ⟨"test.tasks[1].options[0].task"⟩ "dance") := by
    rfl
  have hok : ∃ t, parse .builtin (.root "test") rest = .ok t := ⟨_, rfl⟩
  obtain ⟨t, ht⟩ := hok
  exact ⟨⟨_, herror, rfl, (parse_points (.root "test") dance).1 _ herror⟩,
    t, ht, (parse_points (.root "test") rest).2 t ht⟩

end TaskSpec

end Menagerie
