import Menagerie.Proofs.Outcome
import Menagerie.Template.Library
import Mathlib.Logic.ExistsUnique

/-!
# Templates do not affect each other

Each document that a library takes in has one outcome (`Library.Outcome`): it becomes a template, it is
disabled, or it is left out because it is switched off. Which templates there are in the end depends on
nothing but the valid documents that are switched on (`Library.accepted?`), and of these the first of each
name counts (`Library.get?_ingestAll`). So documents that became no template might as well not be there, and
where names are distinct the order of documents is of no matter (`Library.ingestAll_isolates`).
-/

namespace Menagerie.Library

variable {r : Registry} {l l' : Library} {documents : List (String × Document)}

/-! ## One document -/

/-- What becomes of a document. -/
inductive Outcome where
  /-- It becomes the template of its name. -/
  | template (t : Template)
  | disabled (entry : DisabledTemplate)
  | switchedOff

/-- Whether an outcome is that of a document, for a library as it was before the document was taken in and
as it is afterwards. -/
def Outcome.Holds (r : Registry) (origin : String) (d : Document) (before after : Library) :
    Outcome → Prop
  | template t =>
    readValid r origin d = .ok t ∧ t.enabled ∧ before.get? t.name = none ∧
      after = { before with templates := before.templates.insert t.name t }
  | disabled entry =>
    ((readValid r origin d = .error entry.cause ∧
        entry.name = ((d.field? "name").bind Document.text?).getD origin) ∨
      ∃ t, readValid r origin d = .ok t ∧ t.enabled ∧ (before.get? t.name).isSome ∧
        entry.name = t.name ∧ entry.cause = .malformed t.place (.repeatedTemplate t.name)) ∧
      entry.origin = origin ∧ after = { before with disabled := before.disabled ++ [entry] }
  | switchedOff => ∃ t, readValid r origin d = .ok t ∧ t.enabled = false ∧ after = before

theorem exists_outcome (l : Library) (r : Registry) (origin : String) (d : Document) :
    ∃ outcome : Outcome, outcome.Holds r origin d l (l.ingest r origin d) := by
  unfold ingest
  cases hread : readValid r origin d with
  | error cause =>
    exact ⟨.disabled ⟨((d.field? "name").bind Document.text?).getD origin, origin, cause⟩,
      .inl ⟨hread, rfl⟩, rfl, rfl⟩
  | ok t =>
    dsimp only
    by_cases henabled : t.enabled
    · by_cases htaken : l.templates.contains t.name
      · rw [henabled, htaken]
        exact ⟨.disabled ⟨t.name, origin, _⟩, .inr ⟨t, hread, henabled, htaken, rfl, rfl⟩, rfl, rfl⟩
      · have hfree : l.get? t.name = none := Option.not_isSome_iff_eq_none.mp htaken
        rw [henabled, Bool.eq_false_iff.mpr htaken]
        exact ⟨.template t, hread, henabled, hfree, rfl⟩
    · have hoff : t.enabled = false := Bool.eq_false_iff.mpr henabled
      rw [hoff]
      exact ⟨.switchedOff, t, hread, hoff, rfl⟩

namespace Outcome.Holds

variable {origin : String} {d : Document} {t : Template} {entry entry' : DisabledTemplate}

theorem not_disabled_of_template (h : (Outcome.template t).Holds r origin d l l') :
    ¬ (Outcome.disabled entry).Holds r origin d l l' := by
  obtain ⟨hread, _, hfree, _⟩ := h
  rintro ⟨⟨herror, _⟩ | ⟨t', hread', _, htaken, _⟩, _⟩
  · rw [hread] at herror
    cases herror
  · rw [hread] at hread'
    cases hread'
    rw [hfree] at htaken
    cases htaken

theorem not_switchedOff_of_template (h : (Outcome.template t).Holds r origin d l l') :
    ¬ Outcome.switchedOff.Holds r origin d l l' := by
  obtain ⟨hread, henabled, _⟩ := h
  rintro ⟨t', hread', hoff, _⟩
  rw [hread] at hread'
  cases hread'
  rw [henabled] at hoff
  cases hoff

theorem not_switchedOff_of_disabled (h : (Outcome.disabled entry).Holds r origin d l l') :
    ¬ Outcome.switchedOff.Holds r origin d l l' := by
  rintro ⟨t, hread, hoff, _⟩
  obtain ⟨⟨herror, _⟩ | ⟨t', hread', henabled, _⟩, _⟩ := h
  · rw [hread] at herror
    cases herror
  · rw [hread] at hread'
    cases hread'
    rw [hoff] at henabled
    cases henabled

/-- What is disabled is what comes last among the disabled. -/
theorem entry_eq (h : (Outcome.disabled entry).Holds r origin d l l')
    (h' : (Outcome.disabled entry').Holds r origin d l l') : entry = entry' := by
  have hsame := congrArg Library.disabled (h.2.2.symm.trans h'.2.2)
  exact List.singleton_inj.mp (List.append_cancel_left hsame)

/-- A document has one outcome. -/
theorem unique {outcome outcome' : Outcome} (h : outcome.Holds r origin d l l')
    (h' : outcome'.Holds r origin d l l') : outcome = outcome' := by
  cases outcome with
  | template t =>
    cases outcome' with
    | template t' => exact congrArg _ (Except.ok.inj (h.1.symm.trans h'.1))
    | disabled entry' => exact absurd h' h.not_disabled_of_template
    | switchedOff => exact absurd h' h.not_switchedOff_of_template
  | disabled entry =>
    cases outcome' with
    | template t' => exact absurd h h'.not_disabled_of_template
    | disabled entry' => exact congrArg _ (h.entry_eq h')
    | switchedOff => exact absurd h' h.not_switchedOff_of_disabled
  | switchedOff =>
    cases outcome' with
    | template t' => exact absurd h h'.not_switchedOff_of_template
    | disabled entry' => exact absurd h h'.not_switchedOff_of_disabled
    | switchedOff => rfl

end Outcome.Holds

/-! ## Templates -/

/-- The template that a document makes, if it is valid and not switched off. -/
def accepted? (r : Registry) (document : String × Document) : Option Template :=
  (readValid r document.1 document.2).toOption.filter Template.enabled

theorem Outcome.Holds.accepted {origin : String} {d : Document} {t : Template}
    (h : (Outcome.template t).Holds r origin d l l') : accepted? r (origin, d) = some t := by
  obtain ⟨hread, henabled, _⟩ := h
  unfold accepted?
  rw [hread]
  exact Option.filter_eq_some_iff.mpr ⟨rfl, henabled⟩

/-- Puts in a template unless its name is taken. -/
def offer (templates : SortedMap String Template) (t : Template) : SortedMap String Template :=
  if templates.contains t.name then templates else templates.insert t.name t

/-- What a document does to the templates depends on what is accepted of it. -/
theorem templates_ingest (l : Library) (r : Registry) (origin : String) (d : Document) :
    (l.ingest r origin d).templates = (accepted? r (origin, d)).elim l.templates (offer l.templates) := by
  unfold ingest accepted? offer
  cases readValid r origin d with
  | error cause => rfl
  | ok t =>
    dsimp only [Except.toOption, Option.filter]
    cases t.enabled with
    | false => rfl
    | true =>
      by_cases htaken : l.templates.contains t.name
      · simp [htaken, disable]
      · simp [htaken]

theorem templates_ingestAll (l : Library) (r : Registry) (documents : List (String × Document)) :
    (l.ingestAll r documents).templates =
      (documents.filterMap (accepted? r)).foldl offer l.templates := by
  induction documents generalizing l with
  | nil => rfl
  | cons document rest ih =>
    obtain ⟨origin, d⟩ := document
    show ((l.ingest r origin d).ingestAll r rest).templates = _
    rw [ih, templates_ingest, List.filterMap_cons]
    cases accepted? r (origin, d) with
    | none => rfl
    | some t => rfl

theorem get?_offer (templates : SortedMap String Template) (t : Template) (name : String) :
    (offer templates t).get? name =
      (templates.get? name).or (if t.name = name then some t else none) := by
  unfold offer
  split
  · next htaken =>
    split
    · next heq =>
      obtain ⟨t', ht'⟩ := Option.isSome_iff_exists.mp htaken
      rw [← heq, ht']
      rfl
    · rw [Option.or_none]
  · next hfree =>
    rw [SortedMap.get?_insert]
    by_cases heq : t.name = name
    · have hnone : templates.get? name = none := heq ▸ Option.not_isSome_iff_eq_none.mp hfree
      rw [if_pos heq.symm, if_pos heq, hnone]
      rfl
    · rw [if_neg (Ne.symm heq), if_neg heq, Option.or_none]

theorem get?_foldl_offer (templates : SortedMap String Template) (ts : List Template) (name : String) :
    (ts.foldl offer templates).get? name = (templates.get? name).or (ts.find? fun t => t.name = name) := by
  induction ts generalizing templates with
  | nil => rw [List.foldl_nil, List.find?_nil, Option.or_none]
  | cons t rest ih =>
    rw [List.foldl_cons, ih, get?_offer, Option.or_assoc, List.find?_cons]
    by_cases heq : t.name = name
    · simp [heq]
    · simp [heq]

/-- Each name that is not taken before goes to the first of the documents that is accepted under it. -/
theorem get?_ingestAll (l : Library) (r : Registry) (documents : List (String × Document))
    (name : String) :
    (l.ingestAll r documents).get? name =
      (l.get? name).or ((documents.filterMap (accepted? r)).find? fun t => t.name = name) := by
  unfold get?
  rw [templates_ingestAll, get?_foldl_offer]

/-! ## Documents left out, and documents in another order -/

/-- Whether a list of documents is left of another, when some documents are left out that became no template
as the library took them in. -/
inductive Thinned (r : Registry) : Library → List (String × Document) → List (String × Document) → Prop
  | nil {before} : Thinned r before [] []
  | keep {before origin d rest kept} : Thinned r (before.ingest r origin d) rest kept →
      Thinned r before ((origin, d) :: rest) ((origin, d) :: kept)
  | leaveOut {before origin d rest kept} :
      (∀ t, ¬ (Outcome.template t).Holds r origin d before (before.ingest r origin d)) →
      Thinned r (before.ingest r origin d) rest kept → Thinned r before ((origin, d) :: rest) kept

/-- A document that becomes no template leaves the templates as they are. -/
theorem templates_ingest_of_not_template {origin : String} {d : Document}
    (h : ∀ t, ¬ (Outcome.template t).Holds r origin d l (l.ingest r origin d)) :
    (l.ingest r origin d).templates = l.templates := by
  obtain ⟨outcome, houtcome⟩ := l.exists_outcome r origin d
  cases outcome with
  | template t => exact absurd houtcome (h t)
  | disabled entry => rw [houtcome.2.2]
  | switchedOff =>
    obtain ⟨_, _, _, hsame⟩ := houtcome
    rw [hsame]

theorem Thinned.templates_eq {kept : List (String × Document)} (h : Thinned r l documents kept)
    (hsame : l'.templates = l.templates) :
    (l'.ingestAll r kept).templates = (l.ingestAll r documents).templates := by
  induction h generalizing l' with
  | nil => exact hsame
  | keep _ ih =>
    refine ih ?_
    rw [templates_ingest, templates_ingest, hsame]
  | leaveOut hnone _ ih => exact ih (hsame.trans (templates_ingest_of_not_template hnone).symm)

/-- Where names are distinct, it does not matter which of the templates comes first. -/
theorem find?_perm {ts ts' : List Template} (hperm : ts.Perm ts') (hnames : (ts.map Template.name).Nodup)
    (name : String) : ts.find? (fun t => t.name = name) = ts'.find? (fun t => t.name = name) := by
  induction hperm with
  | nil => rfl
  | cons t _ ih => rw [List.find?_cons, List.find?_cons, ih (List.nodup_cons.mp hnames).2]
  | swap t t' rest =>
    have hne : t.name ≠ t'.name := by
      intro heq
      exact (List.nodup_cons.mp hnames).1 (by simp [heq])
    rw [List.find?_cons, List.find?_cons, List.find?_cons, List.find?_cons]
    by_cases heq : t.name = name
    · have hne' : t'.name ≠ name := fun heq' => hne (heq.trans heq'.symm)
      simp [heq, hne']
    · simp [heq]
  | trans hfirst _ ihfirst ihsecond =>
    have hnames' := (hfirst.map Template.name).nodup_iff.mp hnames
    rw [ihfirst hnames, ihsecond hnames']

/-- Templates are isolated from each other. Each document that is taken in has one outcome. A name goes to
the first document that is valid, switched on and has that name, and it stays with it whatever comes later.
Documents that became no template can be left out, and documents with distinct names can be taken in in any
order. -/
theorem ingestAll_isolates (r : Registry) :
    (∀ (l : Library) (origin : String) (d : Document),
      ∃! outcome : Outcome, outcome.Holds r origin d l (l.ingest r origin d)) ∧
    (∀ (documents : List (String × Document)) (name : String),
      (ingestAll {} r documents).get? name =
        (documents.filterMap (accepted? r)).find? fun t => t.name = name) ∧
    (∀ (documents later : List (String × Document)) (name : String) (t : Template),
      (ingestAll {} r documents).get? name = some t →
        (ingestAll {} r (documents ++ later)).get? name = some t) ∧
    (∀ documents kept : List (String × Document), Thinned r {} documents kept →
      (ingestAll {} r kept).templates = (ingestAll {} r documents).templates) ∧
    ∀ documents documents' : List (String × Document), documents.Perm documents' →
      ((documents.filterMap (accepted? r)).map Template.name).Nodup →
        (ingestAll {} r documents').templates = (ingestAll {} r documents).templates := by
  have hget (documents : List (String × Document)) (name : String) :
      (ingestAll {} r documents).get? name =
        (documents.filterMap (accepted? r)).find? fun t => t.name = name :=
    get?_ingestAll {} r documents name
  refine ⟨?outcome, hget, ?stays, ?left, ?order⟩
  case outcome =>
    intro l origin d
    obtain ⟨outcome, houtcome⟩ := l.exists_outcome r origin d
    exact ⟨outcome, houtcome, fun _ houtcome' => houtcome'.unique houtcome⟩
  case stays =>
    intro documents later name t ht
    rw [hget] at ht ⊢
    rw [List.filterMap_append, List.find?_append, ht]
    rfl
  case left => exact fun documents kept hkept => hkept.templates_eq rfl
  case order =>
    intro documents documents' hperm hnames
    refine SortedMap.ext_get? fun name => ?_
    exact (hget documents' name).trans
      ((find?_perm (hperm.filterMap (accepted? r)) hnames name).symm.trans (hget documents name).symm)

/-- A bee that is switched off, one that is not, another of the name and a text that is no template: the
second alone makes the template of the name, and a wolf can come before it or after it. -/
theorem ingestAll_isolates_bee :
    let off : Document := .object [("name", .text "bee"), ("enabled", .bool false)]
    let bee : Document := .object [("name", .text "bee")]
    let other : Document := .object [("name", .text "bee"), ("species", .text "hornet")]
    let wolf : Document := .object [("name", .text "wolf")]
    let documents :=
      [("off.json", off), ("bee.json", bee), ("other.json", other), ("text.json", .text "bee")]
    let templates := fun documents => (ingestAll {} Registry.builtin documents).templates
    Thinned Registry.builtin {} documents [("bee.json", bee)] ∧
      templates [("bee.json", bee)] = templates documents ∧
      ([("bee.json", bee), ("wolf.json", wolf)].filterMap (accepted? Registry.builtin)).map Template.name =
        ["bee", "wolf"] ∧
      templates [("wolf.json", wolf), ("bee.json", bee)] =
        templates [("bee.json", bee), ("wolf.json", wolf)] := by
  intro off bee other wolf documents templates
  have hthinned : Thinned Registry.builtin {} documents [("bee.json", bee)] := by
    refine .leaveOut ?_ (.keep (.leaveOut ?_ (.leaveOut ?_ .nil)))
    · intro t ht
      have hnone : (accepted? Registry.builtin ("off.json", off)).isNone := by decide +kernel
      rw [ht.accepted] at hnone
      cases hnone
    · intro t ht
      have hname : (accepted? Registry.builtin ("other.json", other)).map Template.name = some "bee" := by
        decide +kernel
      have htaken : ((ingestAll {} Registry.builtin
          [("off.json", off), ("bee.json", bee)]).get? "bee").isSome := by decide +kernel
      rw [ht.accepted] at hname
      have hfree := ht.2.2.1
      rw [Option.some.inj hname] at hfree
      exact Option.not_isSome_iff_eq_none.mpr hfree htaken
    · intro t ht
      have hnone : (accepted? Registry.builtin ("text.json", .text "bee")).isNone := by decide +kernel
      rw [ht.accepted] at hnone
      cases hnone
  have hnames : ([("bee.json", bee), ("wolf.json", wolf)].filterMap (accepted? Registry.builtin)).map
      Template.name = ["bee", "wolf"] := by decide +kernel
  obtain ⟨_, _, _, hleft, horder⟩ := ingestAll_isolates Registry.builtin
  refine ⟨hthinned, hleft _ _ hthinned, hnames, horder _ _ (.swap _ _ _) ?_⟩
  rw [hnames]
  decide

end Menagerie.Library
