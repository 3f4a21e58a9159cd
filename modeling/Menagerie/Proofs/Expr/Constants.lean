import Menagerie.Expr.Eval
import Menagerie.Proofs.Expr.Lexing
import Menagerie.Proofs.Number.Written

/-!
# Constants as they are written

The source of a constant is read again, if its number is finite (`Expression.parse_constant`). A boolean and a number
without a sign come back as they were. The sign of a number is read as a negation, so that what comes back has the
value, but is a constant no more; and a text comes back without its single quotes, which its source has lost.
-/

namespace Menagerie

namespace Text

variable {cs : List Char}

/-- There is nothing to trim of a text that has no blank at its ends. -/
theorem trim_eq_self (hfirst : ∀ c rest, cs = c :: rest → isBlank c = false)
    (hlast : ∀ rest c, cs = rest ++ [c] → isBlank c = false) : trim cs = cs := by
  have hkept {ds : List Char} (h : ∀ c rest, ds = c :: rest → isBlank c = false) : ds.dropWhile isBlank = ds := by
    cases ds with
    | nil => rfl
    | cons c rest => exact List.dropWhile_cons_of_neg (Bool.eq_false_iff.mp (h c rest rfl))
  have hreverse : ∀ c rest, cs.reverse = c :: rest → isBlank c = false := by
    intro c rest h
    refine hlast rest.reverse c ?_
    rw [← List.reverse_cons, ← h, List.reverse_reverse]
  unfold trim
  rw [hkept hfirst, hkept hreverse, List.reverse_reverse]

end Text

namespace Expr

open Number

variable {offset : Nat} {cs after : List Char} {spots : List Spot} {x : Float} {q : ℚ}

/-! ## Tokens -/

/-- A number that fills the text is one token. -/
theorem lexes_number (h : Spells cs q) (hx : read? cs = some x) : Lexes offset cs [(offset, .number x)] := by
  obtain ⟨c, rest, rfl, hc⟩ := h.starts
  have hparts : ∀ d ∈ c :: rest, isNumberPart d = true := by
    intro d hd
    unfold isNumberPart
    obtain hdigit | rfl := h.parts d hd
    · rw [hdigit]
      rfl
    · rfl
  have hstarts : startsNumber (c :: rest) = true := by
    rw [startsNumber_of_ne_dot (ne_of_isDigit hc rfl), hc]
  have hread : readToken (c :: rest) = .ok (.number x, c :: rest, []) := by
    unfold readToken
    dsimp only
    rw [if_pos hstarts, List.takeWhile_eq_self_iff.mpr hparts, List.dropWhile_eq_nil_iff.mpr hparts, hx]
  exact .token (Text.isBlank_eq_false_of_isDigit hc) hread .done

theorem lexes_minus (h : Lexes (offset + 1) cs spots) :
    Lexes offset ('-' :: cs) ((offset, .operator .sub) :: spots) := by
  have htaken : ('-' :: cs).take (('-' :: cs).length - cs.length) = ['-'] := by
    rw [List.length_cons, Nat.add_sub_cancel_left]
    rfl
  have hread : readToken ('-' :: cs) = .ok (.operator .sub, ['-'], cs) := by
    unfold readToken
    dsimp only
    rw [startsNumber_of_ne_dot (show '-' ≠ '.' by decide), if_neg (by decide), if_neg (by decide),
      if_neg (by decide)]
    show Except.ok (Token.operator .sub, ('-' :: cs).take (('-' :: cs).length - cs.length), cs) = _
    rw [htaken]
  exact .token (by decide) hread h

/-- A text without single quotes, put between them, is one token. -/
theorem lexes_text (h : '\'' ∉ cs) :
    Lexes offset ('\'' :: (cs ++ ['\''])) [(offset, .text (String.ofList cs))] := by
  have hcs : ∀ c ∈ cs, decide (c ≠ '\'') = true := fun c hc => decide_eq_true fun heq => h (heq ▸ hc)
  have htake : (cs ++ ['\'']).takeWhile (· ≠ '\'') = cs :=
    (List.takeWhile_append_of_pos hcs).trans (List.append_nil cs)
  have hdrop : (cs ++ ['\'']).dropWhile (· ≠ '\'') = ['\''] := List.dropWhile_append_of_pos hcs
  have hread : readToken ('\'' :: (cs ++ ['\''])) = .ok (.text (String.ofList cs), '\'' :: cs ++ ['\''], []) := by
    unfold readToken
    dsimp only
    rw [startsNumber_of_ne_dot (show '\'' ≠ '.' by decide), if_neg (by decide), if_pos (.inl rfl), htake, hdrop]
  exact .token (by decide) hread .done

end Expr

namespace Value

/-- What is left of a value in its source: all of it, but for the single quotes in a text. -/
def unquoted : Value → Value
  | .text s => .text (String.ofList (s.toList.filter (· != '\'')))
  | v => v

/-- The tree that is read from the source of a value. The sign of a number is read as a negation. -/
inductive ReadBack : Value → Expr → Prop
  | bool (b : Bool) : ReadBack (.bool b) (.literal (.bool b))
  | unsigned {x : Float} (h : Number.Unsigned x) : ReadBack (.number x) (.literal (.number x))
  | signed {x : Float} (h : ¬ Number.Unsigned x) : ReadBack (.number x) (.unary .neg (.literal (.number (-x))))
  | text (s : String) : ReadBack (.text s) (.literal (.unquoted (.text s)))

/-- Whether a value comes back from its source as the same constant. -/
def Survives : Value → Prop
  | .bool _ => True
  | .number x => Number.Unsigned x
  | .text s => '\'' ∉ s.toList

end Value

namespace Expression

open Menagerie.Expr Number

variable {v : Value} {e : Expr}

theorem source_text (s : String) :
    (Value.text s).source.toList = '\'' :: (s.toList.filter (· != '\'') ++ ['\'']) := by
  show ("'" ++ String.ofList (s.toList.filter (· != '\'')) ++ "'").toList = _
  rw [String.toList_append, String.toList_append]
  exact congrArg (fun cs => '\'' :: (cs ++ ['\''])) String.toList_ofList

/-- The tokens of the source of a value derive the tree that is read back. -/
theorem lexes_source (hfinite : ∀ x, v = .number x → x.isFinite = true) :
    ∃ spots e, Lexes 0 v.source.toList spots ∧ Derives .conditional (spots.map Prod.snd) e ∧ v.ReadBack e := by
  have hloosest {ts : List Token} {e : Expr} (d : Derives .primary ts e) : Derives .conditional ts e :=
    d.loosen (by decide)
  cases v with
  | bool b =>
    refine ⟨[(0, .ident (truthWord b))], _, ?_, hloosest (.truth ?_), .bool b⟩
    · rw [← tokensFrom_eq_ok_iff (Nat.le_refl _)]
      cases b
      · exact eq_ok_of_toOption (by decide +kernel)
      · exact eq_ok_of_toOption (by decide +kernel)
    · show Text.lower (truthWord b).toList = (truthWord b).toList
      cases b
      · decide +kernel
      · decide +kernel
  | number x =>
    by_cases hsign : Unsigned x
    · obtain ⟨⟨q, hspells⟩, hread⟩ := render_unsigned (hfinite x rfl) hsign
      exact ⟨_, _, lexes_number hspells hread, hloosest (.number x), .unsigned hsign⟩
    · obtain ⟨hneg, hfiniteNeg, hrender⟩ := (unsigned_or_neg (hfinite x rfl)).resolve_left hsign
      obtain ⟨⟨q, hspells⟩, hread⟩ := render_unsigned hfiniteNeg hneg
      have hsource : (Value.number x).source.toList = '-' :: (Notation.plain.render (-x)).toList := by
        show (Notation.plain.render x).toList = _
        rw [hrender, String.toList_append]
        rfl
      have hderives : Derives .unary [.operator .sub, .number (-x)] (.unary .neg (.literal (.number (-x)))) :=
        .neg (.tighter (.number (-x)))
      rw [hsource]
      exact ⟨_, _, lexes_minus (lexes_number hspells hread), hderives.loosen (by decide), .signed hsign⟩
  | text s =>
    have hbody : '\'' ∉ s.toList.filter (· != '\'') := by
      intro h
      exact absurd (List.mem_filter.mp h).2 (by decide)
    rw [source_text]
    exact ⟨_, _, lexes_text hbody, hloosest (.text _), .text s⟩

theorem isBlank_eq_false_of_spells {cs : List Char} {q : ℚ} (h : Spells cs q) :
    ∀ c ∈ cs, Text.isBlank c = false := by
  intro c hc
  obtain hdigit | rfl := h.parts c hc
  · exact Text.isBlank_eq_false_of_isDigit hdigit
  · rfl

theorem isBlank_eq_false_of_render {x : Float} (hfinite : x.isFinite = true) :
    ∀ c ∈ (Notation.plain.render x).toList, Text.isBlank c = false := by
  obtain hsign | ⟨hneg, hfiniteNeg, hrender⟩ := unsigned_or_neg hfinite
  · obtain ⟨⟨q, hspells⟩, -⟩ := render_unsigned hfinite hsign
    exact isBlank_eq_false_of_spells hspells
  · obtain ⟨⟨q, hspells⟩, -⟩ := render_unsigned hfiniteNeg hneg
    intro c hc
    rw [hrender, String.toList_append] at hc
    obtain hc | hc := List.mem_append.mp hc
    · rw [List.mem_singleton.mp hc]
      rfl
    · exact isBlank_eq_false_of_spells hspells c hc

/-- The source of a value has no blanks at its ends. -/
theorem trim_source (hfinite : ∀ x, v = .number x → x.isFinite = true) :
    Text.trim v.source.toList = v.source.toList := by
  cases v with
  | bool b => cases b <;> decide +kernel
  | number x =>
    have hnone := isBlank_eq_false_of_render (hfinite x rfl)
    exact Text.trim_eq_self (fun c _ h => hnone c (h ▸ List.mem_cons_self))
      (fun _ c h => hnone c (h ▸ List.mem_append_right _ (List.mem_singleton_self c)))
  | text s =>
    rw [source_text]
    refine Text.trim_eq_self ?_ ?_
    · intro c rest h
      rw [← (List.cons.inj h).1]
      rfl
    · intro rest c h
      have hends : ('\'' :: s.toList.filter (· != '\'')) ++ ['\''] = rest ++ [c] := h
      obtain ⟨-, hclose⟩ := List.append_inj' hends rfl
      rw [← (List.cons.inj hclose).1]
      rfl

theorem eval_of_readBack (h : v.ReadBack e) (hfinite : ∀ x, v = .number x → x.isFinite = true) (limit : Nat)
    (scope : Scope) : Expr.eval scope limit e = .ok v.unquoted := by
  cases h with
  | bool b => cases limit <;> rfl
  | unsigned _ => cases limit <;> rfl
  | text s => cases limit <;> rfl
  | @signed x _ =>
    have hvalue : Expr.eval scope limit (.unary .neg (.literal (.number (-x)))) = .ok (.number (- -x)) := by
      cases limit <;> rfl
    rw [hvalue, neg_neg_of_isFinite (hfinite x rfl)]
    rfl

theorem literal_iff_survives (h : v.ReadBack e) : e = .literal v ↔ v.Survives := by
  cases h with
  | bool b => exact iff_of_true rfl trivial
  | unsigned hsign => exact iff_of_true rfl hsign
  | signed hsign =>
    refine iff_of_false ?_ hsign
    intro h
    cases h
  | text s =>
    have hkept : s.toList.filter (· != '\'') = s.toList ↔ '\'' ∉ s.toList := by
      rw [List.filter_eq_self]
      constructor
      · exact fun h hquote => absurd (h _ hquote) (by decide)
      · exact fun h c hc => bne_iff_ne.mpr fun hquote => h (hquote ▸ hc)
    refine Iff.trans ?_ hkept
    constructor
    · intro h
      have htext : String.ofList (s.toList.filter (· != '\'')) = s := Value.text.inj (Expr.literal.inj h)
      exact String.toList_ofList.symm.trans (congrArg String.toList htext)
    · intro h
      have htext : String.ofList (s.toList.filter (· != '\'')) = s := by
        rw [h, String.ofList_toList]
      exact congrArg (fun t => Expr.literal (.text t)) htext

/-- The source of a constant is read as an expression with the same source and, but for single quotes in a text, the
same value. It is the same constant exactly if the value is a boolean, a number without a sign, or a text without
single quotes. -/
theorem parse_constant (hfinite : ∀ x, v = .number x → x.isFinite = true) :
    ∃ e, parse (constant v).source = .ok e ∧ ofDocument? (constant v).toDocument = some e ∧
      e.source = (constant v).source ∧ v.ReadBack e.root ∧
      (∀ limit scope, e.eval limit scope = .ok v.unquoted) ∧
      (e = constant v ↔ v.Survives) := by
  obtain ⟨spots, root, hlexes, hderives, hback⟩ := lexes_source hfinite
  have hparse : parse (constant v).source = .ok ⟨v.source, root⟩ := by
    refine parse_eq_ok_iff.mpr ⟨Expr.parse_eq_ok_iff.mpr ⟨spots, hlexes, hderives⟩, ?_⟩
    show v.source = String.ofList (Text.trim v.source.toList)
    rw [trim_source hfinite, String.ofList_toList]
  have hsame : (⟨v.source, root⟩ : Expression) = constant v ↔ root = .literal v :=
    ⟨fun h => (Expression.mk.inj h).2, fun h => h ▸ rfl⟩
  exact ⟨_, hparse, congrArg Except.toOption hparse, rfl, hback, eval_of_readBack hback hfinite,
    hsame.trans (literal_iff_survives hback)⟩

/-- A tenth, which no double is, is the number that `0.1` is read as. It comes back as the same constant. -/
theorem parse_constant_tenth :
    (∀ x, Value.number 0.1 = .number x → x.isFinite = true) ∧
    ∃ e, parse (constant (.number 0.1)).source = .ok e ∧ ofDocument? (constant (.number 0.1)).toDocument = some e ∧
      e.source = (constant (.number 0.1)).source ∧ (Value.number 0.1).ReadBack e.root ∧
      (∀ limit scope, e.eval limit scope = .ok (Value.number 0.1).unquoted) ∧
      (e = constant (.number 0.1) ↔ (Value.number 0.1).Survives) := by
  have hfinite : ∀ x, Value.number 0.1 = .number x → x.isFinite = true := by
    intro x h
    cases h
    decide +kernel
  exact ⟨hfinite, parse_constant hfinite⟩

/-- Minus one and negative zero come back as negations, and a text with a quote in it as another text. -/
theorem constants_lost :
    parse (constant (.number (-1.0))).source = .ok ⟨"-1", .unary .neg (.literal (.number 1.0))⟩ ∧
    parse (constant (.number (-1.0))).source ≠ .ok (constant (.number (-1.0))) ∧
    parse (constant (.number (-0.0))).source = .ok ⟨"-0", .unary .neg (.literal (.number 0.0))⟩ ∧
    parse (constant (.number (-0.0))).source ≠ .ok (constant (.number (-0.0))) ∧
    parse (constant (.text "it's")).source = .ok (constant (.text "its")) ∧
    parse (constant (.text "it's")).source ≠ .ok (constant (.text "it's")) := by
  have hone : parse (constant (.number (-1.0))).source = .ok ⟨"-1", .unary .neg (.literal (.number 1.0))⟩ :=
    eq_ok_of_toOption (by decide +kernel)
  have hzero : parse (constant (.number (-0.0))).source = .ok ⟨"-0", .unary .neg (.literal (.number 0.0))⟩ :=
    eq_ok_of_toOption (by decide +kernel)
  have htext : parse (constant (.text "it's")).source = .ok (constant (.text "its")) :=
    eq_ok_of_toOption (by decide +kernel)
  refine ⟨hone, ?_, hzero, ?_, htext, ?_⟩
  · rw [hone]
    exact fun h => absurd (Except.ok.inj h) (by decide +kernel)
  · rw [hzero]
    exact fun h => absurd (Except.ok.inj h) (by decide +kernel)
  · rw [htext]
    exact fun h => absurd (Except.ok.inj h) (by decide +kernel)

end Expression

end Menagerie
