import Menagerie.Proofs.Expr.Grammar
import Menagerie.Proofs.Outcome

/-!
# Reading follows the grammar

`expression` reads what the grammar derives, and nothing else. What carries both directions is what
may come next: a phrase that was read at a power is followed by no operator that binds as tightly
(`Stops`), and a phrase of a level can be read in full wherever no operator follows that would
belong to it (`Follows`).

The main statement is `ofTokens_reads_grammar`.
-/

namespace Menagerie.Expr

/-- Whether no operator comes next that binds at least as tightly as `power`. -/
def Stops (power : Nat) : List Spot → Prop
  | (_, .operator op) :: _ => bindingPower op < power
  | (_, .question) :: _ => conditionalPower < power
  | _ => True

/-- The power from which on no operator follows a phrase of a level that was read in full. -/
def Level.limit : Level → Nat
  | .conditional => conditionalPower
  | l => l.power + 1

theorem bindingPower_le (op : BinaryOp) : bindingPower op ≤ 7 := by
  cases op <;> decide

theorem bindingPower_pos (op : BinaryOp) : conditionalPower < bindingPower op := by
  cases op <;> decide

theorem Stops.mono {p q : Nat} {ts : List Spot} (h : Stops p ts) (hpq : p ≤ q) : Stops q ts := by
  unfold Stops at h ⊢
  split
  · exact Nat.lt_of_lt_of_le h hpq
  · exact Nat.lt_of_lt_of_le h hpq
  · trivial

/-- No operator binds as tightly as a sign. -/
theorem stops_of_unary {p : Nat} (h : unaryPower ≤ p) (ts : List Spot) : Stops p ts := by
  unfold Stops
  split
  · next op _ => exact Nat.lt_of_le_of_lt (bindingPower_le op) h
  · exact Nat.lt_of_lt_of_le (by decide) h
  · trivial

theorem extend_of_stops {fuel stop power : Nat} {lhs : Expr} {ts : List Spot}
    (h : Stops power ts) : extend (fuel + 1) stop power lhs ts = .ok (lhs, ts) := by
  unfold extend
  split
  · rw [if_pos (show _ < _ from h)]
  · rw [if_pos (show _ < _ from h)]
  · rfl

/-! ## What is read is a phrase -/

theorem expect_eq_ok {stop : Nat} {token : Token} {what : String} {ts rest : List Spot} :
    expect stop token what ts = .ok rest ↔ ∃ offset, ts = (offset, token) :: rest := by
  cases ts with
  | nil => simp [expect]
  | cons t rest' =>
    obtain ⟨offset, found⟩ := t
    by_cases h : found = token
    · subst h
      simp [expect, eq_comm]
    · simp [expect, h]

theorem pathTail_sound {ts rest : List Spot} {names : List String}
    (h : pathTail ts = .ok (names, rest)) :
    ∃ here, ts = here ++ rest ∧ here.map Prod.snd = dotted names := by
  fun_induction pathTail ts generalizing names with
  | case1 dotAt nameAt name after ih =>
    obtain ⟨⟨more, _⟩, hmore, heq⟩ := bind_eq_ok.mp h
    cases heq
    obtain ⟨here, rfl, hhere⟩ := ih hmore
    exact ⟨(dotAt, .dot) :: (nameAt, .ident name) :: here, rfl, by simp [dotted, hhere]⟩
  | case2 => cases h
  | case3 => cases h
  | case4 =>
    cases h
    exact ⟨[], rfl, rfl⟩

/-- What a name begins is a primary phrase. -/
theorem nameExpr_sound {name : String} {ts rest : List Spot} {e : Expr}
    (h : nameExpr name ts = .ok (e, rest)) :
    ∃ here, ts = here ++ rest ∧ Derives .primary (.ident name :: here.map Prod.snd) e := by
  unfold nameExpr at h
  by_cases htrue : Text.lower name.toList = "true".toList
  · rw [if_pos htrue] at h
    cases h
    exact ⟨[], rfl, .truth (b := true) htrue⟩
  · rw [if_neg htrue] at h
    by_cases hfalse : Text.lower name.toList = "false".toList
    · rw [if_pos hfalse] at h
      cases h
      exact ⟨[], rfl, .truth (b := false) hfalse⟩
    · rw [if_neg hfalse] at h
      obtain ⟨⟨names, _⟩, htail, heq⟩ := bind_eq_ok.mp h
      cases heq
      obtain ⟨here, rfl, hhere⟩ := pathTail_sound htail
      refine ⟨here, rfl, ?_⟩
      rw [hhere]
      refine .path names ?_
      intro b
      cases b
      · exact hfalse
      · exact htrue

/-- What `expression` reads with this fuel are phrases, read as far as operators bind. -/
def ExpressionSound (fuel : Nat) : Prop :=
  ∀ {stop power : Nat} {ts rest : List Spot} {e : Expr}, power ≤ unaryPower →
    expression fuel stop power ts = .ok (e, rest) →
    ∃ here m, ts = here ++ rest ∧ power ≤ m.power ∧ Derives m (here.map Prod.snd) e ∧
      Stops power rest

/-- What `extend` makes of a phrase with this fuel is a phrase. -/
def ExtendSound (fuel : Nat) : Prop :=
  ∀ {stop power : Nat} {ts rest : List Spot} {lhs e : Expr} {m : Level} {before : List Token},
    power ≤ m.power → Derives m before lhs → Stops m.limit ts →
    extend fuel stop power lhs ts = .ok (e, rest) →
    ∃ here m', ts = here ++ rest ∧ power ≤ m'.power ∧
      Derives m' (before ++ here.map Prod.snd) e ∧ Stops power rest

/-- What `operand` reads with this fuel are phrases of the unary level. -/
def OperandSound (fuel : Nat) : Prop :=
  ∀ {stop : Nat} {ts rest : List Spot} {e : Expr}, operand fuel stop ts = .ok (e, rest) →
    ∃ here, ts = here ++ rest ∧ Derives .unary (here.map Prod.snd) e

theorem expressionSound_succ {fuel : Nat} (operandSound : OperandSound fuel)
    (extendSound : ExtendSound fuel) : ExpressionSound (fuel + 1) := by
  intro stop power ts rest e hpower h
  rw [expression] at h
  obtain ⟨⟨lhs, after⟩, hlhs, hextend⟩ := bind_eq_ok.mp h
  obtain ⟨here, rfl, d⟩ := operandSound hlhs
  obtain ⟨more, m, rfl, hm, d', hstops⟩ :=
    extendSound hpower d (stops_of_unary (by decide) _) hextend
  exact ⟨here ++ more, m, by simp, hm, by simpa using d', hstops⟩

/-- An operator that may follow a phrase of a level is of this level or a looser one. -/
theorem Level.power_of_limit {m : Level} {op : BinaryOp} (h : bindingPower op < m.limit) :
    bindingPower op ≤ m.power := by
  have hpos := bindingPower_pos op
  cases m with
  | conditional => exact absurd h (Nat.lt_asymm hpos)
  | _ => exact Nat.le_of_lt_succ h

/-- A conditional may follow a phrase of any level but its own. -/
theorem Level.or_le_of_limit {m : Level} (h : conditionalPower < m.limit) :
    Level.or.power ≤ m.power := by
  cases m with
  | conditional => exact absurd h (Nat.lt_irrefl _)
  | _ => decide

theorem extendSound_succ {fuel : Nat} (expressionSound : ExpressionSound fuel)
    (extendSound : ExtendSound fuel) : ExtendSound (fuel + 1) := by
  intro stop power ts rest lhs e m before hm d hlimit h
  unfold extend at h
  split at h
  · next offset op after =>
    split at h
    · next hlt =>
      cases h
      exact ⟨[], m, rfl, hm, by simpa using d, hlt⟩
    · next hge =>
      obtain ⟨⟨rhs, after'⟩, hrhs, hextend⟩ := bind_eq_ok.mp h
      obtain ⟨here, n, rfl, hn, dr, hstops⟩ :=
        expressionSound (Nat.succ_le_succ (bindingPower_le op)) hrhs
      have hle : bindingPower op ≤ m.power := Level.power_of_limit hlimit
      have dl : Derives (.ofOperator op) before lhs := d.loosen (by simpa using hle)
      have dr' : Derives (Level.ofOperator op).next (here.map Prod.snd) rhs :=
        dr.loosen (by simpa using hn)
      have hnext : Stops (Level.ofOperator op).limit after' := by
        cases op <;> exact hstops
      obtain ⟨more, m', rfl, hm', d', hstops'⟩ :=
        extendSound (by simpa using Nat.le_of_not_lt hge) (.binary dl dr') hnext hextend
      refine ⟨(offset, .operator op) :: (here ++ more), m', by simp, hm', ?_, hstops'⟩
      simpa using d'
  · next offset after =>
    split at h
    · next hlt =>
      cases h
      exact ⟨[], m, rfl, hm, by simpa using d, hlt⟩
    · next hge =>
      obtain ⟨⟨whenTrue, after₁⟩, htrue, h₁⟩ := bind_eq_ok.mp h
      obtain ⟨after₂, hcolon, h₂⟩ := bind_eq_ok.mp h₁
      obtain ⟨⟨whenFalse, after₃⟩, hfalse, hextend⟩ := bind_eq_ok.mp h₂
      obtain ⟨a, n, rfl, hn, da, _⟩ := expressionSound (by decide) htrue
      obtain ⟨colonAt, rfl⟩ := expect_eq_ok.mp hcolon
      obtain ⟨b, n', rfl, hn', db, hstops⟩ := expressionSound (by decide) hfalse
      have d' := Derives.conditional (d.loosen (Level.or_le_of_limit hlimit)) (da.loosen hn)
        (db.loosen hn')
      obtain ⟨more, m', rfl, hm', d'', hstops'⟩ :=
        extendSound (m := .conditional) (Nat.le_of_not_lt hge) d' hstops hextend
      refine ⟨(offset, .question) :: (a ++ (colonAt, .colon) :: (b ++ more)), m', by simp, hm',
        ?_, hstops'⟩
      simpa using d''
  · next hoperator hquestion =>
    cases h
    refine ⟨[], m, rfl, hm, by simpa using d, ?_⟩
    unfold Stops
    split
    · exact absurd rfl (hoperator _ _ _)
    · exact absurd rfl (hquestion _ _)
    · trivial

theorem operandSound_succ {fuel : Nat} (expressionSound : ExpressionSound fuel) :
    OperandSound (fuel + 1) := by
  intro stop ts rest e h
  unfold operand at h
  split at h
  · cases h
  · next offset x after =>
    cases h
    exact ⟨[(offset, .number x)], rfl, .tighter (.number x)⟩
  · next offset s after =>
    cases h
    exact ⟨[(offset, .text s)], rfl, .tighter (.text s)⟩
  · next offset after =>
    obtain ⟨⟨e', after'⟩, he, heq⟩ := bind_eq_ok.mp h
    cases heq
    obtain ⟨here, m, rfl, hm, d, _⟩ := expressionSound (Nat.le_refl _) he
    exact ⟨(offset, .bang) :: here, rfl, .not (d.loosen hm)⟩
  · next offset after =>
    obtain ⟨⟨e', after'⟩, he, heq⟩ := bind_eq_ok.mp h
    cases heq
    obtain ⟨here, m, rfl, hm, d, _⟩ := expressionSound (Nat.le_refl _) he
    exact ⟨(offset, .operator .sub) :: here, rfl, .neg (d.loosen hm)⟩
  · next offset after =>
    obtain ⟨⟨e', after₁⟩, he, h₁⟩ := bind_eq_ok.mp h
    obtain ⟨after₂, hclose, heq⟩ := bind_eq_ok.mp h₁
    cases heq
    obtain ⟨here, m, rfl, hm, d, _⟩ := expressionSound (Nat.zero_le _) he
    obtain ⟨closeAt, rfl⟩ := expect_eq_ok.mp hclose
    have hinside : Derives .conditional (here.map Prod.snd) e := d.loosen (by cases m <;> decide)
    refine ⟨(offset, .leftParen) :: (here ++ [(closeAt, .rightParen)]), by simp, ?_⟩
    have hunary : Derives .unary (.leftParen :: (here.map Prod.snd ++ [.rightParen])) e :=
      .tighter (.parentheses hinside)
    simpa using hunary
  · next offset name after =>
    obtain ⟨here, rfl, d⟩ := nameExpr_sound h
    exact ⟨(offset, .ident name) :: here, rfl, .tighter d⟩
  · cases h

/-- All three readers read phrases, whatever their fuel. -/
theorem readers_sound (fuel : Nat) :
    ExpressionSound fuel ∧ ExtendSound fuel ∧ OperandSound fuel := by
  induction fuel with
  | zero =>
    refine ⟨?_, ?_, ?_⟩
    · intro stop power ts rest e _ h
      simp [expression] at h
    · intro stop power ts rest lhs e m before _ _ _ h
      simp [extend] at h
    · intro stop ts rest e h
      simp [operand] at h
  | succ fuel ih =>
    obtain ⟨expressionSound, extendSound, operandSound⟩ := ih
    exact ⟨expressionSound_succ operandSound extendSound,
      extendSound_succ expressionSound extendSound, operandSound_succ expressionSound⟩

/-! ## Every phrase is read -/

/-- Whether a phrase of a level can be read in full before these tokens: no operator comes next that
would belong to it, and no dot. -/
def Follows (l : Level) (ts : List Spot) : Prop :=
  Stops l.limit ts ∧ ∀ offset after, ts ≠ (offset, .dot) :: after

theorem Follows.next {l : Level} {ts : List Spot} (h : Follows l ts) : Follows l.next ts := by
  refine ⟨h.1.mono ?_, h.2⟩
  cases l <;> decide

@[simp] theorem dotted_cons (name : String) (names : List String) :
    dotted (name :: names) = .dot :: .ident name :: dotted names := rfl

theorem pathTail_of_not_dot {ts : List Spot}
    (h : ∀ offset after, ts ≠ (offset, .dot) :: after) : pathTail ts = .ok ([], ts) := by
  unfold pathTail
  split
  · exact absurd rfl (h _ _)
  · exact absurd rfl (h _ _)
  · exact absurd rfl (h _ _)
  · rfl

theorem pathTail_complete {here rest : List Spot} {names : List String}
    (hhere : here.map Prod.snd = dotted names)
    (hrest : ∀ offset after, rest ≠ (offset, .dot) :: after) :
    pathTail (here ++ rest) = .ok (names, rest) := by
  induction names generalizing here with
  | nil =>
    obtain rfl := List.map_eq_nil_iff.mp hhere
    exact pathTail_of_not_dot hrest
  | cons name names ih =>
    rw [dotted_cons] at hhere
    obtain ⟨⟨dotAt, _⟩, more, rfl, rfl, hmore⟩ := List.map_eq_cons_iff.mp hhere
    obtain ⟨⟨nameAt, _⟩, here', rfl, rfl, hhere'⟩ := List.map_eq_cons_iff.mp hmore
    simp only [List.cons_append, pathTail, ih hhere', ok_bind]
    rfl

theorem nameExpr_of_truth {name : String} {b : Bool} (h : IsTruth name b) (ts : List Spot) :
    nameExpr name ts = .ok (.literal (.bool b), ts) := by
  unfold IsTruth at h
  dsimp only [nameExpr]
  cases b with
  | true => exact if_pos h
  | false =>
    have hne : Text.lower name.toList ≠ "true".toList := by
      rw [h]
      decide
    rw [if_neg hne]
    exact if_pos h

theorem nameExpr_of_path {name : String} {names : List String} {here rest : List Spot}
    (hname : ∀ b, ¬ IsTruth name b) (hhere : here.map Prod.snd = dotted names)
    (hrest : ∀ offset after, rest ≠ (offset, .dot) :: after) :
    nameExpr name (here ++ rest) =
      .ok (.path (String.ofList (Text.lower name.toList) :: names), rest) := by
  have htrue : Text.lower name.toList ≠ "true".toList := hname true
  have hfalse : Text.lower name.toList ≠ "false".toList := hname false
  dsimp only [nameExpr]
  rw [if_neg htrue, if_neg hfalse, pathTail_complete hhere hrest]
  rfl

/-- Fuel that `expression` needs for so many tokens. -/
def expressionFuel (tokens : Nat) : Nat := 2 * tokens + 2

/-- Fuel that `extend` and `operand` need for so many tokens. -/
def stepFuel (tokens : Nat) : Nat := 2 * tokens + 1

/-- Reading a phrase comes down to extending its tree by what comes after it, whatever that comes
to. -/
def ReadsAs (stop : Nat) (l : Level) (ts : List Token) (e : Expr) : Prop :=
  ∀ {here rest : List Spot} {power : Nat} {result : Except EvalError (Expr × List Spot)},
    here.map Prod.snd = ts → Follows l rest → power ≤ l.power →
    (∀ fuel, stepFuel rest.length ≤ fuel → extend fuel stop power e rest = result) →
    ∀ fuel, expressionFuel (here ++ rest).length ≤ fuel →
      expression fuel stop power (here ++ rest) = result

/-- A phrase is read in full where nothing follows that binds tightly enough. -/
theorem ReadsAs.expression_eq {stop : Nat} {l : Level} {ts : List Token} {e : Expr}
    (reads : ReadsAs stop l ts e) (fuel power : Nat) {here : List Spot} (rest : List Spot)
    (hhere : here.map Prod.snd = ts) (hrest : Follows l rest) (hpower : power ≤ l.power)
    (hstops : Stops power rest) (hfuel : expressionFuel (here ++ rest).length ≤ fuel) :
    expression fuel stop power (here ++ rest) = .ok (e, rest) := by
  refine reads hhere hrest hpower ?_ fuel hfuel
  intro fuel hfuel
  obtain ⟨fuel, rfl⟩ := Nat.exists_eq_add_of_le' (Nat.le_trans (Nat.le_add_left 1 _) hfuel)
  exact extend_of_stops hstops

/-- What is read as an operand is read as a phrase of any level that holds operands. -/
theorem readsAs_of_operand {stop : Nat} {l : Level} {ts : List Token} {e : Expr} (hne : ts ≠ [])
    (h : ∀ {here rest : List Spot} {fuel : Nat}, here.map Prod.snd = ts → Follows l rest →
      stepFuel (here ++ rest).length ≤ fuel →
      operand fuel stop (here ++ rest) = .ok (e, rest)) : ReadsAs stop l ts e := by
  intro here rest power result hhere hrest _ hextend fuel hfuel
  obtain ⟨fuel, rfl⟩ := Nat.exists_eq_add_of_le' (Nat.le_trans (Nat.le_add_left 1 _) hfuel)
  have hlength : rest.length < (here ++ rest).length := by
    have hpos : 0 < here.length := by
      rw [List.length_pos_iff]
      rintro rfl
      exact hne hhere.symm
    rw [List.length_append]
    omega
  unfold expressionFuel at hfuel
  unfold stepFuel at hextend h
  rw [expression, h hhere hrest (by omega)]
  exact hextend fuel (by omega)

/-- A sign before a phrase of the unary level. -/
theorem readsAs_of_sign {stop : Nat} {sign : Token} {op : UnaryOp} {ts : List Token} {e : Expr}
    (reads : ReadsAs stop .unary ts e)
    (h : ∀ fuel offset after, operand (fuel + 1) stop ((offset, sign) :: after) =
      (do
        let (e, rest) ← expression fuel stop unaryPower after
        return (.unary op e, rest))) :
    ReadsAs stop .unary (sign :: ts) (.unary op e) := by
  refine readsAs_of_operand (by simp) ?_
  intro here rest fuel hhere hrest hfuel
  obtain ⟨⟨offset, _⟩, here, rfl, rfl, hmore⟩ := List.map_eq_cons_iff.mp hhere
  obtain ⟨fuel, rfl⟩ := Nat.exists_eq_add_of_le' (Nat.le_trans (Nat.le_add_left 1 _) hfuel)
  have hfuel' : expressionFuel (here ++ rest).length ≤ fuel := by
    simp only [stepFuel, List.cons_append, List.length_cons] at hfuel
    unfold expressionFuel
    omega
  have hread := reads.expression_eq fuel unaryPower rest hmore hrest (Nat.le_refl _)
    (stops_of_unary (Nat.le_refl _) rest) hfuel'
  rw [List.cons_append, h, hread]
  rfl

theorem readsAs_of_parentheses {stop : Nat} {ts : List Token} {e : Expr}
    (reads : ReadsAs stop .conditional ts e) :
    ReadsAs stop .primary (.leftParen :: (ts ++ [.rightParen])) e := by
  refine readsAs_of_operand (by simp) ?_
  intro here rest fuel hhere _ hfuel
  obtain ⟨⟨offset, _⟩, more, rfl, rfl, hmore⟩ := List.map_eq_cons_iff.mp hhere
  obtain ⟨inside, close, rfl, hinside, hclose⟩ := List.map_eq_append_iff.mp hmore
  obtain ⟨⟨closeAt, _⟩, rfl, rfl⟩ := List.map_eq_singleton_iff.mp hclose
  obtain ⟨fuel, rfl⟩ := Nat.exists_eq_add_of_le' (Nat.le_trans (Nat.le_add_left 1 _) hfuel)
  have hfuel' : expressionFuel (inside ++ (closeAt, .rightParen) :: rest).length ≤ fuel := by
    simp only [stepFuel, List.cons_append, List.length_cons, List.length_append,
      List.length_nil] at hfuel
    simp only [expressionFuel, List.length_cons, List.length_append]
    omega
  have hread := reads.expression_eq fuel 0 ((closeAt, .rightParen) :: rest) hinside
    ⟨trivial, by simp⟩ (Nat.zero_le _) trivial hfuel'
  simp only [List.cons_append, List.append_assoc, List.nil_append, operand, hread, ok_bind, expect,
    if_pos]
  rfl

theorem readsAs_of_binary {stop : Nat} {op : BinaryOp} {a b : List Token} {lhs rhs : Expr}
    (readsLeft : ReadsAs stop (.ofOperator op) a lhs)
    (readsRight : ReadsAs stop (Level.ofOperator op).next b rhs) :
    ReadsAs stop (.ofOperator op) (a ++ .operator op :: b) (.binary op lhs rhs) := by
  intro here rest power result hhere hrest hpower hextend fuel hfuel
  obtain ⟨left, more, rfl, hleft, hmore⟩ := List.map_eq_append_iff.mp hhere
  obtain ⟨⟨offset, _⟩, right, rfl, rfl, hright⟩ := List.map_eq_cons_iff.mp hmore
  rw [List.append_assoc, List.cons_append] at hfuel ⊢
  have hlimit : (Level.ofOperator op).limit = bindingPower op + 1 := by
    cases op <;> rfl
  refine readsLeft hleft ⟨?_, by simp⟩ hpower ?_ fuel hfuel
  · show bindingPower op < _
    omega
  · -- The left operand stands, and the operator takes the right one.
    intro fuel hfuel
    obtain ⟨fuel, rfl⟩ := Nat.exists_eq_add_of_le' (Nat.le_trans (Nat.le_add_left 1 _) hfuel)
    simp only [stepFuel, List.length_cons, List.length_append] at hfuel
    have hread := readsRight.expression_eq fuel (bindingPower op + 1) rest hright
      hrest.next (by simp) (hlimit ▸ hrest.1)
      (by simp only [expressionFuel, List.length_append]; omega)
    have hge : ¬ bindingPower op < power := by
      rw [Level.power_ofOperator] at hpower
      omega
    simp only [extend, if_neg hge, hread, ok_bind]
    exact hextend fuel (by simp only [stepFuel]; omega)

theorem readsAs_of_conditional {stop : Nat} {c a b : List Token}
    {condition whenTrue whenFalse : Expr} (readsCondition : ReadsAs stop .or c condition)
    (readsTrue : ReadsAs stop .conditional a whenTrue)
    (readsFalse : ReadsAs stop .conditional b whenFalse) :
    ReadsAs stop .conditional (c ++ .question :: (a ++ .colon :: b))
      (.ternary condition whenTrue whenFalse) := by
  intro here rest power result hhere hrest hpower hextend fuel hfuel
  obtain ⟨before, more, rfl, hbefore, hmore⟩ := List.map_eq_append_iff.mp hhere
  obtain ⟨⟨questionAt, _⟩, branches, rfl, rfl, hbranches⟩ := List.map_eq_cons_iff.mp hmore
  obtain ⟨first, others, rfl, hfirst, hothers⟩ := List.map_eq_append_iff.mp hbranches
  obtain ⟨⟨colonAt, _⟩, second, rfl, rfl, hsecond⟩ := List.map_eq_cons_iff.mp hothers
  simp only [List.append_assoc, List.cons_append] at hfuel ⊢
  have hquestion : Stops Level.or.limit
      ((questionAt, .question) :: (first ++ (colonAt, .colon) :: (second ++ rest))) := by
    show conditionalPower < _
    decide
  refine readsCondition hbefore ⟨hquestion, by simp⟩ (Nat.le_trans hpower (by decide)) ?_ fuel hfuel
  intro fuel hfuel
  obtain ⟨fuel, rfl⟩ := Nat.exists_eq_add_of_le' (Nat.le_trans (Nat.le_add_left 1 _) hfuel)
  simp only [stepFuel, List.length_cons, List.length_append] at hfuel
  have hreadTrue := readsTrue.expression_eq fuel conditionalPower
    ((colonAt, .colon) :: (second ++ rest)) hfirst ⟨trivial, by simp⟩ (Nat.le_refl _) trivial
    (by simp only [expressionFuel, List.length_cons, List.length_append]; omega)
  have hreadFalse := readsFalse.expression_eq fuel conditionalPower rest hsecond
    hrest (Nat.le_refl _) hrest.1 (by simp only [expressionFuel, List.length_append]; omega)
  have hge : ¬ conditionalPower < power := Nat.not_lt.mpr hpower
  simp only [extend, if_neg hge, hreadTrue, ok_bind, expect, if_pos, hreadFalse]
  exact hextend fuel (by simp only [stepFuel]; omega)

/-- Every phrase is read as its tree. -/
theorem Derives.reads {l : Level} {ts : List Token} {e : Expr} (d : Derives l ts e) (stop : Nat) :
    ReadsAs stop l ts e := by
  induction d with
  | conditional _ _ _ readsCondition readsTrue readsFalse =>
    exact readsAs_of_conditional readsCondition readsTrue readsFalse
  | binary _ _ readsLeft readsRight => exact readsAs_of_binary readsLeft readsRight
  | not _ reads => exact readsAs_of_sign reads fun _ _ _ => by rw [operand]
  | neg _ reads => exact readsAs_of_sign reads fun _ _ _ => by rw [operand]
  | number x =>
    refine readsAs_of_operand (by simp) ?_
    intro here rest fuel hhere _ hfuel
    obtain ⟨⟨offset, _⟩, rfl, rfl⟩ := List.map_eq_singleton_iff.mp hhere
    obtain ⟨fuel, rfl⟩ := Nat.exists_eq_add_of_le' (Nat.le_trans (Nat.le_add_left 1 _) hfuel)
    rw [List.singleton_append, operand]
  | text s =>
    refine readsAs_of_operand (by simp) ?_
    intro here rest fuel hhere _ hfuel
    obtain ⟨⟨offset, _⟩, rfl, rfl⟩ := List.map_eq_singleton_iff.mp hhere
    obtain ⟨fuel, rfl⟩ := Nat.exists_eq_add_of_le' (Nat.le_trans (Nat.le_add_left 1 _) hfuel)
    rw [List.singleton_append, operand]
  | truth h =>
    refine readsAs_of_operand (by simp) ?_
    intro here rest fuel hhere _ hfuel
    obtain ⟨⟨offset, _⟩, rfl, rfl⟩ := List.map_eq_singleton_iff.mp hhere
    obtain ⟨fuel, rfl⟩ := Nat.exists_eq_add_of_le' (Nat.le_trans (Nat.le_add_left 1 _) hfuel)
    rw [List.singleton_append, operand]
    exact nameExpr_of_truth h rest
  | path names hname =>
    refine readsAs_of_operand (by simp) ?_
    intro here rest fuel hhere hrest hfuel
    obtain ⟨⟨offset, _⟩, more, rfl, rfl, hmore⟩ := List.map_eq_cons_iff.mp hhere
    obtain ⟨fuel, rfl⟩ := Nat.exists_eq_add_of_le' (Nat.le_trans (Nat.le_add_left 1 _) hfuel)
    rw [List.cons_append, operand]
    exact nameExpr_of_path hname hmore hrest.2
  | parentheses _ reads => exact readsAs_of_parentheses reads
  | @tighter level _ _ _ reads =>
    intro here rest power result hhere hrest hpower
    exact reads hhere hrest.next (Nat.le_trans hpower level.power_le_next)

/-! ## Fuel -/

/-- With as much fuel as this, `expression` reads the same with more. -/
def ExpressionStable (fuel : Nat) : Prop :=
  ∀ {stop power more : Nat} {ts : List Spot}, power ≤ unaryPower →
    expressionFuel ts.length ≤ fuel →
    expression (fuel + more) stop power ts = expression fuel stop power ts

/-- With as much fuel as this, `extend` reads the same with more. -/
def ExtendStable (fuel : Nat) : Prop :=
  ∀ {stop power more : Nat} {lhs : Expr} {ts : List Spot}, stepFuel ts.length ≤ fuel →
    extend (fuel + more) stop power lhs ts = extend fuel stop power lhs ts

/-- With as much fuel as this, `operand` reads the same with more. -/
def OperandStable (fuel : Nat) : Prop :=
  ∀ {stop more : Nat} {ts : List Spot}, stepFuel ts.length ≤ fuel →
    operand (fuel + more) stop ts = operand fuel stop ts

theorem length_le_of_expression {fuel stop power : Nat} {ts rest : List Spot} {e : Expr}
    (hpower : power ≤ unaryPower) (h : expression fuel stop power ts = .ok (e, rest)) :
    rest.length ≤ ts.length := by
  obtain ⟨here, _, rfl, _⟩ := (readers_sound fuel).1 hpower h
  simp

theorem length_le_of_operand {fuel stop : Nat} {ts rest : List Spot} {e : Expr}
    (h : operand fuel stop ts = .ok (e, rest)) : rest.length ≤ ts.length := by
  obtain ⟨here, rfl, _⟩ := (readers_sound fuel).2.2 h
  simp

theorem length_lt_of_expect {stop : Nat} {token : Token} {what : String} {ts rest : List Spot}
    (h : expect stop token what ts = .ok rest) : rest.length < ts.length := by
  obtain ⟨offset, rfl⟩ := expect_eq_ok.mp h
  simp

theorem expressionStable_succ {fuel : Nat} (operandStable : OperandStable fuel)
    (extendStable : ExtendStable fuel) : ExpressionStable (fuel + 1) := by
  intro stop power more ts _ hfuel
  unfold expressionFuel at hfuel
  rw [Nat.succ_add, expression, expression, operandStable (by unfold stepFuel; omega)]
  refine bind_congr_of_ok ?_
  rintro ⟨lhs, rest⟩ hlhs
  have hlength := length_le_of_operand hlhs
  exact extendStable (by unfold stepFuel; omega)

theorem extendStable_succ {fuel : Nat} (expressionStable : ExpressionStable fuel)
    (extendStable : ExtendStable fuel) : ExtendStable (fuel + 1) := by
  intro stop power more lhs ts hfuel
  rw [Nat.succ_add, extend.eq_def, extend.eq_def]
  unfold stepFuel at hfuel
  dsimp only
  split
  · next offset op after =>
    rw [List.length_cons] at hfuel
    split
    · rfl
    · rw [expressionStable (Nat.succ_le_succ (bindingPower_le op))
        (by unfold expressionFuel; omega)]
      refine bind_congr_of_ok ?_
      rintro ⟨rhs, rest⟩ hrhs
      have hlength := length_le_of_expression (Nat.succ_le_succ (bindingPower_le op)) hrhs
      exact extendStable (by dsimp only [stepFuel]; omega)
  · next offset after =>
    rw [List.length_cons] at hfuel
    split
    · rfl
    · rw [expressionStable (by decide) (by unfold expressionFuel; omega)]
      refine bind_congr_of_ok ?_
      rintro ⟨whenTrue, after₁⟩ htrue
      have hlength₁ := length_le_of_expression (by decide) htrue
      refine bind_congr_of_ok ?_
      intro after₂ hcolon
      have hlength₂ := length_lt_of_expect hcolon
      dsimp only at hlength₂
      rw [expressionStable (by decide) (by unfold expressionFuel; omega)]
      refine bind_congr_of_ok ?_
      rintro ⟨whenFalse, after₃⟩ hfalse
      have hlength₃ := length_le_of_expression (by decide) hfalse
      exact extendStable (by dsimp only [stepFuel]; omega)
  · rfl

theorem operandStable_succ {fuel : Nat} (expressionStable : ExpressionStable fuel) :
    OperandStable (fuel + 1) := by
  intro stop more ts hfuel
  rw [Nat.succ_add, operand.eq_def, operand.eq_def]
  unfold stepFuel at hfuel
  dsimp only
  split
  · rfl
  · rfl
  · rfl
  · next offset after =>
    rw [List.length_cons] at hfuel
    rw [expressionStable (Nat.le_refl _) (by unfold expressionFuel; omega)]
  · next offset after =>
    rw [List.length_cons] at hfuel
    rw [expressionStable (Nat.le_refl _) (by unfold expressionFuel; omega)]
  · next offset after =>
    rw [List.length_cons] at hfuel
    rw [expressionStable (Nat.zero_le _) (by unfold expressionFuel; omega)]
  · rfl
  · rfl

/-- With fuel enough, no reader comes to its end. -/
theorem readers_stable (fuel : Nat) :
    ExpressionStable fuel ∧ ExtendStable fuel ∧ OperandStable fuel := by
  induction fuel with
  | zero =>
    refine ⟨?_, ?_, ?_⟩
    · intro stop power more ts _ hfuel
      exact absurd hfuel (Nat.not_succ_le_zero _)
    · intro stop power more lhs ts hfuel
      exact absurd hfuel (Nat.not_succ_le_zero _)
    · intro stop more ts hfuel
      exact absurd hfuel (Nat.not_succ_le_zero _)
  | succ fuel ih =>
    obtain ⟨expressionStable, extendStable, operandStable⟩ := ih
    exact ⟨expressionStable_succ operandStable extendStable,
      extendStable_succ expressionStable extendStable, operandStable_succ expressionStable⟩

/-! ## All tokens -/

theorem ofTokens_eq_ok_iff (stop : Nat) (ts : List Spot) (e : Expr) :
    ofTokens stop ts = .ok e ↔ Derives .conditional (ts.map Prod.snd) e := by
  constructor
  · intro h
    obtain ⟨⟨e', rest⟩, hread, hrest⟩ := bind_eq_ok.mp h
    cases rest with
    | cons _ _ => cases hrest
    | nil =>
      cases hrest
      obtain ⟨here, m, rfl, _, d, _⟩ := (readers_sound _).1 (Nat.zero_le _) hread
      rw [List.append_nil]
      exact d.loosen (by cases m <;> decide)
  · intro d
    have hread := ReadsAs.expression_eq (d.reads stop) (enoughFuel ts.length) 0 [] rfl
      ⟨trivial, by simp⟩ (Nat.zero_le _) trivial
      (by simp only [List.append_nil, expressionFuel, enoughFuel]; omega)
    rw [List.append_nil] at hread
    rw [ofTokens, hread]
    rfl

/-- A sequence of tokens is read as a tree exactly if the grammar derives the tree from it, and it
derives at most one. Reading comes to an end: with more fuel than `ofTokens` gives, it answers the
same. The conditional binds loosest and groups to the right. -/
theorem ofTokens_reads_grammar (stop : Nat) (ts : List Spot) :
    (∀ e, ofTokens stop ts = .ok e ↔ Derives .conditional (ts.map Prod.snd) e) ∧
    (∀ e e', Derives .conditional (ts.map Prod.snd) e →
      Derives .conditional (ts.map Prod.snd) e' → e = e') ∧
    (∀ fuel, enoughFuel ts.length ≤ fuel →
      expression fuel stop 0 ts = expression (enoughFuel ts.length) stop 0 ts) ∧
    ∀ {c a c' a' b : List Token} {condition whenTrue condition' whenTrue' whenFalse : Expr},
      Derives .or c condition → Derives .conditional a whenTrue →
      Derives .or c' condition' → Derives .conditional a' whenTrue' →
      Derives .conditional b whenFalse →
      ts.map Prod.snd = c ++ .question :: (a ++ .colon :: (c' ++ .question :: (a' ++ .colon :: b))) →
      ofTokens stop ts =
        .ok (.ternary condition whenTrue (.ternary condition' whenTrue' whenFalse)) := by
  refine ⟨ofTokens_eq_ok_iff stop ts, ?_, ?_, ?_⟩
  · intro e e' d d'
    have h := (ofTokens_eq_ok_iff stop ts e).mpr d
    have h' := (ofTokens_eq_ok_iff stop ts e').mpr d'
    exact Except.ok.inj (h.symm.trans h')
  · intro fuel hfuel
    obtain ⟨more, rfl⟩ := Nat.exists_eq_add_of_le hfuel
    have henough : expressionFuel ts.length ≤ enoughFuel ts.length := by
      unfold expressionFuel enoughFuel
      omega
    exact (readers_stable _).1 (Nat.zero_le _) henough
  · intro c a c' a' b condition whenTrue condition' whenTrue' whenFalse dc da dc' da' db hts
    have inner := Derives.conditional dc' da' db
    rw [ofTokens_eq_ok_iff, hts]
    exact .conditional dc da inner

end Menagerie.Expr
