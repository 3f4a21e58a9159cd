import Menagerie.Proofs.Expr.Reading

/-!
# Where reading complains

What is wrong with a sequence of tokens is said of one of them, or of the end of the source (`Blames`).
Each reader leaves the last ones of the tokens that it was given, so that a complaint about what was left
is one about the tokens of the source as well. The three readers are taken together, by induction on their
fuel (`readers_blame`).
-/

namespace Menagerie.Expr

variable {α β : Type} {fuel stop power offset : Nat} {ts rest : List Spot} {e : Expr}
  {x : Except EvalError α}

/-- Whether a complaint, if there is one, is about the place of a token or the end of the source. -/
def Blames (stop : Nat) (ts : List Spot) (x : Except EvalError α) : Prop :=
  ∀ e, x = .error e →
    ∃ offset message, e = .parse offset message ∧ (offset = stop ∨ offset ∈ ts.map Prod.fst)

namespace Blames

theorem ok (a : α) : Blames stop ts (.ok a) := nofun

theorem atStop (message : String) : Blames stop ts (.error (.parse stop message) : Except EvalError α) := by
  intro e h
  cases h
  exact ⟨stop, message, rfl, .inl rfl⟩

theorem atToken (htoken : offset ∈ ts.map Prod.fst) (message : String) :
    Blames stop ts (.error (.parse offset message) : Except EvalError α) := by
  intro e h
  cases h
  exact ⟨offset, message, rfl, .inr htoken⟩

theorem bind {f : α → Except EvalError β} (hx : Blames stop ts x)
    (hf : ∀ a, x = .ok a → Blames stop ts (f a)) : Blames stop ts (x >>= f) := by
  cases x with
  | ok a => exact hf a rfl
  | error e =>
    intro e' h
    cases h
    exact hx e rfl

/-- What is a complaint about the last ones of some tokens is one about the tokens. -/
theorem of_suffix (h : Blames stop rest x) (hrest : rest <:+ ts) : Blames stop ts x := by
  intro e he
  obtain ⟨offset, message, rfl, hoffset⟩ := h e he
  exact ⟨offset, message, rfl, hoffset.imp_right fun hmem => List.map_subset Prod.fst hrest.subset hmem⟩

end Blames

/-! ## What is left -/

theorem suffix_of_expression (hpower : power ≤ unaryPower)
    (h : expression fuel stop power ts = .ok (e, rest)) : rest <:+ ts := by
  obtain ⟨here, _, rfl, _⟩ := (readers_sound fuel).1 hpower h
  exact List.suffix_append here rest

theorem suffix_of_operand (h : operand fuel stop ts = .ok (e, rest)) : rest <:+ ts := by
  obtain ⟨here, rfl, _⟩ := (readers_sound fuel).2.2 h
  exact List.suffix_append here rest

theorem suffix_of_expect {token : Token} {what : String} (h : expect stop token what ts = .ok rest) :
    rest <:+ ts := by
  obtain ⟨offset, rfl⟩ := expect_eq_ok.mp h
  exact List.suffix_cons _ rest

/-! ## Complaints -/

theorem blames_expect (stop : Nat) (token : Token) (what : String) (ts : List Spot) :
    Blames stop ts (expect stop token what ts) := by
  cases ts with
  | nil => exact .atStop _
  | cons t rest =>
    unfold expect
    dsimp only
    split
    · exact .ok _
    · exact .atToken (by simp) _

theorem blames_pathTail (stop : Nat) (ts : List Spot) : Blames stop ts (pathTail ts) := by
  fun_induction pathTail ts with
  | case1 dotAt nameAt name after ih =>
    apply (ih.of_suffix ⟨[(dotAt, .dot), (nameAt, .ident name)], rfl⟩).bind
    intro _ _
    exact .ok _
  | case2 => exact .atToken (by simp) _
  | case3 => exact .atToken (by simp) _
  | case4 => exact .ok _

theorem blames_nameExpr (stop : Nat) (name : String) (ts : List Spot) :
    Blames stop ts (nameExpr name ts) := by
  unfold nameExpr
  dsimp only
  split
  · exact .ok _
  · split
    · exact .ok _
    · apply (blames_pathTail stop ts).bind
      intro _ _
      exact .ok _

/-- What `expression` complains about with this fuel. -/
def ExpressionBlames (fuel : Nat) : Prop :=
  ∀ {stop power : Nat} {ts : List Spot}, power ≤ unaryPower → Blames stop ts (expression fuel stop power ts)

/-- What `extend` complains about with this fuel. -/
def ExtendBlames (fuel : Nat) : Prop :=
  ∀ {stop power : Nat} {lhs : Expr} {ts : List Spot}, Blames stop ts (extend fuel stop power lhs ts)

/-- What `operand` complains about with this fuel. -/
def OperandBlames (fuel : Nat) : Prop :=
  ∀ {stop : Nat} {ts : List Spot}, Blames stop ts (operand fuel stop ts)

theorem expressionBlames_succ (operandBlames : OperandBlames fuel) (extendBlames : ExtendBlames fuel) :
    ExpressionBlames (fuel + 1) := by
  intro stop power ts _
  rw [expression]
  apply operandBlames.bind
  rintro ⟨lhs, rest⟩ hlhs
  exact extendBlames.of_suffix (suffix_of_operand hlhs)

theorem extendBlames_succ (expressionBlames : ExpressionBlames fuel) (extendBlames : ExtendBlames fuel) :
    ExtendBlames (fuel + 1) := by
  intro stop power lhs ts
  unfold extend
  split
  · next op after =>
    split
    · exact .ok _
    · have hop : bindingPower op + 1 ≤ unaryPower := Nat.succ_le_succ (bindingPower_le op)
      refine .of_suffix ?_ (List.suffix_cons _ after)
      apply (expressionBlames hop).bind
      rintro ⟨rhs, rest⟩ hrhs
      exact extendBlames.of_suffix (suffix_of_expression hop hrhs)
  · next after =>
    split
    · exact .ok _
    · have hconditional : conditionalPower ≤ unaryPower := by decide
      refine .of_suffix ?_ (List.suffix_cons _ after)
      apply (expressionBlames hconditional).bind
      rintro ⟨whenTrue, after₁⟩ htrue
      refine .of_suffix ?_ (suffix_of_expression hconditional htrue)
      apply (blames_expect stop .colon _ after₁).bind
      intro after₂ hcolon
      refine .of_suffix ?_ (suffix_of_expect hcolon)
      apply (expressionBlames hconditional).bind
      rintro ⟨whenFalse, after₃⟩ hfalse
      exact extendBlames.of_suffix (suffix_of_expression hconditional hfalse)
  · exact .ok _

theorem operandBlames_succ (expressionBlames : ExpressionBlames fuel) : OperandBlames (fuel + 1) := by
  intro stop ts
  -- What stands behind a sign or a parenthesis is read as an expression.
  have behind {t : Spot} {power : Nat} {after : List Spot}
      {f : Expr × List Spot → Except EvalError (Expr × List Spot)}
      (hpower : power ≤ unaryPower) (hf : ∀ e rest, Blames stop rest (f (e, rest))) :
      Blames stop (t :: after) (expression fuel stop power after >>= f) := by
    refine .of_suffix ?_ (List.suffix_cons t after)
    apply (expressionBlames hpower).bind
    rintro ⟨e, rest⟩ hread
    exact (hf e rest).of_suffix (suffix_of_expression hpower hread)
  unfold operand
  split
  · exact .atStop _
  · exact .ok _
  · exact .ok _
  · exact behind (Nat.le_refl _) fun _ _ => .ok _
  · exact behind (Nat.le_refl _) fun _ _ => .ok _
  · apply behind (Nat.zero_le _)
    intro e rest
    apply (blames_expect stop .rightParen _ rest).bind
    intro _ _
    exact .ok _
  · next after => exact (blames_nameExpr stop _ after).of_suffix (List.suffix_cons _ after)
  · exact .atToken (by simp) _

/-- Whatever its fuel, a reader complains about the place of a token or the end of the source. -/
theorem readers_blame (fuel : Nat) : ExpressionBlames fuel ∧ ExtendBlames fuel ∧ OperandBlames fuel := by
  induction fuel with
  | zero =>
    refine ⟨?_, ?_, ?_⟩
    · intro stop power ts _
      rw [expression]
      exact .atStop _
    · intro stop power lhs ts
      rw [extend]
      exact .atStop _
    · intro stop ts
      rw [operand]
      exact .atStop _
  | succ fuel ih =>
    obtain ⟨expressionBlames, extendBlames, operandBlames⟩ := ih
    exact ⟨expressionBlames_succ operandBlames extendBlames,
      extendBlames_succ expressionBlames extendBlames, operandBlames_succ expressionBlames⟩

theorem blames_ofTokens (stop : Nat) (ts : List Spot) : Blames stop ts (ofTokens stop ts) := by
  unfold ofTokens
  apply ((readers_blame _).1 (Nat.zero_le _)).bind
  rintro ⟨e, rest⟩ hread
  have hrest := suffix_of_expression (Nat.zero_le _) hread
  cases rest with
  | nil => exact .ok _
  | cons t rest => exact .of_suffix (.atToken (by simp) _) hrest

end Menagerie.Expr
