import Menagerie.Proofs.Expr.ChainLimit

/-!
# What evaluation depends on

An expression reads what its paths name, and where a path names a variable that is an expression, what
the paths of that expression name, and so on along the chains of variables (`Scope.Reaches`). Nothing
else in a scope has a part in the outcome, be it a value or an error: two scopes that hold the same at
every path that is reached (`Scope.AgreeAt`) are interchangeable, at every limit
(`Expression.eval_eq_of_agree`). That variables may refer to one another in a circle is no matter, for
the induction is on the limit.
-/

namespace Menagerie

open Menagerie.Expr

/-- The paths in a tree. -/
def Expr.paths : Expr → List (List String)
  | .literal _ => []
  | .path segments => [segments]
  | .unary _ e => e.paths
  | .binary _ a b => a.paths ++ b.paths
  | .ternary c a b => c.paths ++ (a.paths ++ b.paths)

namespace Scope

/-- Whether two scopes hold the same at a path: the same variable, property or local, or neither of
them one. Of the agent it is a matter as well whether there is one at all. A path of another form is
read from no scope. -/
structure AgreeAt (a b : Scope) (path : List String) : Prop where
  config : ∀ s name, s = "q" ∨ s = "query" → path = [s, "entity", "config", name] →
    (a.config.bind fun config => config name) = b.config.bind fun config => config name
  entity : ∀ s property, s = "q" ∨ s = "query" → path = [s, "entity", property] →
    (a.entity.map fun query => query property) = b.entity.map fun query => query property
  world : ∀ s property, s = "q" ∨ s = "query" → path = [s, "world", property] →
    (a.world.bind fun query => query property) = b.world.bind fun query => query property
  locals : ∀ s name, s = "v" ∨ s = "variable" → path = [s, name] →
    a.locals.lookup name = b.locals.lookup name

/-- Whether a path is one of a tree, or one of the expression of a variable that the tree reaches. -/
inductive Reaches (scope : Scope) : Expr → List String → Prop
  | here {e : Expr} {path : List String} (occurs : path ∈ e.paths) : Reaches scope e path
  | through {e : Expr} {path onward : List String} {name : String} {next : Expression}
      (occurs : path ∈ e.paths) (named : configName? path = some name)
      (found : scope.dynamic? name = some next) (further : Reaches scope next.root onward) :
      Reaches scope e onward

variable {a b : Scope} {e : Expr} {path : List String} {name : String} {next : Expression}

theorem AgreeAt.dynamic?_eq (h : a.AgreeAt b path) (named : configName? path = some name) :
    a.dynamic? name = b.dynamic? name := by
  obtain ⟨s, hs, rfl⟩ := configName?_eq_some named
  unfold dynamic?
  rw [h.config s name hs rfl]

/-- Scopes that agree on what one of them reaches from a tree agree on what it reaches from a variable
of the tree. -/
theorem agree_through (agree : ∀ path, a.Reaches e path → a.AgreeAt b path) (occurs : path ∈ e.paths)
    (named : configName? path = some name) (found : a.dynamic? name = some next) :
    ∀ onward, a.Reaches next.root onward → a.AgreeAt b onward := by
  intro onward further
  exact agree onward (.through occurs named found further)

/-- Scopes that agree on what one of them reaches reach the same. -/
theorem reaches_iff_of_agree (agree : ∀ path, a.Reaches e path → a.AgreeAt b path) (path : List String) :
    b.Reaches e path ↔ a.Reaches e path := by
  constructor
  · intro h
    induction h with
    | here occurs => exact .here occurs
    | through occurs named found _ ih =>
      rw [← (agree _ (.here occurs)).dynamic?_eq named] at found
      exact .through occurs named found (ih (agree_through agree occurs named found))
  · intro h
    induction h with
    | here occurs => exact .here occurs
    | through occurs named found _ ih =>
      have found' := found
      rw [(agree _ (.here occurs)).dynamic?_eq named] at found'
      exact .through occurs named found' (ih (agree_through agree occurs named found))

end Scope

namespace Expr

variable {a b : Scope} {path : List String}
variable {dynamic dynamic' : String → Expression → Except EvalError Value}

/-- A path yields the same in scopes that agree at it, if a variable with an expression does. -/
theorem lookup_eq_of_agree (agree : a.AgreeAt b path)
    (opened : ∀ name next, configName? path = some name → a.dynamic? name = some next →
      dynamic name next = dynamic' name next) :
    lookup a dynamic path = lookup b dynamic' path := by
  unfold lookup
  dsimp only
  split
  · next s name =>
    split
    · next hs =>
      rw [← agree.config s name hs rfl]
      cases found : a.config.bind fun config => config name with
      | none => rfl
      | some value =>
        cases value with
        | constant v => rfl
        | dynamic next => exact opened name next (if_pos hs) (Scope.dynamic?_eq_some.mpr found)
    · rfl
  · next s property =>
    split
    · next hs =>
      have same := agree.entity s property hs rfl
      cases ha : a.entity with
      | none =>
        rw [ha] at same
        rw [Option.map_eq_none_iff.mp same.symm]
      | some query =>
        rw [ha] at same
        obtain ⟨query', hb, found⟩ := Option.map_eq_some_iff.mp same.symm
        rw [hb]
        dsimp only
        rw [found]
    · rfl
  · next s property =>
    split
    · next hs => rw [agree.world s property hs rfl]
    · rfl
  · next s name =>
    split
    · next hs => rw [agree.locals s name hs rfl]
    · rfl
  · rfl

/-- A tree comes to the same where each of its paths yields the same: what fails first, and which
operands are left alone, goes by what the paths yield. -/
theorem evalWith_eq_of_lookup (e : Expr)
    (same : ∀ path ∈ e.paths, lookup a dynamic path = lookup b dynamic' path) :
    evalWith a dynamic e = evalWith b dynamic' e := by
  induction e with
  | literal v => rfl
  | path segments => exact same segments (List.mem_singleton_self _)
  | unary op e ih =>
    have operand := ih same
    cases op with
    | not => rw [evalWith_not, evalWith_not, operand]
    | neg => rw [evalWith_neg, evalWith_neg, operand]
  | ternary c x y ihc ihx ihy =>
    simp only [paths, List.mem_append, or_imp, forall_and] at same
    obtain ⟨hc, hx, hy⟩ := same
    rw [evalWith_ternary, evalWith_ternary, ihc hc]
    congr 1
    funext choice
    cases choice with
    | true => exact ihx hx
    | false => exact ihy hy
  | binary op x y ihx ihy =>
    simp only [paths, List.mem_append, or_imp, forall_and] at same
    obtain ⟨hx, hy⟩ := same
    cases hop : shortcut op with
    | some decisive => rw [evalWith_logical _ hop, evalWith_logical _ hop, ihx hx, ihy hy]
    | none => rw [evalWith_strict _ hop, evalWith_strict _ hop, ihx hx, ihy hy]

theorem eval_eq_of_agree_tree (limit : Nat) {e : Expr} (agree : ∀ path, a.Reaches e path → a.AgreeAt b path) :
    eval a limit e = eval b limit e := by
  induction limit generalizing e with
  | zero =>
    rw [eval_eq, eval_eq]
    apply evalWith_eq_of_lookup
    intro path occurs
    exact lookup_eq_of_agree (agree path (.here occurs)) fun _ _ _ _ => rfl
  | succ limit ih =>
    rw [eval_eq, eval_eq]
    apply evalWith_eq_of_lookup
    intro path occurs
    apply lookup_eq_of_agree (agree path (.here occurs))
    intro name next named found
    exact ih (Scope.agree_through agree occurs named found)

end Expr

/-- Two scopes that agree at every path that an expression reaches in the first are interchangeable for
it: it reaches the same in both, and evaluation comes to the same value or fails alike, however long a
chain of variables may be. -/
theorem Expression.eval_eq_of_agree {a b : Scope} {e : Expression}
    (agree : ∀ path, a.Reaches e.root path → a.AgreeAt b path) :
    (∀ path, b.Reaches e.root path ↔ a.Reaches e.root path) ∧
      ∀ limit, e.eval limit a = e.eval limit b :=
  ⟨Scope.reaches_iff_of_agree agree, fun limit => Expr.eval_eq_of_agree_tree limit agree⟩

/-- A scope with the variables on which wakefulness depends as they are in `Scope.loop`, and nothing else
in common with it: what was a circle is a constant, and there are an agent, a world and a local. -/
def Scope.herd : Scope where
  entity := some fun _ => some (.number 3.0)
  world := some fun _ => some (.bool true)
  config := some fun name =>
    match name with
    | "fear" => some (.constant (.bool true))
    | "awake" => Scope.loop.oppositeOf "tired"
    | "tired" => some (.constant (.bool false))
    | _ => none
  locals := [("tired", .bool true)]

theorem Expression.eval_eq_of_agree_awake :
    (∀ path, Scope.loop.Reaches (configLookup "awake").root path → Scope.loop.AgreeAt .herd path) ∧
    (∀ limit, (configLookup "awake").eval limit .loop = (configLookup "awake").eval limit .herd) ∧
    (configLookup "awake").eval 1 .loop = .ok (.bool true) ∧
    (configLookup "fear").eval 1 .loop ≠ (configLookup "fear").eval 1 .herd := by
  have at_variable {name : String}
      (same : (Scope.loop.config.bind fun config => config name) = Scope.herd.config.bind fun config => config name) :
      Scope.loop.AgreeAt .herd ["q", "entity", "config", name] :=
    ⟨fun _ _ _ h => by cases h; exact same, fun _ _ _ h => by simp at h, fun _ _ _ h => by simp at h,
      fun _ _ _ h => by simp at h⟩
  have agree : ∀ path, Scope.loop.Reaches (configLookup "awake").root path → Scope.loop.AgreeAt .herd path := by
    intro path h
    cases h with
    | here occurs =>
      obtain rfl := List.mem_singleton.mp occurs
      exact at_variable rfl
    | through occurs named found further =>
      obtain rfl := List.mem_singleton.mp occurs
      cases named
      cases found
      cases further with
      | here occurs =>
        obtain rfl := List.mem_singleton.mp occurs
        exact at_variable rfl
      | through occurs named found _ =>
        obtain rfl := List.mem_singleton.mp occurs
        cases named
        cases found
  exact ⟨agree, (eval_eq_of_agree agree).2, rfl, fun h => by cases h⟩

end Menagerie
