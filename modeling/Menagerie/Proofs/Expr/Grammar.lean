import Menagerie.Expr.Parser

/-!
# The grammar of expressions

`Derives` is the grammar that expressions are written in, as a relation between tokens and trees. It
has one level for each kind of operator, from the conditional, which binds loosest, to the operands
that are a single token, a path or in parentheses:

    conditional := or | or '?' conditional ':' conditional
    or          := and | or '||' and
    and         := equality | and '&&' equality
    equality    := comparison | equality ('==' | '!=') comparison
    comparison  := sum | comparison ('<' | '<=' | '>' | '>=') sum
    sum         := product | sum ('+' | '-') product
    product     := unary | product ('*' | '/' | '%') unary
    unary       := primary | ('!' | '-') unary
    primary     := number | text | 'true' | 'false' | name ('.' name)* | '(' conditional ')'

The six levels of binary operators have one rule, `Derives.binary`. Nothing here is about how
expressions are read.
-/

namespace Menagerie.Expr

/-- The levels of the grammar, the loosest first. -/
inductive Level where
  | conditional
  | or
  | and
  | equality
  | comparison
  | sum
  | product
  | unary
  | primary
  deriving DecidableEq, Repr

namespace Level

/-- The level whose phrases an operator joins. -/
def ofOperator : BinaryOp → Level
  | .or => or
  | .and => and
  | .eq | .ne => equality
  | .lt | .le | .gt | .ge => comparison
  | .add | .sub => sum
  | .mul | .div | .rem => product

/-- The next tighter level; there is none beyond the tightest. -/
def next : Level → Level
  | conditional => or
  | or => and
  | and => equality
  | equality => comparison
  | comparison => sum
  | sum => product
  | product => unary
  | unary | primary => primary

end Level

/-- The word for a boolean. -/
def truthWord : Bool → String
  | true => "true"
  | false => "false"

/-- Whether a name is the word for a boolean, in any letter case. -/
def IsTruth (name : String) (b : Bool) : Prop := Text.lower name.toList = (truthWord b).toList

/-- Names, each after a dot. -/
def dotted (names : List String) : List Token := names.flatMap fun name => [.dot, .ident name]

/-- The tokens of a phrase of a level, and the tree that they write. -/
inductive Derives : Level → List Token → Expr → Prop
  | conditional {c a b : List Token} {condition whenTrue whenFalse : Expr} :
      Derives .or c condition → Derives .conditional a whenTrue → Derives .conditional b whenFalse →
      Derives .conditional (c ++ .question :: (a ++ .colon :: b))
        (.ternary condition whenTrue whenFalse)
  | binary {op : BinaryOp} {a b : List Token} {lhs rhs : Expr} :
      Derives (.ofOperator op) a lhs → Derives (Level.ofOperator op).next b rhs →
      Derives (.ofOperator op) (a ++ .operator op :: b) (.binary op lhs rhs)
  | not {ts : List Token} {e : Expr} :
      Derives .unary ts e → Derives .unary (.bang :: ts) (.unary .not e)
  | neg {ts : List Token} {e : Expr} :
      Derives .unary ts e → Derives .unary (.operator .sub :: ts) (.unary .neg e)
  | number (x : Float) : Derives .primary [.number x] (.literal (.number x))
  | text (s : String) : Derives .primary [.text s] (.literal (.text s))
  | truth {name : String} {b : Bool} :
      IsTruth name b → Derives .primary [.ident name] (.literal (.bool b))
  /-- Only the first name of a path is taken in lower case. -/
  | path {name : String} (names : List String) :
      (∀ b, ¬ IsTruth name b) →
      Derives .primary (.ident name :: dotted names)
        (.path (String.ofList (Text.lower name.toList) :: names))
  | parentheses {ts : List Token} {e : Expr} :
      Derives .conditional ts e → Derives .primary (.leftParen :: (ts ++ [.rightParen])) e
  /-- A phrase of a tighter level. -/
  | tighter {level : Level} {ts : List Token} {e : Expr} :
      Derives level.next ts e → Derives level ts e

/-! ## Levels as powers -/

namespace Level

/-- The place of a level among all levels. -/
def power : Level → Nat
  | conditional => conditionalPower
  | or => 2
  | and => 3
  | equality => 4
  | comparison => 5
  | sum => 6
  | product => 7
  | unary => unaryPower
  | primary => 9

theorem power_injective {l m : Level} (h : l.power = m.power) : l = m := by
  cases l <;> cases m <;> revert h <;> decide

@[simp] theorem power_ofOperator (op : BinaryOp) : (ofOperator op).power = bindingPower op := by
  cases op <;> rfl

@[simp] theorem power_next_ofOperator (op : BinaryOp) :
    (ofOperator op).next.power = bindingPower op + 1 := by
  cases op <;> rfl

theorem power_le_next (l : Level) : l.power ≤ l.next.power := by
  cases l <;> decide

theorem power_next_of_lt {l m : Level} (h : l.power < m.power) : l.next.power = l.power + 1 := by
  cases l <;> cases m <;> revert h <;> decide

end Level

/-- A phrase of a level is one of every looser level. -/
theorem Derives.loosen {l m : Level} {ts : List Token} {e : Expr} (d : Derives m ts e)
    (h : l.power ≤ m.power) : Derives l ts e := by
  obtain ⟨gap, hgap⟩ := Nat.exists_eq_add_of_le h
  induction gap generalizing l with
  | zero => exact Level.power_injective hgap ▸ d
  | succ gap ih =>
    have hnext : l.next.power = l.power + 1 := Level.power_next_of_lt (m := m) (by omega)
    exact .tighter (ih (by omega) (by omega))

end Menagerie.Expr
