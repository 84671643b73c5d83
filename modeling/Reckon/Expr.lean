import Reckon.Operator
import Reckon.Text.Decimal

/-!
# Expressions

The tree of an expression, and its postfix rendering: operands come before their operator, as in
`A B +`, a conditional reads `((t) ? (a) : (b))` and a call `f((x),(y))`. Reports and listings show
trees in this form.
-/

namespace Reckon

open Text

/-- An expression. The target of an assignment may be any expression; only a run that reaches the
assignment asks for a variable. -/
inductive Expr where
  | lit (value : Int64)
  | var (name : String)
  | assign (target value : Expr)
  | binary (op : Operator) (left right : Expr)
  | cond (test whenTrue whenFalse : Expr)
  | call (name : String) (args : List Expr)
  deriving Inhabited

namespace Expr

/-- Induction on an expression, in which a call has one hypothesis for all its arguments. -/
theorem induction {P : Expr → Prop}
    (lit : ∀ v, P (.lit v))
    (var : ∀ x, P (.var x))
    (assign : ∀ target value, P target → P value → P (.assign target value))
    (binary : ∀ op left right, P left → P right → P (.binary op left right))
    (cond : ∀ test whenTrue whenFalse, P test → P whenTrue → P whenFalse →
      P (.cond test whenTrue whenFalse))
    (call : ∀ f args, (∀ e ∈ args, P e) → P (.call f args)) : ∀ e, P e
  | .lit v => lit v
  | .var x => var x
  | .assign t v =>
    assign t v (induction lit var assign binary cond call t)
      (induction lit var assign binary cond call v)
  | .binary op l r =>
    binary op l r (induction lit var assign binary cond call l)
      (induction lit var assign binary cond call r)
  | .cond t a b =>
    cond t a b (induction lit var assign binary cond call t)
      (induction lit var assign binary cond call a) (induction lit var assign binary cond call b)
  | .call f args => call f args fun e _ => induction lit var assign binary cond call e

/-- The negative of an expression, written as its product with -1. -/
def negate (e : Expr) : Expr := .binary .mul e (.lit (-1))

/-- Two expressions joined by a symbol. -/
def join (s : Symbol) (left right : Expr) : Expr :=
  match s with
  | .assign => .assign left right
  | .value op => .binary op left right

mutual

/-- The postfix rendering. -/
def text : Expr → String
  | .lit v => decimal v
  | .var x => x
  | .assign target value => text target ++ " " ++ text value ++ " ="
  | .binary op l r => text l ++ " " ++ text r ++ " " ++ op.text
  | .cond t a b => "((" ++ text t ++ ") ? (" ++ text a ++ ") : (" ++ text b ++ "))"
  | .call f args => f ++ "(" ++ ",".intercalate (argTexts args) ++ ")"

/-- The renderings of the arguments of a call, each in parentheses. -/
def argTexts : List Expr → List String
  | [] => []
  | e :: es => ("(" ++ text e ++ ")") :: argTexts es

end

/-- Arguments are written in parentheses, each by itself. -/
theorem argTexts_eq_map (es : List Expr) :
    argTexts es = es.map fun e => "(" ++ text e ++ ")" := by
  induction es with
  | nil => rfl
  | cons e es ih => simp [argTexts, ih]

end Expr

end Reckon
