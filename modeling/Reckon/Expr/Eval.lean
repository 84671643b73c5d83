import Reckon.Function
import Reckon.Rejection
import Reckon.Run
import Reckon.Scope

/-!
# Evaluation of expressions

The meaning of an expression: a run on the scope it stands in. Operands and arguments are evaluated
from left to right. An assignment looks at its target first, and a call at its function and at the
number of its arguments, so that these are refused before anything in them is evaluated. A call sees
nothing but its arguments.

`eval` leaves open how a call is made; `Definition.call` closes the knot with a bound on how deep calls
may nest. A larger bound changes nothing but `exhausted`.
-/

namespace Reckon

namespace Expr

mutual

/-- The run of an expression, with `enter` for the calls in it. -/
def eval (fns : FunctionTable) (enter : Definition → List Int64 → Except (Stop Rejection) Int64) :
    Expr → Run Scope Rejection Int64
  | .lit v => pure v
  | .var x => do
    let scope ← get
    set (scope.touch x)
    return scope.value x
  | .assign (.var x) value => do
    let v ← eval fns enter value
    modify (·.assign x v)
    return v
  | .assign target _ => Run.fail (.invalidTarget target.text)
  | .binary op left right => do
    let l ← eval fns enter left
    let r ← eval fns enter right
    Run.trapping (op.apply l r)
  | .cond test whenTrue whenFalse => do
    let t ← eval fns enter test
    if t = 0 then eval fns enter whenFalse else eval fns enter whenTrue
  | .call f args =>
    match fns.find? f with
    | none => Run.fail (.undefinedFunction f)
    | some d =>
      if args.length = d.arity then do
        let values ← evalArgs fns enter args
        Run.ofExcept (enter d values)
      else Run.fail (.arityMismatch f d.arity args.length)

/-- The run of the arguments of a call. -/
def evalArgs (fns : FunctionTable) (enter : Definition → List Int64 → Except (Stop Rejection) Int64) :
    List Expr → Run Scope Rejection (List Int64)
  | [] => pure []
  | e :: es => do
    let v ← eval fns enter e
    let vs ← evalArgs fns enter es
    return v :: vs

end

section Call

variable {fns : FunctionTable} {enter : Definition → List Int64 → Except (Stop Rejection) Int64}
  {f : String} {args : List Expr}

/-- A call finds its function, which takes as many arguments, or it is refused before anything in it is
evaluated. -/
theorem eval_call_cases (fns : FunctionTable) (f : String) (args : List Expr) :
    (∃ d, fns.find? f = some d ∧ args.length = d.arity) ∨
      ∃ reason, ∀ enter, (call f args).eval fns enter = Run.fail reason := by
  cases found : fns.find? f with
  | none =>
    refine .inr ⟨.undefinedFunction f, fun enter => ?_⟩
    rw [eval, found]
  | some d =>
    cases decEq args.length d.arity with
    | isTrue fits => exact .inl ⟨d, rfl, fits⟩
    | isFalse misfit =>
      refine .inr ⟨.arityMismatch f d.arity args.length, fun enter => ?_⟩
      simp only [eval, found, if_neg misfit]

/-- A call that fits evaluates its arguments and enters the function with them. -/
theorem eval_call {d : Definition} (found : fns.find? f = some d) (fits : args.length = d.arity) :
    (call f args).eval fns enter = (do
      let values ← evalArgs fns enter args
      Run.ofExcept (enter d values)) := by
  simp only [eval, found, if_pos fits]

end Call

end Expr

/-- The result of a call with the given arguments, in which calls nest at most `depth` deep. -/
def Definition.call (fns : FunctionTable) :
    Nat → Definition → List Int64 → Except (Stop Rejection) Int64
  | 0, _, _ => .error .exhausted
  | depth + 1, d, args =>
    (d.body.eval fns (Definition.call fns depth) (Scope.ofArguments d.params args)).1

/-- The run of an expression in which calls nest at most `depth` deep. -/
def Expr.run (fns : FunctionTable) (depth : Nat) (e : Expr) : Run Scope Rejection Int64 :=
  e.eval fns (Definition.call fns depth)

end Reckon
