import Reckon.Expr.Eval
import Reckon.Program.Compile
import Reckon.Program.Machine

/-!
# Engines

Two ways to evaluate an expression in a session: to walk the tree, or to compile it and run the
program. They work on the same scope and the same functions.
-/

namespace Reckon

/-- A way to evaluate expressions. -/
inductive Engine where
  | interpreter
  | vm
  deriving DecidableEq

namespace Engine

/-- The name of an engine. -/
def name : Engine → String
  | .interpreter => "interpreter"
  | .vm => "vm"

/-- The engine of this name. -/
def ofName? (n : String) : Option Engine := [interpreter, vm].find? (·.name == n)

end Engine

/-- A depth of calls that no run has the memory for. -/
def ampleDepth : Nat := Nat.pow 2 62

/-- A value, with the remarks made on the way to it. -/
structure Evaluation where
  value : Int64
  diagnostics : Array Diagnostic

/-- Why an evaluation has no value: the tree was rejected, or the machine met a fault. -/
inductive EvalError where
  | rejected (reason : Rejection)
  | faulted (fault : Fault)
  deriving DecidableEq

/-- The report of a failed evaluation. -/
def EvalError.message : EvalError → String
  | .rejected reason => reason.message
  | .faulted fault => fault.message

/-- The value of a finished program: the last one it printed. -/
def Execution.value? (x : Execution) : Option Int64 := x.output.back?

/-- The run of an expression on the machine: it is compiled against the scope and executed there. -/
def Expr.compileAndRun (fns : FunctionTable) (depth : Nat) (e : Expr) : Run Scope Fault Evaluation := do
  let scope ← get
  let (program, scope) := compile fns e scope
  set scope
  let execution ← program.run depth
  match execution.value? with
  | some v => return ⟨v, execution.diagnostics⟩
  | none => Run.fail .noOutput

/-- The run of an expression on an engine, in which calls nest at most `depth` deep. -/
def Engine.evaluate (fns : FunctionTable) (depth : Nat) (e : Expr) :
    Engine → Run Scope EvalError Evaluation
  | .interpreter => Run.mapError .rejected do
    let v ← e.run fns depth
    return ⟨v, #[]⟩
  | .vm => Run.mapError .faulted (e.compileAndRun fns depth)

end Reckon
