/-!
# Rejections

What an expression can ask for that no engine does. A rejection arises when a run reaches such a
place, not before.
-/

namespace Reckon

/-- Why a run refused to go on. -/
inductive Rejection where
  /-- The target of an assignment, shown here in postfix form, is not a variable. -/
  | invalidTarget (target : String)
  /-- The function of a call is not defined. -/
  | undefinedFunction (name : String)
  /-- A call gives another number of arguments than its function has parameters. -/
  | arityMismatch (name : String) (expected found : Nat)
  deriving DecidableEq

/-- The report of a rejection. -/
def Rejection.message : Rejection → String
  | .invalidTarget target =>
    "Cannot assign to '" ++ target ++ "': left side of '=' must be a variable"
  | .undefinedFunction name => "Undefined function '" ++ name ++ "'"
  | .arityMismatch name expected found =>
    "Function '" ++ name ++ "' expected " ++ expected.repr ++ " arguments, got " ++ found.repr

end Reckon
