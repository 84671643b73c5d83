/-!
# Operators

The eleven operators that make a value from two values, on integers of 64 bits. Sums, differences and
products wrap around; quotients are truncated towards zero; comparisons yield 1 or 0. Only a zero
divisor has no value: it traps.

A `Symbol` is what may stand between two operands in a line: an operator or the sign of assignment.
-/

namespace Reckon

/-- A division without an answer. It ends the whole run. -/
inductive Trap where
  | divideByZero
  | remainderByZero
  deriving DecidableEq

/-- An operator that makes a value from two values. -/
inductive Operator where
  | add | sub | mul | div | rem
  | gt | lt | ge | le | eq | ne
  deriving DecidableEq

namespace Operator

/-- The written form of an operator. -/
def text : Operator → String
  | .add => "+"
  | .sub => "-"
  | .mul => "*"
  | .div => "/"
  | .rem => "%"
  | .gt => ">"
  | .lt => "<"
  | .ge => ">="
  | .le => "<="
  | .eq => "=="
  | .ne => "!="

/-- The value of a comparison. -/
def truth (p : Prop) [Decidable p] : Int64 := if p then 1 else 0

/-- The value of an operator on two integers. -/
def apply : Operator → Int64 → Int64 → Except Trap Int64
  | .add, l, r => .ok (l + r)
  | .sub, l, r => .ok (l - r)
  | .mul, l, r => .ok (l * r)
  | .div, l, r => if r = 0 then .error .divideByZero else .ok (l / r)
  | .rem, l, r => if r = 0 then .error .remainderByZero else .ok (l % r)
  | .gt, l, r => .ok (truth (r < l))
  | .lt, l, r => .ok (truth (l < r))
  | .ge, l, r => .ok (truth (r ≤ l))
  | .le, l, r => .ok (truth (l ≤ r))
  | .eq, l, r => .ok (truth (l = r))
  | .ne, l, r => .ok (truth (l ≠ r))

end Operator

/-- What may stand between two operands: the sign of assignment or an operator. -/
inductive Symbol where
  | assign
  | value (op : Operator)
  deriving DecidableEq

namespace Symbol

/-- The written form of a symbol. -/
def text : Symbol → String
  | .assign => "="
  | .value op => op.text

/-- The value of a symbol on two integers. The sign of assignment needs a place to write to, so it
has none. -/
def eval? : Symbol → Int64 → Int64 → Option (Except Trap Int64)
  | .assign, _, _ => none
  | .value op, l, r => some (op.apply l r)

end Symbol

/-- A remark about a run whose value is still usable. -/
inductive Diagnostic where
  | unrecognized (symbol : Symbol)
  deriving DecidableEq

/-- The text of a remark. -/
def Diagnostic.message : Diagnostic → String
  | .unrecognized s => "Operation \"" ++ s.text ++ "\" not recognized."

/-- The value of a symbol on two integers, and the remarks with those made so far. A symbol without
a value yields 0 and adds a remark. -/
def Symbol.compute (s : Symbol) (l r : Int64) (remarks : Array Diagnostic) :
    Except Trap (Int64 × Array Diagnostic) :=
  match s.eval? l r with
  | some result => result.map (·, remarks)
  | none => .ok (0, remarks.push (.unrecognized s))

end Reckon
