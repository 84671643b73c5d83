import Reckon.Function

/-!
# Statements

What one line says: a function is defined, or an expression is to be evaluated.
-/

namespace Reckon

/-- The meaning of one line. -/
inductive Statement where
  | define (d : Definition)
  | evaluate (e : Expr)

end Reckon
