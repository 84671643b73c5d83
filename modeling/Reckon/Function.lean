import Reckon.Catalogue
import Reckon.Expr

/-!
# Functions

The functions that a session has defined. A definition replaces the one that had its name.
-/

namespace Reckon

/-- A function: its name, the names of its parameters, and its body. -/
structure Definition where
  name : String
  params : List String
  body : Expr

namespace Definition

/-- Number of arguments a call has to give. -/
def arity (d : Definition) : Nat := d.params.length

/-- The head of a definition, as in `add(a,b)`. -/
def signature (d : Definition) : String := d.name ++ "(" ++ ",".intercalate d.params ++ ")"

end Definition

/-- The functions defined so far, in increasing order of their names. -/
abbrev FunctionTable := Catalogue Definition.name

namespace FunctionTable

/-- Registers a definition. The result holds the definition it replaced, if any. -/
def define (d : Definition) (fns : FunctionTable) : Option Definition × FunctionTable :=
  (fns.find? d.name, fns.insert d)

end FunctionTable

end Reckon
