import Reckon.Session

/-!
# Reports

What the program says when it cannot go on: a message and, if there is one, its cause.
-/

namespace Reckon

/-- A failure that ends the program, with its cause. -/
structure Report where
  message : String
  cause? : Option String

namespace Report

/-- A report on several lines. -/
def block (r : Report) : String :=
  match r.cause? with
  | none => "Error: " ++ r.message ++ "\n"
  | some cause => "Error: " ++ r.message ++ "\n\nCaused by:\n    " ++ cause ++ "\n"

/-- The report of a script error. -/
def ofScriptError (e : ScriptError) : Report := ⟨e.context, some e.cause.message⟩

end Report

/-- A reading failure of the outside world. -/
inductive InputError where
  | notFound
  | noPermission
  | isDirectory
  | notDirectory
  | nameTooLong
  | notText
  | other (message : String)

/-- The report of a reading failure. -/
def InputError.message : InputError → String
  | .notFound => "No such file or directory (os error 2)"
  | .noPermission => "Permission denied (os error 13)"
  | .isDirectory => "Is a directory (os error 21)"
  | .notDirectory => "Not a directory (os error 20)"
  | .nameTooLong => "File name too long (os error 36)"
  | .notText => "stream did not contain valid UTF-8"
  | .other message => message

end Reckon
