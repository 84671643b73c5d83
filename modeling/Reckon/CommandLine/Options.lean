/-!
# Options

The arguments of the program. They are read from left to right; a later one that says the same thing
again wins, and the first that says nothing known is refused.
-/

namespace Reckon

/-- What the arguments ask for. -/
structure Options where
  engineName : String
  vars : Bool
  trace : Bool
  demo : Bool
  input : Option String

/-- Why arguments are refused. -/
inductive UsageError where
  | missingEngine (flag : String)
  | unknownOption (flag : String)
  | secondInput
  | unknownEngine (name : String)
  deriving DecidableEq

/-- The report of refused arguments. -/
def UsageError.message : UsageError → String
  | .missingEngine flag => "Missing backend name after " ++ flag
  | .unknownOption flag => "Unknown option '" ++ flag ++ "'"
  | .secondInput => "Only one input file is supported"
  | .unknownEngine name => "Unknown backend '" ++ name ++ "'"

namespace Options

/-- What no arguments ask for. -/
def default : Options := ⟨"interpreter", false, false, false, none⟩

/-- Reads arguments from left to right, on top of those read before. -/
def read (o : Options) : List String → Except UsageError Options
  | [] => .ok o
  | "--backend" :: rest => readEngine "--backend" rest
  | "-b" :: rest => readEngine "-b" rest
  | "--vars" :: rest => read { o with vars := true } rest
  | "--trace" :: rest => read { o with trace := true } rest
  | "--demo" :: rest => read { o with demo := true } rest
  | arg :: rest =>
    if ['-', '-'].isPrefixOf arg.toList then .error (.unknownOption arg)
    else if o.input.isSome then .error .secondInput
    else read { o with input := some arg } rest
where
  /-- Reads the name of an engine behind `flag`, then the other arguments. -/
  readEngine (flag : String) : List String → Except UsageError Options
    | [] => .error (.missingEngine flag)
    | name :: rest => read { o with engineName := name } rest

end Options

end Reckon
