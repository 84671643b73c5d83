import Reckon.Engine
import Reckon.Statement.Parser
import Reckon.Text.Lines

/-!
# Sessions

A session takes one line at a time: a command, a definition or an expression. A definition is there
from the next line on. Each line may be evaluated on another engine.
-/

namespace Reckon

open Text

/-- The variables and functions of a session. -/
structure Session where
  globals : Scope
  functions : FunctionTable

/-- What a line led to. -/
inductive Outcome where
  /-- The line is blank or a comment. -/
  | nothing
  /-- A function with this head was defined. -/
  | defined (signature : String)
  | evaluated (e : Evaluation)
  /-- A command showed this text. -/
  | dump (text : String)

/-- The text of an outcome. -/
def Outcome.text : Outcome → String
  | .nothing => ""
  | .defined signature => "defined " ++ signature
  | .evaluated e => decimal e.value
  | .dump text => text

/-- The text of an outcome that is to be shown. -/
def Outcome.shown? : Outcome → Option String
  | .nothing => none
  | o => some o.text

/-- Why a line failed. -/
inductive LineError where
  | malformed (e : SyntaxError)
  | failed (e : EvalError)
  deriving DecidableEq

/-- The report of a line that failed. -/
def LineError.message : LineError → String
  | .malformed e => e.message
  | .failed e => e.message

/-- The line of a script that failed, without the blanks around it, and why. -/
structure ScriptError where
  number : Nat
  line : String
  cause : LineError
  deriving DecidableEq

/-- The place of a script error. -/
def ScriptError.context (e : ScriptError) : String :=
  "Line " ++ e.number.repr ++ ": " ++ e.line

namespace Session

/-- The session in which nothing has happened. -/
def start : Session := ⟨.empty, .empty⟩

/-- The definitions as shown to the user, one on a line. -/
def showFunctions (s : Session) : String :=
  "\n".intercalate (s.functions.entries.map fun d => d.signature ++ " = " ++ d.body.text)

/-- Runs an evaluation on the variables of the session. -/
def onGlobals {ε α : Type} (m : Run Scope ε α) : Run Session ε α :=
  m.within Session.globals fun s globals => { s with globals }

/-- Does what a statement says. -/
def perform (engine : Engine) (depth : Nat) : Statement → Run Session LineError Outcome
  | .define d => do
    modify fun s => { s with functions := s.functions.insert d }
    return .defined d.signature
  | .evaluate e => do
    let s ← get
    let result ← onGlobals ((engine.evaluate s.functions depth e).mapError .failed)
    return .evaluated result

/-- Does what a line says, in which calls nest at most `depth` deep. -/
def execute (engine : Engine) (depth : Nat) (line : String) : Run Session LineError Outcome := do
  let line := trim line
  let s ← get
  if line.toList.head?.all (· == '#') then return .nothing
  else if line = ":vars" then return .dump s.globals.text
  else if line = ":functions" then return .dump s.showFunctions
  else match Statement.parse s.functions line with
    | .error e => Run.fail (.malformed e)
    | .ok statement => perform engine depth statement

/-- Does what the lines say, the first of which has the given number, and collects what is to be shown.
The first line that fails ends it. -/
def executeAll (engine : Engine) (depth : Nat) :
    (number : Nat) → List String → Run Session ScriptError (List String)
  | _, [] => return []
  | number, line :: rest => do
    let outcome ← (execute engine depth line).mapError (⟨number, trim line, ·⟩)
    let others ← executeAll engine depth (number + 1) rest
    return outcome.shown?.toList ++ others

/-- Does what the lines of a script say. The result is what they show, joined by newlines. -/
def runScript (engine : Engine) (depth : Nat) (source : String) : Run Session ScriptError String := do
  let shown ← executeAll engine depth 1 (lines source)
  return "\n".intercalate shown

end Session

end Reckon
