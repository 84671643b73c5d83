import Reckon.CommandLine.Options
import Reckon.CommandLine.Report

/-!
# Terminal

A session together with what is written to the two outputs. A script stops at its first failing line. A
dialogue reports a failing line and goes on; a blank line ends it.
-/

namespace Reckon

open Text

/-- A session with what was written to the two outputs. -/
structure Terminal where
  session : Session
  out : String
  err : String

namespace Terminal

/-- A new session with nothing written. -/
def start : Terminal := ⟨.start, "", ""⟩

variable {ε : Type}

/-- Writes to the standard output. -/
def print (s : String) : Run Terminal ε Unit := modify fun t => { t with out := t.out ++ s }

/-- Writes to the error output. -/
def printError (s : String) : Run Terminal ε Unit := modify fun t => { t with err := t.err ++ s }

/-- Shows the tree that a line makes, and on the machine the program for it. Other lines show
nothing. -/
def trace (engine : Engine) (line : String) : Run Terminal ε Unit := do
  let t ← get
  match Statement.parse t.session.functions line with
  | .ok (.evaluate e) =>
    printError ("tree: " ++ e.text ++ "\n")
    match engine with
    | .interpreter => return ()
    | .vm =>
      let (program, globals) := compile t.session.functions e t.session.globals
      modify fun t => { t with session := { t.session with globals } }
      printError program.listing
  | _ => return ()

/-- Does what a line says, and writes what the options ask for besides. -/
def runLine (o : Options) (engine : Engine) (depth : Nat) (line : String) :
    Run Terminal LineError Outcome := do
  if o.trace then trace engine line
  let outcome ← (Session.execute engine depth line).within Terminal.session fun t session =>
    { t with session }
  match outcome with
  | .evaluated e => printError (String.join (e.diagnostics.toList.map fun d => d.message ++ "\n"))
  | _ => pure ()
  if o.vars && outcome.shown?.isSome then
    let t ← get
    printError (t.session.globals.text ++ "\n")
  return outcome

/-- Runs the lines of a script, the first of which has the given number. -/
def runLines (o : Options) (engine : Engine) (depth : Nat) :
    (number : Nat) → List String → Run Terminal Report Unit
  | _, [] => return ()
  | number, line :: rest => do
    let outcome ← (runLine o engine depth line).mapError fun e =>
      .ofScriptError ⟨number, trim line, e⟩
    match outcome.shown? with
    | some text => print (text ++ "\n")
    | none => pure ()
    runLines o engine depth (number + 1) rest

/-- Runs the lines of the demonstration, each with its value behind it. -/
def runDemo (o : Options) (engine : Engine) (depth : Nat) : List String → Run Terminal Report Unit
  | [] => return ()
  | line :: rest => do
    let outcome ← (runLine o engine depth line).mapError fun e => ⟨e.message, none⟩
    match outcome with
    | .nothing => pure ()
    | .evaluated e => print (line ++ ": " ++ decimal e.value ++ "\n")
    | outcome => print (outcome.text ++ "\n")
    runDemo o engine depth rest

/-- Starts a dialogue. -/
def greet : Run Terminal ε Unit := print "Use an empty line to quit.\n"

/-- Asks for the next line of a dialogue. -/
def ask : Run Terminal ε Unit := print "> "

/-- Takes the answer to `ask`, if it is text. The result says whether the dialogue goes on. -/
def answer (o : Options) (engine : Engine) (depth : Nat) : Option String → Run Terminal Report Bool
  | none => Run.fail ⟨"Reading stdin", some InputError.notText.message⟩
  | some line =>
    if (trim line).isEmpty then return false
    else do
      let outcome ← (runLine o engine depth line).attempt
      match outcome with
      | .ok outcome =>
        match outcome.shown? with
        | some text => print (text ++ "\n")
        | none => pure ()
      | .error e => printError ("Error: " ++ e.message ++ "\n")
      return true

/-- The part of a dialogue that takes the given lines. The end of the lines ends it. -/
def converse (o : Options) (engine : Engine) (depth : Nat) :
    List (Option String) → Run Terminal Report Unit
  | [] => ask
  | line :: rest => do
    ask
    if ← answer o engine depth line then converse o engine depth rest

end Terminal

end Reckon
