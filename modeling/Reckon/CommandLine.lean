import Reckon.CommandLine.Terminal
import Reckon.Demo

/-!
# Command line

The program run with arguments, as a function of what it is given: it runs a script from a file or from
its input, the demonstration, or a dialogue that reads a line at a time. A failure ends it with a report
and the exit code 1, a trap with the exit code 101.
-/

namespace Reckon

open Text

/-- What the program leaves: its exit code and what it wrote. -/
structure Exit where
  code : UInt32
  out : String
  err : String

/-- What a run on a terminal leaves. A failure is reported; a trap is not. -/
def Exit.ofRun : Except (Stop Report) Unit × Terminal → Exit
  | (.ok (), t) => ⟨0, t.out, t.err⟩
  | (.error (.error r), t) => ⟨1, t.out, t.err ++ r.block⟩
  | (.error (.trap _), t) => ⟨101, t.out, t.err⟩
  | (.error .exhausted, t) => ⟨134, t.out, t.err⟩

/-- Where the program takes its lines from. -/
inductive Source where
  | demo
  | file (path : String)
  | standardInput
  | dialogue
  deriving DecidableEq

namespace CommandLine

/-- The options and the engine that arguments ask for. -/
def prepare (args : List String) : Except UsageError (Options × Engine) :=
  match Options.default.read args with
  | .error e => .error e
  | .ok o =>
    match Engine.ofName? o.engineName with
    | none => .error (.unknownEngine o.engineName)
    | some engine => .ok (o, engine)

/-- The source of lines that the options ask for. -/
def source (o : Options) : Source :=
  if o.demo then .demo
  else match o.input with
    | none => .dialogue
    | some "-" => .standardInput
    | some path => .file path

/-- The bytes of a script as text. -/
def scriptText (bytes : Except InputError (List UInt8)) : Except InputError String :=
  match bytes with
  | .error e => .error e
  | .ok bytes =>
    match decode? bytes with
    | none => .error .notText
    | some s => .ok s

/-- Runs a script of which `name` says in reports where it was read. -/
def runScript (o : Options) (engine : Engine) (depth : Nat) (name : String)
    (bytes : Except InputError (List UInt8)) : Run Terminal Report Unit :=
  match scriptText bytes with
  | .error e => Run.fail ⟨"Reading " ++ name, some e.message⟩
  | .ok s => Terminal.runLines o engine depth 1 (lines s)

/-- What the program leaves when it is run with the given arguments, input and files. -/
def run (depth : Nat) (args : List String) (input : List UInt8)
    (file : String → Except InputError (List UInt8)) : Exit :=
  match prepare args with
  | .error e => ⟨1, "", (Report.mk e.message none).block⟩
  | .ok (o, engine) =>
    let task : Run Terminal Report Unit :=
      match source o with
      | .demo => Terminal.runDemo o engine depth Demo.lines
      | .file path => runScript o engine depth path (file path)
      | .standardInput => runScript o engine depth "stdin" (.ok input)
      | .dialogue => do
        Terminal.greet
        Terminal.converse o engine depth (inputLines input)
    Exit.ofRun (task .start)

end CommandLine

end Reckon
