import Reckon.CommandLine

/-!
# Program

The command line in the real world: it reads files and the standard input and writes what the
functions of `Reckon.CommandLine` say.
-/

namespace Reckon

open CommandLine

/-- What the system says of a file that it cannot read, by the number of its error, which the system
gives negated where the file cannot be opened. -/
def inputError : IO.Error → InputError
  | .noFileOrDirectory .. => .notFound
  | .permissionDenied .. => .noPermission
  | .inappropriateType _ code _ => if code = 21 then .isDirectory else .notDirectory
  | e@(.invalidArgument _ code _) => if code = -36 then .nameTooLong else .other (toString e)
  | e => .other (toString e)

/-- The bytes of a file. -/
def readFile (path : String) : IO (Except InputError (List UInt8)) := do
  try
    let bytes ← IO.FS.readBinFile path
    return .ok bytes.toList
  catch e => return .error (inputError e)

/-- The bytes of the next line of the standard input with its end, behind `before`, its start
backwards. -/
partial def readLine (input : IO.FS.Stream) (before : List UInt8) : IO (List UInt8) := do
  let bytes ← input.read 1
  match bytes.toList with
  | [] => return before.reverse
  | b :: _ => if b = 10 then return (b :: before).reverse else readLine input (b :: before)

/-- Writes what a terminal holds, and leaves it empty. -/
def flush (t : Terminal) : IO Terminal := do
  let out ← IO.getStdout
  out.putStr t.out
  out.flush
  IO.eprint t.err
  return { t with out := "", err := "" }

/-- Writes what an exit leaves. -/
def leave (x : Exit) : IO UInt32 := do
  IO.print x.out
  IO.eprint x.err
  return x.code

/-- Leads a dialogue, writing after each line. -/
partial def talk (o : Options) (engine : Engine) (input : IO.FS.Stream) (t : Terminal) :
    IO UInt32 := do
  match (Terminal.ask : Run Terminal Report Unit) t with
  | (.error e, t) => leave (Exit.ofRun (.error e, t))
  | (.ok (), t) =>
    let t ← flush t
    let line ← readLine input []
    if line.isEmpty then leave (Exit.ofRun (.ok (), t))
    else match Terminal.answer o engine ampleDepth (Text.decode? line) t with
      | (.ok true, t) =>
        let t ← flush t
        talk o engine input t
      | (.ok false, t) => leave (Exit.ofRun (.ok (), t))
      | (.error e, t) => leave (Exit.ofRun (.error e, t))

end Reckon

open Reckon in
/-- Runs the program with its arguments. -/
def main (args : List String) : IO UInt32 := do
  let input ← IO.getStdin
  match CommandLine.prepare args with
  | .error _ => leave (CommandLine.run ampleDepth args [] fun _ => .error .notFound)
  | .ok (o, engine) =>
    match CommandLine.source o with
    | .demo => leave (CommandLine.run ampleDepth args [] fun _ => .error .notFound)
    | .file path =>
      let bytes ← readFile path
      leave (CommandLine.run ampleDepth args [] fun _ => bytes)
    | .standardInput =>
      let bytes ← input.readBinToEnd
      leave (CommandLine.run ampleDepth args bytes.toList fun _ => .error .notFound)
    | .dialogue =>
      let greeted := (Terminal.greet : Run Terminal Report Unit) .start
      talk o engine input greeted.2
