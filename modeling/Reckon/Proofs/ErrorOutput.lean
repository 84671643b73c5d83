import Reckon.Proofs.Notes

/-!
# The error output

A run writes to the error output where it carries out a line, and where it reports an error. What happens
there (`CommandLine.events`) does not depend on the options: they only say which notes are written for it.

* `Terminal.err_runLines`, `Terminal.err_runDemo`, `Terminal.err_converse`: what lines write.
* `CommandLine.err_run`: what a run writes, event for event.
* `CommandLine.run_unflagged`: the flags for notes change nothing but the notes.
-/

namespace Reckon

open Run Text

/-- What a run writes to the error output for: a line that was carried out in a session, with what it led
to, or an error that is reported. -/
inductive Event where
  | line (text : String) (before : Session) (after : Except (Stop LineError) Outcome × Session)
  | report (r : Report)

namespace Event

/-- What the options ask to be written for an event. -/
def written (o : Options) (engine : Engine) : Event → String
  | .line text before after => o.notes engine text before after
  | .report r => r.block

/-- What is written for an event in any case. -/
def reported : Event → String
  | .line .. => ""
  | .report r => r.block

/-- Where no notes are asked for, only the reports are written. -/
lemma written_unnoted (o : Options) (engine : Engine) : written o.unnoted engine = reported := by
  funext event
  cases event <;> rfl

end Event

namespace Session

/-- What happens behind a line that led to this: what `failed` says if it failed, what `rest` says if it
has an outcome, and nothing if it trapped. -/
def behind (failed : LineError → Session → List Event) (rest : Session → List Event) :
    Except (Stop LineError) Outcome × Session → List Event
  | (.ok _, u) => rest u
  | (.error (.error e), u) => failed e u
  | (.error (.trap _), _) | (.error .exhausted, _) => []

/-- What happens when lines are carried out up to the first that stops. If that one fails, `report` says
how, with its number. -/
def events (engine : Engine) (depth : Nat) (report : Nat → String → LineError → Report) :
    (number : Nat) → Session → List String → List Event
  | _, _, [] => []
  | number, s, line :: rest =>
    .line line s (execute engine depth line s) ::
      behind (fun e _ => [.report (report number line e)])
        (fun u => events engine depth report (number + 1) u rest) (execute engine depth line s)

/-- What happens in a dialogue, which a blank line ends. A line that fails is reported, and the others
follow. -/
def dialogueEvents (engine : Engine) (depth : Nat) : Session → List (Option String) → List Event
  | _, [] => []
  | _, none :: _ => [.report ⟨"Reading stdin", some InputError.notText.message⟩]
  | s, some line :: rest =>
    if trim line = "" then []
    else .line line s (execute engine depth line s) ::
      behind (fun e u => .report ⟨e.message, none⟩ :: dialogueEvents engine depth u rest)
        (fun u => dialogueEvents engine depth u rest) (execute engine depth line s)

end Session

namespace Terminal

variable {o : Options} {engine : Engine} {depth : Nat}

/-- What a line writes, and what is written behind it unless it stops. -/
lemma err_line {line : String} {report : LineError → Report} {next : Outcome → Run Terminal Report Unit}
    {rest : Session → List Event} (s : Session) (out err : String)
    (others : ∀ outcome u out err, (Exit.ofRun (next outcome ⟨u, out, err⟩)).err =
      err ++ String.join ((rest u).map (Event.written o engine))) :
    (Exit.ofRun (((runLine o engine depth line).mapError report >>= next) ⟨s, out, err⟩)).err =
      err ++ String.join ((.line line s (Session.execute engine depth line s) ::
        Session.behind (fun e _ => [.report (report e)]) rest (Session.execute engine depth line s)).map
          (Event.written o engine)) := by
  rw [bind_apply, mapError_apply, runLine_apply, List.map_cons, String.join_cons, ← String.append_assoc,
    Event.written]
  rcases Session.execute engine depth line s with ⟨(e | _ | _) | outcome, u⟩
  · simp [Session.behind, Except.mapError, Stop.map, Exit.ofRun, Event.written]
  · exact String.append_empty.symm
  · exact String.append_empty.symm
  · exact others outcome u out _

/-- Lines of a script write the notes on them, and the report of the one that fails. -/
lemma err_runLines (lines : List String) (number : Nat) (s : Session) (out err : String) :
    (Exit.ofRun (runLines o engine depth number lines ⟨s, out, err⟩)).err =
      err ++ String.join ((Session.events engine depth
        (fun number line e => .ofScriptError ⟨number, trim line, e⟩) number s lines).map
          (Event.written o engine)) := by
  induction lines generalizing number s out err with
  | nil => exact String.append_empty.symm
  | cons line rest ih =>
    rw [runLines, Session.events]
    refine err_line s out err fun outcome u out err => ?_
    cases outcome.shown? with
    | none => exact ih (number + 1) u out err
    | some text => exact ih (number + 1) u (out ++ (text ++ "\n")) err

/-- Lines of the demonstration write the notes on them, and the report of the one that fails. -/
lemma err_runDemo (lines : List String) (number : Nat) (s : Session) (out err : String) :
    (Exit.ofRun (runDemo o engine depth lines ⟨s, out, err⟩)).err =
      err ++ String.join ((Session.events engine depth (fun _ _ e => ⟨e.message, none⟩) number s lines).map
        (Event.written o engine)) := by
  induction lines generalizing number s out err with
  | nil => exact String.append_empty.symm
  | cons line rest ih =>
    rw [runDemo, Session.events]
    refine err_line s out err fun outcome u out err => ?_
    cases outcome with
    | nothing => exact ih (number + 1) u out err
    | _ => exact ih (number + 1) u _ err

/-- A dialogue writes the notes on its lines, and behind each that fails its report. -/
lemma err_converse (lines : List (Option String)) (s : Session) (out err : String) :
    (Exit.ofRun (converse o engine depth lines ⟨s, out, err⟩)).err =
      err ++ String.join ((Session.dialogueEvents engine depth s lines).map (Event.written o engine)) := by
  induction lines generalizing s out err with
  | nil => exact String.append_empty.symm
  | cons line rest ih =>
    have asked : (ask ⟨s, out, err⟩ : Except (Stop Report) Unit × Terminal) =
        (.ok (), ⟨s, out ++ "> ", err⟩) := rfl
    rw [converse, bind_apply, asked]
    cases line with
    | none =>
      simp [Terminal.answer, Session.dialogueEvents, bind_apply, Exit.ofRun, Event.written]
    | some line =>
      rw [Session.dialogueEvents]
      by_cases blank : trim line = ""
      · have empty : (trim line).isEmpty = true := by simp [blank]
        simp only [bind_apply, Terminal.answer, if_pos empty, if_pos blank]
        exact String.append_empty.symm
      · have spoken : ¬(trim line).isEmpty = true := by simpa using blank
        simp only [bind_apply, Terminal.answer, if_neg spoken, if_neg blank, Run.attempt, runLine_apply,
          List.map_cons, String.join_cons, Event.written]
        rw [← String.append_assoc]
        rcases Session.execute engine depth line s with ⟨(e | _ | _) | outcome, u⟩
        · rw [Session.behind, List.map_cons, String.join_cons, Event.written, ← String.append_assoc]
          exact ih u _ _
        · exact String.append_empty.symm
        · exact String.append_empty.symm
        · cases shown : outcome.shown? with
          | none =>
            simp only [shown]
            exact ih u _ _
          | some text =>
            simp only [shown]
            exact ih u _ _

end Terminal

namespace CommandLine

open Terminal

/-- What happens when a script is read and run of which `name` says in reports where it was read. -/
def scriptEvents (engine : Engine) (depth : Nat) (name : String)
    (bytes : Except InputError (List UInt8)) : List Event :=
  match scriptText bytes with
  | .error e => [.report ⟨"Reading " ++ name, some e.message⟩]
  | .ok text => Session.events engine depth (fun number line e => .ofScriptError ⟨number, trim line, e⟩)
      1 .start (lines text)

/-- What happens when the lines of a source are run. -/
def events (engine : Engine) (depth : Nat) (input : List UInt8)
    (file : String → Except InputError (List UInt8)) : Source → List Event
  | .demo => Session.events engine depth (fun _ _ e => ⟨e.message, none⟩) 1 .start Demo.lines
  | .file path => scriptEvents engine depth path (file path)
  | .standardInput => scriptEvents engine depth "stdin" (.ok input)
  | .dialogue => Session.dialogueEvents engine depth .start (inputLines input)

variable {depth : Nat} {args : List String} {o : Options} {engine : Engine} {input : List UInt8}
  {file : String → Except InputError (List UInt8)}

/-- A script writes to the error output what the options ask for, event for event. -/
lemma err_runScript (name : String) (bytes : Except InputError (List UInt8)) :
    (Exit.ofRun (runScript o engine depth name bytes .start)).err =
      String.join ((scriptEvents engine depth name bytes).map (Event.written o engine)) := by
  rw [runScript, scriptEvents]
  cases scriptText bytes with
  | error e => simp [Exit.ofRun, start, Event.written]
  | ok text =>
    exact (err_runLines (lines text) 1 .start "" "").trans String.empty_append

/-- A run writes to the error output what the options ask for, event for event. -/
lemma err_run (prepared : prepare args = .ok (o, engine)) :
    (run depth args input file).err =
      String.join ((events engine depth input file (source o)).map (Event.written o engine)) := by
  rw [run, prepared]
  simp only
  cases source o with
  | demo => exact (err_runDemo Demo.lines 1 .start "" "").trans String.empty_append
  | file path => exact err_runScript path (file path)
  | standardInput => exact err_runScript "stdin" (.ok input)
  | dialogue =>
    exact (err_converse (inputLines input) .start "Use an empty line to quit.\n" "").trans
      String.empty_append

/-- Without the flags for notes, only the reports of errors are written. -/
lemma err_run_unflagged (prepared : prepare args = .ok (o, engine)) :
    (run depth (unflagged args) input file).err =
      String.join ((events engine depth input file (source o)).map Event.reported) := by
  have plain : prepare (unflagged args) = .ok (o.unnoted, engine) := by
    rw [prepare_unflagged, prepared]
    rfl
  have same : source o.unnoted = source o := rfl
  rw [err_run plain, Event.written_unnoted, same]

/-- The flags for notes change nothing but the notes. Without them, arguments ask for the same, and the
run has the same exit code, writes the same to the standard output and reports the same errors. On the
error output of the run with them, the same lines are carried out and the same errors are reported, and
what is written of a line are the notes on it. A line with a trace is traced first and then carried out,
in a session in which it does the same. A trace notes a tree exactly for a line that makes an expression
once it is trimmed, which is neither blank nor a comment or a command. The tree is that of the expression
which the line then evaluates, and the program noted on the machine is the one that the machine then
compiles and runs. -/
theorem run_unflagged :
    (∀ args, prepare (unflagged args) =
      (prepare args).map fun (o, engine) => ({ o with vars := false, trace := false }, engine)) ∧
    (∀ depth args input file,
      let full := run depth args input file
      let plain := run depth (unflagged args) input file
      full.code = plain.code ∧ full.out = plain.out ∧ Annotated plain.err full.err ∧
      ∀ o engine, prepare args = .ok (o, engine) →
        let happened := events engine depth input file (source o)
        full.err = String.join (happened.map (Event.written o engine)) ∧
          plain.err = String.join (happened.map Event.reported)) ∧
    ∀ (engine : Engine) (line : String) (t : Terminal), ∃ session,
      let note := t.session.lineNote engine line
      (trace engine line t : Except (Stop LineError) Unit × Terminal) =
        (.ok (), ⟨session, t.out, t.err ++ note⟩) ∧
      (∀ o depth,
        let after := Session.execute engine depth line t.session
        Session.execute engine depth line session = after ∧
        runLine { o with trace := true } engine depth line t =
          runLine { o with trace := false } engine depth line ⟨session, t.out, t.err ++ note⟩ ∧
        runLine o engine depth line t =
          (after.1, ⟨after.2, t.out, t.err ++ o.notes engine line t.session after⟩)) ∧
      session.functions = t.session.functions ∧
      (note ≠ "" ↔ ∃ e, Statement.parse t.session.functions (trim line) = .ok (.evaluate e)) ∧
      ∀ e, Statement.parse t.session.functions (trim line) = .ok (.evaluate e) →
        (∃ c, (trim line).toList.head? = some c ∧ c ≠ '#' ∧ c ≠ ':') ∧
        (∀ depth, Session.execute engine depth line session =
          Session.perform engine depth (.evaluate e) session) ∧
        match engine with
        | .interpreter => note = "tree: " ++ e.text ++ "\n"
        | .vm => ∃ p, note = "tree: " ++ e.text ++ "\n" ++ p.listing ∧
          compile t.session.functions e session.globals = (p, session.globals) ∧
          ∀ depth, Session.perform .vm depth (.evaluate e) session =
            (Outcome.evaluated <$> Session.onGlobals
              ((p.evaluate depth).mapError fun fault => .failed (.faulted fault))) session := by
  refine ⟨prepare_unflagged, fun depth args input file => ?_, fun engine line t => ?_⟩
  · obtain ⟨code, out, err⟩ := exit_unflagged depth args input file
    exact ⟨code, out, err, fun o engine prepared => ⟨err_run prepared, err_run_unflagged prepared⟩⟩
  obtain ⟨session, traced, functions, same⟩ := trace_apply engine line t
  refine ⟨session, traced, fun o depth => ⟨same depth, ?_, runLine_apply o engine depth line t⟩,
    functions, Session.lineNote_ne_empty_iff, fun e trimmed => ?_⟩
  · rw [runLine_of_trace, traced]
  · have made := Statement.parse_trim.1 trimmed
    have left : session = t.session.traced engine e :=
      congrArg (fun r : Except (Stop LineError) Unit × Terminal => r.2.session)
        (traced.symm.trans (trace_of_parse made))
    refine ⟨Statement.head?_trim_of_parse made,
      fun depth => Session.execute_of_parse (functions ▸ made), ?_⟩
    rw [Session.lineNote_of_parse made]
    subst left
    cases engine with
    | interpreter => exact String.append_empty
    | vm =>
      have again := compile_twice t.session.functions e t.session.globals
      exact ⟨_, rfl, again, fun depth => Session.perform_vm_of_compile again depth⟩

/-- The flags for notes before and behind an engine. A script of an expression and a line that fails is
noted with the tree of the first and the variables behind it, and the second is reported, as it is without
the flags. In a session with a function, a line with blanks around it is noted with the program that it
runs. -/
theorem run_unflagged_script :
    let e : Expr := .binary .add (.lit 1) (.call "f" [.var "x"])
    let fns : FunctionTable := Catalogue.empty.insert ⟨"f", ["a"], .binary .mul (.var "a") (.lit 2)⟩
    let t : Terminal := ⟨⟨.empty, fns⟩, "", ""⟩
    let input := encode " 1\n!"
    let file := fun (_ : String) => (.error .notFound : Except InputError (List UInt8))
    let refused := "Error: Line 2: !\n\nCaused by:\n    Unexpected character '!' at position 0\n"
    unflagged ["--trace", "-b", "vm", "--vars", "-"] = ["-b", "vm", "-"] ∧
      prepare ["--trace", "--vars", "-"] =
        .ok (⟨"interpreter", true, true, false, some "-"⟩, .interpreter) ∧
      (run 1 ["--trace", "--vars", "-"] input file).err = "tree: 1\n\x7b \x7d\n" ++ refused ∧
      (run 1 ["-"] input file).err = refused ∧
      Statement.parse fns (trim " 1+f(x)\r") = .ok (.evaluate e) ∧
      ∃ session p,
        (trace .vm " 1+f(x)\r" t : Except (Stop LineError) Unit × Terminal) =
          (.ok (), ⟨session, "", "tree: 1 f((x)) +\n" ++ p.listing⟩) ∧
        session.functions = fns ∧ compile fns e session.globals = (p, session.globals) := by
  intro e fns t input file refused
  obtain ⟨-, runs, lines⟩ := run_unflagged
  have prepared : prepare ["--trace", "--vars", "-"] =
      .ok (⟨"interpreter", true, true, false, some "-"⟩, .interpreter) := rfl
  have plain : unflagged ["--trace", "--vars", "-"] = ["-"] := by decide
  obtain ⟨-, -, -, happens⟩ := runs 1 ["--trace", "--vars", "-"] input file
  obtain ⟨full, reported⟩ := happens _ _ prepared
  have number : tokenize " 1" = .ok [⟨.integer 1, ⟨1, 2⟩⟩, ⟨.eof, ⟨2, 2⟩⟩] := by decide +kernel
  have one : Statement.parse Session.start.functions " 1" = .ok (.evaluate (.lit 1)) := by
    rw [Statement.parse, number]
    cbv
  have first : Session.execute .interpreter 1 " 1" .start = (.ok (.evaluated ⟨1, #[]⟩), .start) := by
    rw [Session.execute_of_parse one]
    rfl
  have bang : trim "!" = "!" := by decide +kernel
  have unread : tokenize "!" = .error (.unexpectedCharacter '!' 0) := by decide +kernel
  have second : Session.execute .interpreter 1 "!" .start =
      (.error (.error (.malformed (.lexical (.unexpectedCharacter '!' 0)))), .start) := by
    simp [Session.execute, Run.bind_apply, bang, Statement.parse, unread]
  have lit : Session.lineNote .interpreter " 1" .start = "tree: 1\n" := by
    rw [Session.lineNote_of_parse one]
    decide +kernel
  have happened : events .interpreter 1 input file (source ⟨"interpreter", true, true, false, some "-"⟩) =
      [.line " 1" .start (.ok (.evaluated ⟨1, #[]⟩), .start),
        .line "!" .start (.error (.error (.malformed (.lexical (.unexpectedCharacter '!' 0)))), .start),
        .report (.ofScriptError ⟨2, "!", .malformed (.lexical (.unexpectedCharacter '!' 0))⟩)] := by
    have cut : Text.lines " 1\n!" = [" 1", "!"] := by decide +kernel
    simp [events, source, scriptEvents, scriptText, input, decode?_encode, cut, Session.events, first,
      second, Session.behind, bang]
  have trimmed : trim " 1+f(x)\r" = "1+f(x)" := by decide +kernel
  have lexed : tokenize "1+f(x)" = .ok [⟨.integer 1, ⟨0, 1⟩⟩, ⟨.symbol (.value .add), ⟨1, 2⟩⟩,
      ⟨.identifier "f", ⟨2, 3⟩⟩, ⟨.lparen, ⟨3, 4⟩⟩, ⟨.identifier "x", ⟨4, 5⟩⟩, ⟨.rparen, ⟨5, 6⟩⟩,
      ⟨.eof, ⟨6, 6⟩⟩] := by decide +kernel
  have made : Statement.parse fns (trim " 1+f(x)\r") = .ok (.evaluate e) := by
    rw [trimmed, Statement.parse, lexed]
    cbv
  have tree : "tree: " ++ e.text ++ "\n" = "tree: 1 f((x)) +\n" := by decide +kernel
  obtain ⟨session, traced, -, functions, -, noted⟩ := lines .vm " 1+f(x)\r" t
  obtain ⟨-, -, p, listed, compiled, -⟩ := noted e made
  refine ⟨by decide, prepared, ?_, ?_, made, session, p, ?_, functions, compiled⟩
  · rw [full, happened]
    simp only [List.map_cons, List.map_nil, Event.written, Options.notes, if_true, lit]
    decide +kernel
  · rw [← plain, reported, happened]
    decide +kernel
  · rw [traced, listed, tree, String.empty_append]

end CommandLine

end Reckon
