import Reckon.Proofs.Notes
import Reckon.Proofs.Scripts

/-!
# Scripts on a terminal

A script that the program reads from a file or from its input is carried out as in a session. Where a
session collects what is to be shown, the terminal prints it line by line, so what was shown before a
line that stops is there as well (`CommandLine.run_script`).

* `Terminal.runLines_of_succeeds`, `Terminal.runLines_of_stopsAt`: what lines leave on a terminal.
* `CommandLine.run_of_reads`: what the program does with the text that it reads.
-/

namespace Reckon

open Run Text
open Session (shownTexts Succeeds StopsAt after)

/-- Texts, each on a line of its own. -/
def printed (texts : List String) : String := String.join (texts.map (· ++ "\n"))

/-- Where there are no texts, nothing is printed. -/
lemma printed_nil : printed [] = "" := rfl

/-- A text is printed with a newline behind it. -/
lemma printed_singleton (text : String) : printed [text] = text ++ "\n" := String.empty_append

/-- Texts are printed one after the other. -/
lemma printed_append (xs ys : List String) : printed (xs ++ ys) = printed xs ++ printed ys := by
  rw [printed, List.map_append, String.join_append, printed, printed]

/-- Lines that are printed one by one are printed as a text, if there are any. -/
lemma printed_eq_intercalate {texts : List String} (some : texts ≠ []) :
    printed texts = "\n".intercalate texts ++ "\n" := by
  induction texts with
  | nil => exact absurd rfl some
  | cons x xs ih =>
    rw [printed, List.map_cons, String.join_cons]
    cases xs with
    | nil => rw [List.map_nil, String.join_nil, String.append_empty, String.intercalate_singleton]
    | cons y ys =>
      rw [← printed, ih nofun, String.intercalate_cons_cons]
      simp only [String.append_assoc]

/-- A script prints what it shows, and a newline behind it unless it shows nothing. -/
lemma printed_shownTexts (engine : Engine) (depth : Nat) (s : Session) (source : String) :
    printed (shownTexts engine depth s (lines source)) =
      if Session.speaks engine depth s source then
        "\n".intercalate (shownTexts engine depth s (lines source)) ++ "\n"
      else "" := by
  rw [Session.speaks_eq]
  cases shown : shownTexts engine depth s (lines source) with
  | nil => rfl
  | cons x xs => exact printed_eq_intercalate nofun

namespace Terminal

/-- What the options ask to be noted on lines that are carried out one after the other. -/
def notesOn (o : Options) (engine : Engine) (depth : Nat) (s : Session) : List String → String
  | [] => ""
  | line :: rest =>
    o.notes engine line s (Session.execute engine depth line s) ++
      notesOn o engine depth (Session.execute engine depth line s).2 rest

section Lines

variable {o : Options} {engine : Engine} {depth : Nat} {line : String} {lines earlier rest : List String}
  {s u : Session} {out err : String} {stop : Stop LineError} {outcome : Outcome}

/-- The notes on lines are those on the first and those on the others. -/
lemma notesOn_cons {answer : Except (Stop LineError) Outcome}
    (ran : Session.execute engine depth line s = (answer, u)) :
    notesOn o engine depth s (line :: rest) =
      o.notes engine line s (answer, u) ++ notesOn o engine depth u rest := by
  rw [notesOn, ran]

/-- Nothing is noted unless it is asked for. -/
lemma notesOn_of_quiet (trace : o.trace = false) (vars : o.vars = false) (s : Session)
    (lines : List String) : notesOn o engine depth s lines = "" := by
  induction lines generalizing s with
  | nil => rfl
  | cons line rest ih =>
    rcases ran : Session.execute engine depth line s with ⟨answer, u⟩
    rw [notesOn_cons ran, ih, Options.notes, trace, vars]
    rfl

/-- A line with an outcome is shown, and the other lines follow. -/
lemma runLines_cons_of_ok (ran : Session.execute engine depth line s = (.ok outcome, u))
    (number : Nat) :
    runLines o engine depth number (line :: rest) ⟨s, out, err⟩ =
      runLines o engine depth (number + 1) rest
        ⟨u, out ++ printed outcome.shown?.toList, err ++ o.notes engine line s (.ok outcome, u)⟩ := by
  rw [runLines, bind_apply, mapError_apply, runLine_apply, ran]
  simp only [Except.mapError]
  cases outcome.shown? with
  | none => rw [Option.toList_none, printed_nil, String.append_empty]
  | some text =>
    rw [Option.toList_some, printed_singleton]
    rfl

/-- A line that stops is the last one. -/
lemma runLines_cons_of_error (ran : Session.execute engine depth line s = (.error stop, u))
    (number : Nat) :
    runLines o engine depth number (line :: rest) ⟨s, out, err⟩ =
      (.error (stop.map fun e => .ofScriptError ⟨number, trim line, e⟩),
        ⟨u, out, err ++ o.notes engine line s (.error stop, u)⟩) := by
  rw [runLines, bind_apply, mapError_apply, runLine_apply, ran]
  rfl

/-- Lines with outcomes are shown one after the other. -/
lemma runLines_of_succeeds (succeeds : Succeeds engine depth s lines) (number : Nat)
    (out err : String) :
    runLines o engine depth number lines ⟨s, out, err⟩ =
      (.ok (), ⟨after engine depth s lines, out ++ printed (shownTexts engine depth s lines),
        err ++ notesOn o engine depth s lines⟩) := by
  induction lines generalizing s number out err with
  | nil =>
    have nothing : shownTexts engine depth s [] = [] := rfl
    rw [nothing, printed_nil, notesOn, String.append_empty, String.append_empty]
    rfl
  | cons line rest ih =>
    obtain ⟨outcome, u, ran, others⟩ := Session.succeeds_cons.1 succeeds
    rw [runLines_cons_of_ok ran, ih others, notesOn_cons ran, Session.after_cons ran,
      Session.shownTexts_cons ran, printed_append, String.append_assoc, String.append_assoc]

/-- Lines with one that stops are shown up to there, and its error is reported with its number. -/
lemma runLines_of_stopsAt (stops : StopsAt engine depth s lines earlier line stop u)
    (number : Nat) (out err : String) :
    runLines o engine depth number lines ⟨s, out, err⟩ =
      (.error (stop.map fun e => .ofScriptError ⟨number + earlier.length, trim line, e⟩),
        ⟨u, out ++ printed (shownTexts engine depth s earlier),
          err ++ notesOn o engine depth s (earlier ++ [line])⟩) := by
  obtain ⟨⟨behind, rfl⟩, succeeds, stops⟩ := stops
  induction earlier generalizing s number out err with
  | nil =>
    have ran : Session.execute engine depth line s = (.error stop, u) := stops
    have nothing : shownTexts engine depth s [] = [] := rfl
    rw [List.nil_append, List.singleton_append, runLines_cons_of_error ran, notesOn_cons ran, notesOn,
      nothing, printed_nil, String.append_empty, String.append_empty]
    rfl
  | cons first rest ih =>
    obtain ⟨outcome, mid, ran, others⟩ := Session.succeeds_cons.1 succeeds
    rw [Session.after_cons ran] at stops
    have count : number + (first :: rest).length = number + 1 + rest.length := by
      rw [List.length_cons]
      omega
    rw [List.cons_append, List.cons_append, runLines_cons_of_ok ran,
      ih (number + 1) _ _ others stops, notesOn_cons ran, Session.shownTexts_cons ran, printed_append,
      count, String.append_assoc, String.append_assoc]

end Lines

end Terminal

namespace CommandLine

/-- The text is what the options ask to be run as a script. It stands in the standard input or in a
file. -/
inductive Reads (o : Options) (input : List UInt8) (file : String → Except InputError (List UInt8))
    (text : String) : Prop where
  | standardInput : source o = .standardInput → input = encode text → Reads o input file text
  | file {path : String} : source o = .file path → file path = .ok (encode text) →
    Reads o input file text

section Script

variable {depth : Nat} {args : List String} {o : Options} {engine : Engine} {input : List UInt8}
  {file : String → Except InputError (List UInt8)} {text : String}

/-- A script that was read is run line by line. -/
lemma runScript_encode (name : String) : runScript o engine depth name (.ok (encode text)) =
    Terminal.runLines o engine depth 1 (lines text) := by
  rw [runScript, scriptText]
  simp only [decode?_encode]

/-- A script is carried out on a new terminal. -/
lemma run_of_reads (prepared : prepare args = .ok (o, engine)) (reads : Reads o input file text) :
    run depth args input file =
      Exit.ofRun (Terminal.runLines o engine depth 1 (lines text) ⟨.start, "", ""⟩) := by
  rw [run, prepared]
  cases reads with
  | standardInput asked given =>
    subst given
    simp only [asked, runScript_encode]
    rfl
  | file asked given =>
    simp only [asked, given, runScript_encode]
    rfl

/-- The program carries out a script as a new session does. Where the session collects an outcome, the
program exits with the code 0 and prints it with a newline behind it, or nothing if no line has anything
to show. Where a line fails, the program exits with the code 1 and reports the error of the session, its
place and its cause, behind the notes that were asked for; where a line traps, it exits with the code 101.
Of a script that stops, the program has printed what the lines before the stopping one show, each on its
own line. It carries out no line behind that one: the exit is the same for every script that starts with
the same lines up to there, wherever it is read from. -/
theorem run_script (depth : Nat) (prepared : prepare args = .ok (o, engine))
    (reads : Reads o input file text) :
    let exit := run depth args input file
    let ran := Session.runScript engine depth text .start
    (∀ out, ran.1 = .ok out → exit.code = 0 ∧
      exit.out = if Session.speaks engine depth .start text then out ++ "\n" else "") ∧
    (∀ e, ran.1 = .error (.error e) → exit.code = 1 ∧ ∃ notes,
      exit.err = notes ++ ("Error: " ++ e.context ++ "\n\nCaused by:\n    " ++ e.cause.message ++ "\n") ∧
        (o.trace = false → o.vars = false → notes = "")) ∧
    (∀ trap, ran.1 = .error (.trap trap) → exit.code = 101) ∧
    ∀ stop, ran.1 = .error stop → ∃ earlier line why,
      StopsAt engine depth .start (lines text) earlier line why ran.2 ∧
      stop = why.map (⟨earlier.length + 1, trim line, ·⟩) ∧
      exit.out = printed (shownTexts engine depth .start earlier) ∧
      ∀ input' file' text', Reads o input' file' text' → earlier ++ [line] <+: lines text' →
        run depth args input' file' = exit := by
  intro exit ran
  have exit_eq : exit = _ := run_of_reads prepared reads
  rcases Session.runScript_cases (rfl : Session.executeAll engine depth 1 (lines text) = _) .start with
    ⟨succeeds, done⟩ | ⟨earlier, line, why, t, stops, done⟩
  · have ran_eq : ran = _ := done
    rw [exit_eq, ran_eq, Terminal.runLines_of_succeeds succeeds]
    refine ⟨fun out shown => ⟨rfl, ?_⟩, fun e failed => ?_, fun trap trapped => ?_, fun stop stopped => ?_⟩
    · cases shown
      exact String.empty_append.trans (printed_shownTexts engine depth .start text)
    · cases failed
    · cases trapped
    · cases stopped
  · have ran_eq : ran = _ := done
    rw [exit_eq, ran_eq, Terminal.runLines_of_stopsAt stops]
    refine ⟨fun out shown => ?_, fun e failed => ?_, fun trap trapped => ?_, fun stop stopped => ?_⟩
    · cases shown
    · cases why with
      | error cause =>
        cases failed
        refine ⟨rfl, _, rfl, fun trace vars => ?_⟩
        rw [Terminal.notesOn_of_quiet trace vars]
        rfl
      | trap trap => cases failed
      | exhausted => cases failed
    · cases why with
      | error cause => cases trapped
      | trap trap => rfl
      | exhausted => cases trapped
    · cases stopped
      refine ⟨earlier, line, why, stops, by rw [Nat.add_comm], ?_, fun input' file' text' reads' same => ?_⟩
      · cases why <;> exact String.empty_append
      · have stops' : StopsAt engine depth .start (lines text') earlier line why t :=
          ⟨same, stops.succeeds, stops.stops⟩
        rw [run_of_reads prepared reads', Terminal.runLines_of_stopsAt stops']

/-- A file whose third line fails. The empty text shown by its first line is printed as an empty line,
and with a fourth line that defines a function the exit would be the same. -/
theorem run_script_failing :
    let text := ":functions\r\n:vars\n !\n1 / 0"
    let text' := ":functions\n:vars\n !\r\ndeffn f()=1"
    let file := fun (path : String) => if path = "p" then .ok (encode text) else .error .notFound
    let args := ["p", "-b", "vm"]
    let exit := run 1 args [] file
    let e : ScriptError := ⟨3, "!", .malformed (.lexical (.unexpectedCharacter '!' 0))⟩
    prepare args = .ok (⟨"vm", false, false, false, some "p"⟩, .vm) ∧
      Reads ⟨"vm", false, false, false, some "p"⟩ [] file text ∧
      (Session.runScript .vm 1 text .start).1 = .error (.error e) ∧
      exit.code = 1 ∧ exit.out = "\n\x7b \x7d\n" ∧
      exit.err = "Error: Line 3: !\n\nCaused by:\n    Unexpected character '!' at position 0\n" ∧
      run 1 args [] (fun _ => .ok (encode text')) = exit := by
  intro text text' file args exit e
  have prepared : prepare args = .ok (⟨"vm", false, false, false, some "p"⟩, .vm) := rfl
  have reads : Reads ⟨"vm", false, false, false, some "p"⟩ [] file text := .file rfl rfl
  have reads' : Reads ⟨"vm", false, false, false, some "p"⟩ [] (fun _ => .ok (encode text')) text' :=
    .file rfl rfl
  have failed : (Session.runScript .vm 1 text .start).1 = .error (.error e) := by decide +kernel
  obtain ⟨-, fails, -, stops⟩ := run_script 1 prepared reads
  obtain ⟨code, notes, err, quiet⟩ := fails e failed
  obtain ⟨earlier, line, why, stopped, eq, out, same⟩ := stops _ failed
  have count : earlier.length + 1 = 3 := by
    cases why with
    | error cause => exact (congrArg ScriptError.number (Stop.error.inj eq)).symm
    | trap trap => cases eq
    | exhausted => cases eq
  have cut : earlier ++ [line] = [":functions", ":vars"] ++ [" !"] := by
    have taken := List.prefix_iff_eq_take.1 stopped.within
    rw [List.length_append, List.length_singleton, count] at taken
    rw [taken]
    decide +kernel
  obtain ⟨rfl, -⟩ := List.append_inj' cut rfl
  refine ⟨prepared, reads, failed, code, ?_, ?_, same _ _ _ reads' ?_⟩
  · rw [out]
    decide +kernel
  · rw [err, quiet rfl rfl]
    decide +kernel
  · rw [cut]
    decide +kernel

end Script

end CommandLine

end Reckon
