import Reckon.Proofs.ScriptMode

/-!
# Dialogues

A dialogue takes the lines of its input up to the first blank one. It carries them out in one session,
shows the outcome of a line behind its prompt, and reports an error and goes on (`CommandLine.run_dialogue`).

* `Text.beforeBlank`: the lines up to the first blank one, however their ends are cut off.
* `Terminal.answer_apply`: what an answer to the prompt leaves on a terminal.
* `Terminal.converse_apply`: what a dialogue leaves there, if no line of it traps.
-/

namespace Reckon

open Run Text
open Session (shownTexts shownAnswer? Succeeds after)

namespace Text

/-- The lines before the first one that is blank. -/
def beforeBlank (lines : List String) : List String := lines.takeWhile fun line => trim line ≠ ""

/-- Which lines stand before a blank one does not depend on the blanks around them. -/
lemma map_trim_beforeBlank (lines : List String) :
    (beforeBlank lines).map trim = beforeBlank (lines.map trim) := by
  rw [beforeBlank, beforeBlank, List.takeWhile_map]
  simp only [Function.comp_def, trim_trim]

/-- A blank line at the end is not before it. -/
lemma beforeBlank_append_empty (lines : List String) :
    beforeBlank (lines ++ [""]) = beforeBlank lines := by
  induction lines with
  | nil =>
    have empty : trim "" = "" := by decide
    exact List.takeWhile_cons_of_neg (by simp [empty])
  | cons line rest ih =>
    rw [List.cons_append, beforeBlank, beforeBlank, List.takeWhile_cons, List.takeWhile_cons]
    split
    · exact congrArg (line :: ·) ih
    · rfl

/-- Pieces and lines are the same up to the first blank one, but for the blanks around them. -/
lemma map_trim_beforeBlank_pieces (s : String) :
    (beforeBlank (pieces s)).map trim = (beforeBlank (lines s)).map trim := by
  rw [map_trim_beforeBlank, map_trim_beforeBlank]
  cases map_trim_pieces s with
  | inl same => rw [same]
  | inr same => rw [same, beforeBlank_append_empty]

/-- Joined by newlines, the pieces before a blank one are lines again, but for the blanks around them. -/
lemma map_trim_lines_intercalate (s : String) :
    (lines ("\n".intercalate (beforeBlank (pieces s)))).map trim = (beforeBlank (pieces s)).map trim := by
  have inside : ∀ line ∈ beforeBlank (pieces s), '\n' ∉ line.toList := fun line mem =>
    not_mem_of_mem_pieces (List.takeWhile_subset _ mem)
  have spoken : ∀ line ∈ beforeBlank (pieces s), trim line ≠ "" := fun line mem => by
    simpa using List.mem_takeWhile_imp mem
  generalize beforeBlank (pieces s) = kept at inside spoken
  cases kept with
  | nil => rfl
  | cons line rest =>
    have split := map_trim_pieces ("\n".intercalate (line :: rest))
    rw [pieces_intercalate inside nofun] at split
    cases split with
    | inl same => exact same.symm
    | inr same =>
      have mem : "" ∈ (line :: rest).map trim := by simp [same]
      obtain ⟨blank, mem, eq⟩ := List.mem_map.1 mem
      exact absurd eq (spoken blank mem)

end Text

/-- What a dialogue prints for a line: the prompt, and behind it what the answer shows. -/
def Session.exchange (answer : Except (Stop LineError) Outcome) : String :=
  "> " ++ printed (shownAnswer? answer).toList

/-- What a dialogue reports of a line: the message of its error, if it has one. -/
def Session.errorLine : Except (Stop LineError) Outcome → String
  | .error (.error e) => "Error: " ++ e.message ++ "\n"
  | _ => ""

/-- Whether an answer is an outcome or an error, and not a trap or a lack of depth. -/
def Session.isCalm : Except (Stop LineError) Outcome → Bool
  | .ok _ | .error (.error _) => true
  | .error (.trap _) | .error .exhausted => false

namespace Terminal

variable {o : Options} {engine : Engine} {depth : Nat} {line : String} {s u : Session} {out err : String}
  {answer : Except (Stop LineError) Outcome}

/-- A line that is not blank is carried out and shown, or its error is reported, and the dialogue goes
on. -/
lemma answer_apply (spoken : trim line ≠ "") (ran : Session.execute engine depth line s = (answer, u))
    (calm : Session.isCalm answer = true) :
    (Terminal.answer o.unnoted engine depth (some line) ⟨s, out, err⟩ :
        Except (Stop Report) Bool × Terminal) =
      (.ok true, ⟨u, out ++ printed (shownAnswer? answer).toList, err ++ Session.errorLine answer⟩) := by
  have talks : ¬(trim line).isEmpty = true := by simpa using spoken
  have noNotes : ∀ after, o.unnoted.notes engine line s after = "" := fun _ => rfl
  rw [Terminal.answer]
  simp only [if_neg talks, bind_apply, Run.attempt, runLine_apply, ran, noNotes, String.append_empty]
  cases answer with
  | ok outcome =>
    simp only [shownAnswer?, Session.errorLine, String.append_empty]
    cases outcome.shown? with
    | none =>
      rw [Option.toList_none, printed_nil, String.append_empty]
      rfl
    | some text =>
      rw [Option.toList_some, printed_singleton]
      rfl
  | error stop =>
    cases stop with
    | error e =>
      rw [shownAnswer?, Option.toList_none, printed_nil, String.append_empty]
      rfl
    | trap trap => cases calm
    | exhausted => cases calm

/-- Without lines there is nothing but the prompt. -/
lemma asked_once (engine : Engine) (depth : Nat) (s : Session) (out err : String) :
    (⟨after engine depth s [],
      out ++ String.join ((Session.answers engine depth s []).map Session.exchange) ++ "> ",
      err ++ String.join ((Session.answers engine depth s []).map Session.errorLine)⟩ : Terminal) =
        ⟨s, out ++ "> ", err⟩ := by
  show (⟨s, out ++ "" ++ "> ", err ++ ""⟩ : Terminal) = _
  rw [String.append_empty, String.append_empty]

/-- A dialogue takes the lines before the first blank one, and asks once more at their end. -/
lemma converse_apply (lines : List String) (out err : String)
    (calm : ∀ answer ∈ Session.answers engine depth s (beforeBlank lines),
      Session.isCalm answer = true) :
    converse o.unnoted engine depth (lines.map some) ⟨s, out, err⟩ =
      (.ok (), ⟨after engine depth s (beforeBlank lines),
        out ++ String.join ((Session.answers engine depth s (beforeBlank lines)).map Session.exchange) ++
          "> ",
        err ++ String.join
          ((Session.answers engine depth s (beforeBlank lines)).map Session.errorLine)⟩) := by
  induction lines generalizing s out err with
  | nil =>
    have none : beforeBlank [] = [] := rfl
    rw [none, asked_once]
    rfl
  | cons line rest ih =>
    have asked : (ask ⟨s, out, err⟩ : Except (Stop Report) Unit × Terminal) =
        (.ok (), ⟨s, out ++ "> ", err⟩) := rfl
    rw [List.map_cons, converse, bind_apply, asked]
    by_cases blank : trim line = ""
    · have ended : beforeBlank (line :: rest) = [] :=
        List.takeWhile_cons_of_neg (by simp [blank])
      have empty : (trim line).isEmpty = true := by simp [blank]
      rw [ended, asked_once]
      simp only [bind_apply, Terminal.answer, if_pos empty]
      rfl
    · have goesOn : beforeBlank (line :: rest) = line :: beforeBlank rest :=
        List.takeWhile_cons_of_pos (by simp [blank])
      rcases ran : Session.execute engine depth line s with ⟨answer, u⟩
      rw [goesOn, Session.answers_cons ran] at calm ⊢
      obtain ⟨first, others⟩ := List.forall_mem_cons.1 calm
      simp only [bind_apply, answer_apply blank ran first, if_true]
      rw [ih _ _ others, Session.after_cons ran, List.map_cons, List.map_cons, String.join_cons,
        String.join_cons, Session.exchange]
      simp only [String.append_assoc]

end Terminal

namespace CommandLine

variable {depth : Nat} {args : List String} {o : Options} {engine : Engine} {text : String}
  {file : String → Except InputError (List UInt8)}

/-- The bytes of a text are answered like its pieces. -/
lemma exists_answers (engine : Engine) (depth : Nat) (text : String) : ∃ ended : List String,
    inputLines (encode text) = ended.map some ∧
      Session.answers engine depth .start (beforeBlank ended) =
        Session.answers engine depth .start (beforeBlank (pieces text)) := by
  obtain ⟨ended, cut, same⟩ := exists_inputLines text
  refine ⟨ended, cut, ?_⟩
  rw [← Session.answers_map_trim, map_trim_beforeBlank, same, ← map_trim_beforeBlank,
    ← map_trim_beforeBlank_pieces, Session.answers_map_trim]

/-- A dialogue greets and then converses. -/
lemma run_of_dialogue (prepared : prepare args = .ok (o, engine)) (asked : source o = .dialogue)
    (input : List UInt8) :
    run depth args input file =
      Exit.ofRun (Terminal.converse o engine depth (inputLines input)
        ⟨.start, "Use an empty line to quit.\n", ""⟩) := by
  rw [run, prepared]
  simp only [asked]
  rfl

/-- A dialogue carries out the lines of its input before the first blank one, in this order and in one
session, and outlives their errors. If none of them traps or diverges, the program exits with the code 0.
It prints a greeting, for each line the prompt with the outcome behind it, and one prompt more. It reports
the error of each line that fails, and besides only the notes that were asked for. A line is answered in
the session that the lines before it left, also where these failed. Where a script of the same lines exits
with the code 0, all lines have outcomes, and the script prints the texts that the dialogue shows. -/
theorem run_dialogue (depth : Nat) (prepared : prepare args = .ok (o, engine))
    (asked : source o = .dialogue) (file : String → Except InputError (List UInt8)) (text : String)
    (calm : ∀ answer ∈ Session.answers engine depth .start (beforeBlank (pieces text)),
      Session.isCalm answer = true) :
    let lines := beforeBlank (pieces text)
    let answers := Session.answers engine depth .start lines
    let exit := run depth args (encode text) file
    exit.code = 0 ∧
    exit.out = "Use an empty line to quit.\n" ++ String.join (answers.map Session.exchange) ++ "> " ∧
    Annotated (String.join (answers.map Session.errorLine)) exit.err ∧
    (o.trace = false → o.vars = false →
      exit.err = String.join (answers.map Session.errorLine)) ∧
    (∀ earlier line rest, lines = earlier ++ line :: rest →
      answers[earlier.length]? =
        some (Session.execute engine depth line (after engine depth .start earlier)).1) ∧
    ∀ args' o' input' file', prepare args' = .ok (o', engine) →
      Reads o' input' file' ("\n".intercalate lines) → (run depth args' input' file').code = 0 →
        Succeeds engine depth .start lines ∧
          (run depth args' input' file').out = printed (shownTexts engine depth .start lines) := by
  intro lines answers exit
  obtain ⟨ended, cut, same⟩ := exists_answers engine depth text
  have quiet := Terminal.converse_apply (o := o) ended "Use an empty line to quit.\n" "" (same ▸ calm)
  have exit_eq : exit = _ := run_of_dialogue prepared asked (encode text)
  rw [cut] at exit_eq
  rw [same] at quiet
  let greeted : Terminal := ⟨.start, "Use an empty line to quit.\n", ""⟩
  have noted : Match Terminal.Beside (Terminal.converse o engine depth (ended.map some) greeted)
      (Terminal.converse o.unnoted engine depth (ended.map some) greeted) :=
    Terminal.beside_converse _ ⟨rfl, rfl, .nil⟩
  obtain ⟨code, out, err⟩ := exit_of_beside noted
  rw [← exit_eq, quiet] at code out err
  refine ⟨code, out, ?_, fun trace vars => ?_, fun earlier line rest split => ?_, ?_⟩
  · have err : Annotated ("" ++ String.join (answers.map Session.errorLine)) exit.err := err
    rwa [String.empty_append] at err
  · have plain : o.unnoted = o := by
      obtain ⟨engineName, _, _, demo, given⟩ := o
      cases trace
      cases vars
      rfl
    rw [exit_eq, ← plain, quiet]
    exact String.empty_append
  · exact Session.getElem?_answers split
  · intro args' o' input' file' prepared' reads done
    have same : Session.answers engine depth .start (Text.lines ("\n".intercalate lines)) = answers := by
      rw [← Session.answers_map_trim, map_trim_lines_intercalate, Session.answers_map_trim]
    have ran : run depth args' input' file' = _ := run_of_reads prepared' reads
    rcases Session.succeeds_or_stopsAt engine depth .start (Text.lines ("\n".intercalate lines)) with
      succeeds | ⟨earlier, line, stop, t, stops⟩
    · rw [Terminal.runLines_of_succeeds succeeds] at ran
      rw [Succeeds, same] at succeeds
      refine ⟨succeeds, ?_⟩
      rw [ran, shownTexts, shownTexts, same]
      exact String.empty_append
    · rw [ran, Terminal.runLines_of_stopsAt stops] at done
      cases stop <;> cases done

/-- A dialogue whose second line fails and whose input goes on behind a blank line, and one without a
failing line, which shows the same as the script of its lines. -/
theorem run_dialogue_recovered :
    let text := ":functions\r\n!\n:vars\n \t\n1 / 0"
    let text' := ":functions\n# f\n:vars\n\n!"
    let file := fun (_ : String) => (.error .notFound : Except InputError (List UInt8))
    let exit := run 1 ["-b", "vm"] (encode text) file
    let exit' := run 1 ["-b", "vm"] (encode text') file
    prepare ["-b", "vm"] = .ok (⟨"vm", false, false, false, none⟩, .vm) ∧
      (∀ answer ∈ Session.answers .vm 1 .start (beforeBlank (pieces text)),
        Session.isCalm answer = true) ∧
      exit.code = 0 ∧ exit.out = "Use an empty line to quit.\n> \n> > \x7b \x7d\n> " ∧
      exit.err = "Error: Unexpected character '!' at position 0\n" ∧
      exit'.out = "Use an empty line to quit.\n> \n> > \x7b \x7d\n> " ∧
      (run 1 ["-", "-b", "vm"] (encode ":functions\n# f\n:vars") file).out = "\n\x7b \x7d\n" := by
  intro text text' file exit exit'
  have prepared : prepare ["-b", "vm"] = .ok (⟨"vm", false, false, false, none⟩, .vm) := rfl
  have prepared' : prepare ["-", "-b", "vm"] =
      .ok (⟨"vm", false, false, false, some "-"⟩, .vm) := rfl
  have calm : ∀ answer ∈ Session.answers .vm 1 .start (beforeBlank (pieces text)),
      Session.isCalm answer = true := by decide +kernel
  have calm' : ∀ answer ∈ Session.answers .vm 1 .start (beforeBlank (pieces text')),
      Session.isCalm answer = true := by decide +kernel
  obtain ⟨code, out, -, err, -, -⟩ := run_dialogue 1 prepared rfl file text calm
  obtain ⟨-, out', -, -, -, script⟩ := run_dialogue 1 prepared rfl file text' calm'
  have joined : "\n".intercalate (beforeBlank (pieces text')) = ":functions\n# f\n:vars" := by
    decide +kernel
  have done : (run 1 ["-", "-b", "vm"] (encode ":functions\n# f\n:vars") file).code = 0 := by
    decide +kernel
  have reads : Reads ⟨"vm", false, false, false, some "-"⟩ (encode ":functions\n# f\n:vars") file
      ("\n".intercalate (beforeBlank (pieces text'))) := .standardInput rfl (congrArg encode joined.symm)
  obtain ⟨-, shows⟩ := script _ _ _ file prepared' reads done
  refine ⟨prepared, calm, code, ?_, ?_, ?_, ?_⟩
  · rw [out]
    decide +kernel
  · rw [err rfl rfl]
    decide +kernel
  · rw [out']
    decide +kernel
  · rw [shows]
    decide +kernel

end CommandLine

end Reckon
