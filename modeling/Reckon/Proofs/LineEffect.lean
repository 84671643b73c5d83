import Reckon.Proofs.Agreement
import Reckon.Proofs.Written

/-!
# What a line changes

A line changes nothing unless it makes a statement: a definition changes the functions under its own
name, an expression the variables. Blanks around a line change neither what it does nor what is said
of it.

* `Text.trim_append_blanks`: blanks around a text do not outlast `trim`.
* `Session.execute_cases`: a line leaves the session alone, with an outcome or as malformed, or it does
  what its statement says.
* `Session.execute_confined`: what each kind of line changes.
-/

namespace Reckon

open Text

namespace Text

variable {before text after : List Char}

/-- Blanks behind a text are dropped by `trimChars`, also if the text is blank itself. -/
lemma trimChars_append_right (blank : ∀ c ∈ after, isBlank c = true) :
    trimChars (text ++ after) = trimChars text := by
  have gone : after.dropWhile isBlank = [] := by simpa using blank
  have behind : ∀ c ∈ after.reverse, isBlank c = true := fun c mem =>
    blank c (List.mem_reverse.1 mem)
  rw [trimChars, trimChars, List.dropWhile_append]
  split
  · rename_i all
    rw [gone, List.isEmpty_iff.1 all]
  · rw [List.reverse_append, List.dropWhile_append_of_pos behind]

/-- Blanks in front are trimmed. -/
lemma trimChars_append_left (blank : ∀ c ∈ before, isBlank c = true) :
    trimChars (before ++ text) = trimChars text := by
  rw [trimChars, trimChars, List.dropWhile_append_of_pos blank]

/-- Blanks around a text are dropped with those of its own. -/
lemma trim_append_blanks {before after : String} (line : String)
    (front : ∀ c ∈ before.toList, isBlank c = true)
    (back : ∀ c ∈ after.toList, isBlank c = true) :
    trim (before ++ line ++ after) = trim line := by
  rw [trim, trim, String.toList_append, String.toList_append, trimChars_append_right back,
    trimChars_append_left front]

end Text

namespace Session

variable {engine : Engine} {depth : Nat} {line : String} {s : Session}

/-- What a line does depends on it only as far as `trim` leaves it. -/
lemma execute_trim_congr {line' : String} (same : trim line = trim line') :
    execute engine depth line = execute engine depth line' := by
  rw [execute, execute, same]

/-- A blank line and a comment lead to nothing. -/
lemma execute_of_silent (silent : trim line = "" ∨ (trim line).toList.head? = some '#') :
    execute engine depth line s = (.ok .nothing, s) := by
  have none : (trim line).toList.head?.all (· == '#') = true := by
    cases silent with
    | inl empty => simp [empty]
    | inr comment => simp [comment]
  simp only [execute, Run.bind_apply, Run.get_apply, if_pos none]
  rfl

/-- The command for the variables shows them. -/
lemma execute_of_vars (command : trim line = ":vars") :
    execute engine depth line s = (.ok (.dump s.globals.text), s) := by
  have spoken : ¬":vars".toList.head?.all (· == '#') = true := by decide
  simp only [execute, Run.bind_apply, Run.get_apply, command, if_neg spoken, if_pos]
  rfl

/-- The command for the functions shows them. -/
lemma execute_of_functions (command : trim line = ":functions") :
    execute engine depth line s = (.ok (.dump s.showFunctions), s) := by
  have spoken : ¬":functions".toList.head?.all (· == '#') = true := by decide
  have other : ":functions" ≠ ":vars" := by decide
  simp only [execute, Run.bind_apply, Run.get_apply, command, if_neg spoken, if_neg other, if_pos]
  rfl

/-- A line leaves the session as it is, with an outcome or as malformed, or it makes a statement and
does what this says. -/
lemma execute_cases (engine : Engine) (depth : Nat) (line : String) (s : Session) :
    (∃ outcome, execute engine depth line s = (.ok outcome, s)) ∨
    (∃ e, execute engine depth line s = (.error (.error (.malformed e)), s)) ∨
    ∃ statement, Statement.parse s.functions line = .ok statement ∧
      execute engine depth line s = perform engine depth statement s := by
  by_cases made : ∃ statement, Statement.parse s.functions line = .ok statement
  · obtain ⟨statement, made⟩ := made
    exact .inr (.inr ⟨statement, made, execute_of_parse made⟩)
  · simp only [execute, Run.bind_apply, Run.get_apply]
    split
    · exact .inl ⟨_, rfl⟩
    · split
      · exact .inl ⟨_, rfl⟩
      · split
        · exact .inl ⟨_, rfl⟩
        · cases parsed : Statement.parse s.functions (trim line) with
          | error e => exact .inr (.inl ⟨e, rfl⟩)
          | ok statement => exact absurd ⟨statement, Statement.parse_trim.1 parsed⟩ made

/-- A definition changes the functions only. -/
lemma perform_define (engine : Engine) (depth : Nat) (d : Definition) (s : Session) :
    perform engine depth (.define d) s =
      (.ok (.defined d.signature), { s with functions := s.functions.insert d }) := rfl

/-- A statement that is carried out is not malformed. -/
lemma perform_ne_malformed (engine : Engine) (depth : Nat) (statement : Statement) (s : Session)
    (e : SyntaxError) : (perform engine depth statement s).1 ≠ .error (.error (.malformed e)) := by
  cases statement with
  | define d => exact nofun
  | evaluate x =>
    obtain ⟨globals, -, ran⟩ := perform_evaluate_eq engine depth x s
    rw [ran]
    rcases (x.run s.functions depth s.globals).1 with (_ | _ | _) | _ <;> exact nofun

/-- What is found in the functions once one was defined. -/
lemma find?_insert (fns : FunctionTable) (d : Definition) (n : String) :
    Catalogue.find? (fns.insert d) n = if n = d.name then some d else fns.find? n := by
  split
  · rename_i same
    subst same
    exact Catalogue.find?_insert_self d fns
  · rename_i other
    exact Catalogue.find?_insert_of_ne fns (Ne.symm other)

/-- A line changes only what it may. A line that is malformed leaves the whole session as it was, and so
do a blank line, a comment and the two commands, which show what there is; a line that makes no
statement never changes anything. A definition leaves the variables as they were and changes the
functions under its own name only, whatever was defined there. An expression leaves the functions as
they were, whatever comes of it. Blanks around the line change neither the answer, with the places that
an error names, nor the session that is left. -/
theorem execute_confined (engine : Engine) (depth : Nat) (line : String) (s : Session) :
    let (answer, t) := execute engine depth line s
    (∀ e, answer = .error (.error (.malformed e)) → t = s) ∧
    (trim line = "" ∨ (trim line).toList.head? = some '#' → answer = .ok .nothing ∧ t = s) ∧
    (trim line = ":vars" → answer = .ok (.dump s.globals.text) ∧ t = s) ∧
    (trim line = ":functions" → answer = .ok (.dump s.showFunctions) ∧ t = s) ∧
    ((∀ statement, Statement.parse s.functions line ≠ .ok statement) → t = s) ∧
    (∀ d, Statement.parse s.functions line = .ok (.define d) →
      answer = .ok (.defined d.signature) ∧ t.globals = s.globals ∧
        ∀ n, t.functions.find? n = if n = d.name then some d else s.functions.find? n) ∧
    (∀ e, Statement.parse s.functions line = .ok (.evaluate e) → t.functions = s.functions) ∧
    ∀ before after : String, (∀ c ∈ before.toList, isBlank c = true) →
      (∀ c ∈ after.toList, isBlank c = true) →
        execute engine depth (before ++ line ++ after) s = (answer, t) := by
  rcases ran : execute engine depth line s with ⟨answer, t⟩
  have cases := ran ▸ execute_cases engine depth line s
  refine ⟨fun e malformed => ?_, fun silent => ?_, fun command => ?_, fun command => ?_,
    fun none => ?_, fun d made => ?_, fun e made => ?_, fun before after front back => ?_⟩
  · rcases cases with ⟨_, here⟩ | ⟨_, here⟩ | ⟨statement, -, here⟩
    · exact congrArg Prod.snd here
    · exact congrArg Prod.snd here
    · have answered : (perform engine depth statement s).1 = answer := by rw [← here]
      exact absurd (answered.trans malformed) (perform_ne_malformed engine depth statement s e)
  · rw [execute_of_silent silent] at ran
    cases ran
    exact ⟨rfl, rfl⟩
  · rw [execute_of_vars command] at ran
    cases ran
    exact ⟨rfl, rfl⟩
  · rw [execute_of_functions command] at ran
    cases ran
    exact ⟨rfl, rfl⟩
  · rcases cases with ⟨_, here⟩ | ⟨_, here⟩ | ⟨statement, made, -⟩
    · exact congrArg Prod.snd here
    · exact congrArg Prod.snd here
    · exact absurd made (none statement)
  · rw [execute_of_parse made, perform_define] at ran
    cases ran
    exact ⟨rfl, rfl, find?_insert s.functions d⟩
  · obtain ⟨globals, -, same⟩ := perform_evaluate_eq engine depth e s
    rw [execute_of_parse made, same] at ran
    cases ran
    rfl
  · rw [execute_trim_congr (trim_append_blanks line front back), ran]

/-- Three lines in a session with a function of one parameter. The last parenthesis of the first is
found at the same place whatever blanks stand around the line, and nothing has changed. The second
gives the function another parameter. The third traps behind an assignment, and the functions are as
they were. -/
theorem execute_confined_redefinition :
    let f : Definition := ⟨"f", ["a"], .var "a"⟩
    let g : Definition := ⟨"f", ["a", "b"], .var "b"⟩
    let s : Session := ⟨(Scope.empty.assign "x" 7).reserve "y", Catalogue.empty.insert f⟩
    let t : Session := (execute .vm 1 "deffn f(a, b) = b" s).2
    let misplaced : SyntaxError := .grammatical (.unexpectedToken .expression .rparen 4)
    execute .vm 1 ("\u2003" ++ "1 + )" ++ "\t") s = (.error (.error (.malformed misplaced)), s) ∧
    (t.globals = s.globals ∧ t.functions.find? "f" = some g) ∧
    ∀ engine, (execute engine 1 "(x = 2) / y" s).1 = .error (.trap .divideByZero) ∧
      (execute engine 1 "(x = 2) / y" s).2.functions = s.functions := by
  intro f g s t misplaced
  have wide : "\u2003".toList.all isBlank = true := by decide +kernel
  have tab : "\t".toList.all isBlank = true := by decide +kernel
  simp only [List.all_eq_true] at wide tab
  have failed : (execute .vm 1 "1 + )" s).1 = .error (.error (.malformed misplaced)) := by
    have trimmed : trim "1 + )" = "1 + )" := by decide +kernel
    have lexed : tokenize "1 + )" = .ok [⟨.integer 1, ⟨0, 1⟩⟩, ⟨.symbol (.value .add), ⟨2, 3⟩⟩,
        ⟨.rparen, ⟨4, 5⟩⟩, ⟨.eof, ⟨5, 5⟩⟩] := by decide +kernel
    have made : Statement.parse s.functions "1 + )" = .error misplaced := by
      rw [Statement.parse, lexed]
      cbv
    simp [execute, Run.bind_apply, trimmed, made]
  have defined : Statement.parse s.functions "deffn f(a, b) = b" = .ok (.define g) := by
    have lexed : tokenize "deffn f(a, b) = b" = .ok [⟨.deffn, ⟨0, 5⟩⟩, ⟨.identifier "f", ⟨6, 7⟩⟩,
        ⟨.lparen, ⟨7, 8⟩⟩, ⟨.identifier "a", ⟨8, 9⟩⟩, ⟨.comma, ⟨9, 10⟩⟩,
        ⟨.identifier "b", ⟨11, 12⟩⟩, ⟨.rparen, ⟨12, 13⟩⟩, ⟨.symbol .assign, ⟨14, 15⟩⟩,
        ⟨.identifier "b", ⟨16, 17⟩⟩, ⟨.eof, ⟨17, 17⟩⟩] := by decide +kernel
    rw [Statement.parse, lexed]
    cbv
  let e : Expr := .binary .div (.assign (.var "x") (.lit 2)) (.var "y")
  have divided : Statement.parse s.functions "(x = 2) / y" = .ok (.evaluate e) := by
    have lexed : tokenize "(x = 2) / y" = .ok [⟨.lparen, ⟨0, 1⟩⟩, ⟨.identifier "x", ⟨1, 2⟩⟩,
        ⟨.symbol .assign, ⟨3, 4⟩⟩, ⟨.integer 2, ⟨5, 6⟩⟩, ⟨.rparen, ⟨6, 7⟩⟩,
        ⟨.symbol (.value .div), ⟨8, 9⟩⟩, ⟨.identifier "y", ⟨10, 11⟩⟩,
        ⟨.eof, ⟨11, 11⟩⟩] := by decide +kernel
    rw [Statement.parse, lexed]
    cbv
  obtain ⟨unchanged, -, -, -, -, -, -, blanks⟩ := execute_confined .vm 1 "1 + )" s
  obtain ⟨-, -, -, -, -, definition, -⟩ := execute_confined .vm 1 "deffn f(a, b) = b" s
  refine ⟨?_, ?_, fun engine => ⟨?_, ?_⟩⟩
  · exact (blanks _ _ wide tab).trans (Prod.ext failed (unchanged misplaced failed))
  · obtain ⟨-, globals, functions⟩ := definition g defined
    exact ⟨globals, functions "f"⟩
  · obtain ⟨globals, -, ran⟩ := perform_evaluate_eq engine 1 e s
    have trapped : (e.run s.functions 1 s.globals).1 = .error (.trap .divideByZero) := by
      decide +kernel
    rw [execute_of_parse divided, ran, trapped]
    rfl
  · obtain ⟨-, -, -, -, -, -, expression, -⟩ := execute_confined engine 1 "(x = 2) / y" s
    exact expression e divided

end Session

end Reckon
