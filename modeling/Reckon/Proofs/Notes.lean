import Reckon.CommandLine
import Reckon.Proofs.Agreement
import Reckon.Proofs.Kept

/-!
# Notes

The options `--trace` and `--vars` ask for notes: the tree of each line, and the variables behind it.
Notes are all that comes of them (`CommandLine.exit_unflagged`).

* `Session.perform_traced`: on the machine a trace gives slots to the names of an expression, which the
  expression does not see.
* `Terminal.runLine_of_trace`: a line with a trace is traced first and then carried out.
* `Terminal.runLine_apply`: what a line does and what it writes, with any options.
* `Terminal.Beside`: a terminal with notes beside the same one without them. All that a run is made of
  keeps them so, from `beside_runLine` on.
* `CommandLine.prepare_unflagged`: arguments without the flags for notes ask for the same otherwise.
-/

namespace Reckon

open Run Text

/-- Compiled again on the table that it left, an expression has the same program and leaves the table
as it is. -/
lemma compile_twice (fns : FunctionTable) (e : Expr) (s : Scope) :
    compile fns e (compile fns e s).2 = compile fns e s :=
  compile_again (.refl _)

/-- The session after the tree of an expression was shown: on the machine the names in it have got
slots. -/
def Session.traced (engine : Engine) (e : Expr) (s : Session) : Session :=
  match engine with
  | .interpreter => s
  | .vm => { s with globals := (compile s.functions e s.globals).2 }

/-- Showing a tree leaves the functions. -/
lemma Session.functions_traced (engine : Engine) (e : Expr) (s : Session) :
    (s.traced engine e).functions = s.functions := by
  cases engine <;> rfl

/-- The note on an expression: its tree, and on the machine the program for it. -/
def Session.treeNote (engine : Engine) (e : Expr) (s : Session) : String :=
  "tree: " ++ e.text ++ "\n" ++
    match engine with
    | .interpreter => ""
    | .vm => (compile s.functions e s.globals).1.listing

/-- The note on a line: that on the expression which it makes once it is trimmed, if it makes one. -/
def Session.lineNote (engine : Engine) (line : String) (s : Session) : String :=
  match Statement.parse s.functions (trim line) with
  | .ok (.evaluate e) => s.treeNote engine e
  | _ => ""

/-- The note on the variables behind a line, if it has led to anything to be shown. -/
def Session.varsNote : Except (Stop LineError) Outcome × Session → String
  | (.ok outcome, s) => if outcome.shown?.isSome then s.globals.text ++ "\n" else ""
  | (.error _, _) => ""

/-- What the options ask to be noted on a line that led to this. -/
def Options.notes (o : Options) (engine : Engine) (line : String) (s : Session)
    (after : Except (Stop LineError) Outcome × Session) : String :=
  (if o.trace then s.lineNote engine line else "") ++ (if o.vars then Session.varsNote after else "")

section Lines

variable {engine : Engine} {depth : Nat} {line : String} {e : Expr} {s : Session} {t : Terminal}

/-- Whether a line makes an expression does not depend on the blanks around it. -/
lemma Session.lineNote_of_parse (made : Statement.parse s.functions line = .ok (.evaluate e)) :
    s.lineNote engine line = s.treeNote engine e := by
  rw [lineNote, Statement.parse_trim.2 made]

/-- There is no note on a line that makes no expression. -/
lemma Session.lineNote_of_not_parse
    (other : ∀ e, Statement.parse s.functions line ≠ .ok (.evaluate e)) :
    s.lineNote engine line = "" := by
  rw [lineNote]
  split
  · rename_i e made
    exact absurd (Statement.parse_trim.1 made) (other e)
  · rfl

/-- The note on an expression is not empty. -/
lemma Session.treeNote_ne_empty (engine : Engine) (e : Expr) (s : Session) :
    s.treeNote engine e ≠ "" := by
  simp [treeNote]

/-- There is a note on a line exactly if it makes an expression. -/
lemma Session.lineNote_ne_empty_iff :
    s.lineNote engine line ≠ "" ↔ ∃ e, Statement.parse s.functions (trim line) = .ok (.evaluate e) := by
  constructor
  · intro noted
    by_contra other
    exact noted (lineNote_of_not_parse fun e made => other ⟨e, Statement.parse_trim.2 made⟩)
  · rintro ⟨e, made⟩
    rw [lineNote_of_parse (Statement.parse_trim.1 made)]
    exact treeNote_ne_empty engine e s

/-- The expression is carried out as if its tree had not been shown, since the names in it get the same
slots a second time. -/
lemma Session.perform_traced (engine : Engine) (depth : Nat) (e : Expr) (s : Session) :
    perform engine depth (.evaluate e) (s.traced engine e) =
      perform engine depth (.evaluate e) s := by
  cases engine with
  | interpreter => rfl
  | vm =>
    simp only [perform, onGlobals, traced, Run.bind_apply, Run.get_apply, Run.within,
      Run.mapError_apply, Engine.evaluate, Expr.compileAndRun_apply, compile_twice]

namespace Terminal

/-- On a line that makes an expression, a trace writes the note on it. -/
lemma trace_of_parse (made : Statement.parse t.session.functions line = .ok (.evaluate e)) :
    (trace engine line t : Except (Stop LineError) Unit × Terminal) =
      (.ok (), ⟨t.session.traced engine e, t.out, t.err ++ t.session.treeNote engine e⟩) := by
  cases engine <;>
    simp [trace, made, printError, Run.bind_apply, Session.traced, Session.treeNote,
      String.append_assoc]

/-- On any other line, a trace does nothing. -/
lemma trace_of_not_parse
    (other : ∀ e, Statement.parse t.session.functions line ≠ .ok (.evaluate e)) :
    (trace engine line t : Except (Stop LineError) Unit × Terminal) = (.ok (), t) := by
  simp only [trace, Run.bind_apply, Run.get_apply]
  rcases parsed : Statement.parse t.session.functions line with _ | d | e
  · rfl
  · rfl
  · exact absurd parsed (other e)

/-- A trace writes the note on the line and leaves a session in which the line does the same. -/
lemma trace_apply (engine : Engine) (line : String) (t : Terminal) : ∃ session,
    (trace engine line t : Except (Stop LineError) Unit × Terminal) =
        (.ok (), ⟨session, t.out, t.err ++ t.session.lineNote engine line⟩) ∧
      session.functions = t.session.functions ∧
      ∀ depth, Session.execute engine depth line session =
        Session.execute engine depth line t.session := by
  by_cases made : ∃ e, Statement.parse t.session.functions line = .ok (.evaluate e)
  · obtain ⟨e, made⟩ := made
    have made' : Statement.parse (t.session.traced engine e).functions line = .ok (.evaluate e) := by
      rw [Session.functions_traced, made]
    refine ⟨t.session.traced engine e, ?_, t.session.functions_traced engine e, fun depth => ?_⟩
    · rw [trace_of_parse made, Session.lineNote_of_parse made]
    · rw [Session.execute_of_parse made', Session.execute_of_parse made, Session.perform_traced]
  · have other := not_exists.1 made
    refine ⟨t.session, ?_, rfl, fun depth => rfl⟩
    rw [trace_of_not_parse other, Session.lineNote_of_not_parse other, String.append_empty]

end Terminal

/-- A line never has remarks. -/
lemma Session.diagnostics_of_execute {x : Evaluation}
    (ran : (execute engine depth line s).1 = .ok (.evaluated x)) : x.diagnostics = #[] := by
  simp only [execute, Run.bind_apply, Run.get_apply] at ran
  split at ran
  · cases ran
  split at ran
  · cases ran
  split at ran
  · cases ran
  -- only a line that is evaluated can have remarks, and its tree has none
  rcases parsed : Statement.parse s.functions (trim line) with _ | d | e
  · rw [parsed] at ran
    cases ran
  · rw [parsed] at ran
    cases ran
  · obtain ⟨after, -, eq⟩ := perform_evaluate_eq engine depth e s
    simp only [parsed, eq] at ran
    generalize (e.run s.functions depth s.globals).1 = ending at ran
    cases ending with
    | error stop => cases ran
    | ok v =>
      cases ran
      rfl

namespace Terminal

/-- Without a trace, a line does what it says in the session and notes the variables, if asked to. -/
lemma runLine_of_not_trace {o : Options} (quiet : o.trace = false) (engine : Engine) (depth : Nat)
    (line : String) (t : Terminal) :
    runLine o engine depth line t =
      ((Session.execute engine depth line t.session).1,
        ⟨(Session.execute engine depth line t.session).2, t.out, t.err ++
          if o.vars then Session.varsNote (Session.execute engine depth line t.session) else ""⟩) := by
  have silent : ∀ x, (Session.execute engine depth line t.session).1 = .ok (.evaluated x) →
      x.diagnostics = #[] := fun x => Session.diagnostics_of_execute
  simp only [runLine, quiet, Bool.false_eq_true, if_false, Run.bind_apply, Run.within]
  generalize Session.execute engine depth line t.session = after at silent
  obtain ⟨_ | outcome, session⟩ := after
  · simp [Session.varsNote]
  · cases outcome with
    | evaluated x =>
      have none := silent x rfl
      cases o.vars <;>
        simp [printError, none, Session.varsNote, Outcome.shown?, Run.bind_apply, Run.map_apply]
    | _ =>
      cases o.vars <;>
        simp [printError, Session.varsNote, Outcome.shown?, Run.bind_apply, Run.map_apply]

/-- A line with a trace is traced first, and then carried out in the session that the trace left. -/
lemma runLine_of_trace (o : Options) (engine : Engine) (depth : Nat) (line : String) (t : Terminal) :
    runLine { o with trace := true } engine depth line t =
      runLine { o with trace := false } engine depth line
        (trace engine line t : Except (Stop LineError) Unit × Terminal).2 := by
  obtain ⟨session, traced, -⟩ := trace_apply engine line t
  simp only [runLine, if_true, Run.bind_apply (Terminal.trace engine line), traced]
  rfl

/-- A line does what it says in the session, and adds the notes asked for to what is written. -/
lemma runLine_apply (o : Options) (engine : Engine) (depth : Nat) (line : String) (t : Terminal) :
    runLine o engine depth line t =
      ((Session.execute engine depth line t.session).1,
        ⟨(Session.execute engine depth line t.session).2, t.out,
          t.err ++ o.notes engine line t.session (Session.execute engine depth line t.session)⟩) := by
  cases trace : o.trace with
  | false =>
    rw [runLine_of_not_trace trace]
    simp [Options.notes, trace]
  | true =>
    -- the trace leaves another session, but one in which the line does the same
    obtain ⟨session, traced, -, same⟩ := trace_apply engine line t
    have asked : { o with trace := true } = o := by rw [← trace]
    have first := runLine_of_trace o engine depth line t
    rw [asked, traced] at first
    rw [first, runLine_of_not_trace rfl, same]
    simp [Options.notes, trace, String.append_assoc]

end Terminal

end Lines

/-- What is written because it was asked to be noted. -/
inductive Note : String → Prop
  | tree (engine : Engine) (e : Expr) (s : Session) : Note (s.treeNote engine e)
  | vars (s : Scope) : Note (s.text ++ "\n")

/-- The second text is the first, which consists of reports of errors, with notes between them. -/
inductive Annotated : String → String → Prop
  | nil : Annotated "" ""
  | report {plain full : String} (message : String) (before : Annotated plain full) :
    Annotated (plain ++ ("Error: " ++ message ++ "\n")) (full ++ ("Error: " ++ message ++ "\n"))
  | note {plain full text : String} (note : Note text) (before : Annotated plain full) :
    Annotated plain (full ++ text)

namespace Annotated

variable {plain full : String}

/-- A note that may be missing. -/
lemma note? {text : String} (note : text = "" ∨ Note text) (before : Annotated plain full) :
    Annotated plain (full ++ text) := by
  cases note with
  | inl none =>
    rw [none, String.append_empty]
    exact before
  | inr note => exact .note note before

/-- A report with its cause is a report as well. -/
lemma block (r : Report) (before : Annotated plain full) :
    Annotated (plain ++ r.block) (full ++ r.block) := by
  rw [Report.block]
  split
  · exact before.report r.message
  · rename_i cause _
    have whole : "Error: " ++ r.message ++ "\n\nCaused by:\n    " ++ cause ++ "\n" =
        "Error: " ++ (r.message ++ "\n\nCaused by:\n    " ++ cause) ++ "\n" := by
      simp only [String.append_assoc]
    rw [whole]
    exact before.report _

end Annotated

/-- The same options without those for notes. -/
def Options.unnoted (o : Options) : Options := { o with vars := false, trace := false }

/-- What the options ask to be noted are notes. -/
lemma Annotated.notes {plain full line : String} (o : Options) (engine : Engine) (s : Session)
    (after : Except (Stop LineError) Outcome × Session) (before : Annotated plain full) :
    Annotated plain (full ++ o.notes engine line s after) := by
  rw [Options.notes, ← String.append_assoc]
  apply Annotated.note?
  · split
    · rcases after with ⟨_ | outcome, session⟩
      · exact .inl rfl
      · rw [Session.varsNote]
        split
        · exact .inr (.vars _)
        · exact .inl rfl
    · exact .inl rfl
  · apply Annotated.note? _ before
    split
    · rw [Session.lineNote]
      split
      · exact .inr (.tree engine _ s)
      · exact .inl rfl
    · exact .inl rfl

namespace Run

variable {σ τ ε ε' α : Type} {R : σ → τ → Prop} {m : Run σ ε α} {m' : Run τ ε α} {s : σ} {t : τ}

/-- Runs match however their errors are seen. -/
lemma Match.mapError (f : ε → ε') (h : Match R (m s) (m' t)) :
    Match R (m.mapError f s) (m'.mapError f t) := by
  rw [mapError_apply, mapError_apply]
  exact ⟨congrArg (Except.mapError (Stop.map f)) h.1, h.2⟩

/-- Runs match with their errors as values. -/
lemma Match.attempt (h : Match R (m s) (m' t)) :
    Match R (m.attempt s : Except (Stop ε') (Except ε α) × σ) (m'.attempt t) := by
  rw [Run.attempt, Run.attempt]
  generalize m s = x at h
  generalize m' t = y at h
  obtain ⟨r, s'⟩ := x
  obtain ⟨r', t'⟩ := y
  obtain ⟨same, related⟩ := h
  cases same
  rcases r with (_ | _ | _) | _ <;> exact ⟨rfl, related⟩

end Run

namespace Terminal

/-- A terminal with notes beside the same one without them. -/
structure Beside (t p : Terminal) : Prop where
  session : t.session = p.session
  out : t.out = p.out
  err : Annotated p.err t.err

section Beside

variable {ε : Type} {t p : Terminal} {o : Options} {engine : Engine} {depth : Nat}

/-- What is printed stands beside the same without notes. -/
lemma beside_print (h : Beside t p) (text : String) :
    Match Beside (print text t : Except (Stop ε) Unit × Terminal) (print text p) :=
  ⟨rfl, h.session, congrArg (· ++ text) h.out, h.err⟩

/-- A line does the same whether or not notes are asked for. -/
lemma beside_runLine (h : Beside t p) (line : String) :
    Match Beside (runLine o engine depth line t) (runLine o.unnoted engine depth line p) := by
  have none : ∀ after, o.unnoted.notes engine line p.session after = "" := fun _ => rfl
  rw [runLine_apply, runLine_apply, h.session, none, String.append_empty]
  exact ⟨rfl, rfl, h.out, h.err.notes o engine p.session _⟩

/-- Lines of a script do the same whether or not notes are asked for. -/
lemma beside_runLines (lines : List String) : ∀ (number : Nat) {t p : Terminal}, Beside t p →
    Match Beside (runLines o engine depth number lines t)
      (runLines o.unnoted engine depth number lines p) := by
  induction lines with
  | nil => exact fun _ _ _ h => ⟨rfl, h⟩
  | cons line rest ih =>
    intro number t p h
    simp only [runLines]
    apply Match.bind ((beside_runLine h line).mapError _)
    intro outcome t p h
    cases outcome.shown? with
    | none => exact ih (number + 1) h
    | some text => exact (beside_print h _).bind fun _ _ _ h => ih (number + 1) h

/-- Lines of the demonstration do the same whether or not notes are asked for. -/
lemma beside_runDemo (lines : List String) : ∀ {t p : Terminal}, Beside t p →
    Match Beside (runDemo o engine depth lines t) (runDemo o.unnoted engine depth lines p) := by
  induction lines with
  | nil => exact fun h => ⟨rfl, h⟩
  | cons line rest ih =>
    intro t p h
    simp only [runDemo]
    apply Match.bind ((beside_runLine h line).mapError _)
    intro outcome t p h
    cases outcome with
    | nothing => exact ih h
    | _ => exact (beside_print h _).bind fun _ _ _ h => ih h

/-- An answer leads the dialogue to the same place, and an error in it is reported the same. -/
lemma beside_answer (h : Beside t p) (line : Option String) :
    Match Beside (answer o engine depth line t) (answer o.unnoted engine depth line p) := by
  cases line with
  | none => exact ⟨rfl, h⟩
  | some line =>
    simp only [answer]
    split
    · exact ⟨rfl, h⟩
    · apply Match.bind (beside_runLine h line).attempt
      intro outcome t p h
      cases outcome with
      | ok outcome =>
        cases shown : outcome.shown? with
        | none =>
          simp only [shown]
          exact ⟨rfl, h⟩
        | some text =>
          simp only [shown]
          exact (beside_print h _).bind fun _ _ _ h => ⟨rfl, h⟩
      | error e => exact ⟨rfl, h.session, h.out, h.err.report e.message⟩

/-- A dialogue does the same whether or not notes are asked for. -/
lemma beside_converse (lines : List (Option String)) : ∀ {t p : Terminal}, Beside t p →
    Match Beside (converse o engine depth lines t) (converse o.unnoted engine depth lines p) := by
  induction lines with
  | nil => exact fun h => beside_print h _
  | cons line rest ih =>
    intro t p h
    simp only [converse]
    apply Match.bind (beside_print h _)
    intro _ t p h
    apply Match.bind (beside_answer h line)
    intro more t p h
    cases more with
    | false => exact ⟨rfl, h⟩
    | true => exact ih h

end Beside

end Terminal

namespace CommandLine

open Terminal

/-- The arguments without the flags that ask for notes. What stands behind the flag for an engine is
its name, whatever it looks like. -/
def unflagged : List String → List String
  | [] => []
  | arg :: rest =>
    if arg = "--vars" ∨ arg = "--trace" then unflagged rest
    else if arg = "--backend" ∨ arg = "-b" then
      match rest with
      | [] => [arg]
      | name :: rest => arg :: name :: unflagged rest
    else arg :: unflagged rest

/-- Arguments ask for the same without the flags for notes, or are refused for the same reason. -/
lemma read_unflagged (args : List String) (o : Options) :
    o.unnoted.read (unflagged args) = (o.read args).map Options.unnoted := by
  induction args using unflagged.induct generalizing o with
  | case1 => rfl
  | case2 arg rest flag ih =>
    rw [unflagged.eq_def]
    simp only [if_pos flag]
    cases flag with
    | inl vars =>
      subst vars
      exact ih { o with vars := true }
    | inr trace =>
      subst trace
      exact ih { o with trace := true }
  | case3 arg other flag =>
    rw [unflagged.eq_def]
    simp only [if_neg other, if_pos flag]
    cases flag <;> subst arg <;> rfl
  | case4 arg other flag name rest ih =>
    rw [unflagged.eq_def]
    simp only [if_neg other, if_pos flag]
    cases flag <;> subst arg <;> exact ih { o with engineName := name }
  | case5 arg rest other other' ih =>
    rw [unflagged.eq_def]
    simp only [if_neg other, if_neg other']
    by_cases demo : arg = "--demo"
    · subst demo
      exact ih { o with demo := true }
    · obtain ⟨vars, trace⟩ := not_or.1 other
      obtain ⟨backend, b⟩ := not_or.1 other'
      rw [Options.read, Options.read]
      any_goals assumption
      have input : o.unnoted.input = o.input := rfl
      rw [input]
      split
      · rfl
      · split
        · rfl
        · exact ih { o with input := some arg }

example : unflagged ["--trace", "-b", "--vars", "--vars", "-"] = ["-b", "--vars", "-"] := by decide

/-- Arguments ask for the same engine without the flags for notes. -/
lemma prepare_unflagged (args : List String) :
    prepare (unflagged args) = (prepare args).map fun (o, engine) => (o.unnoted, engine) := by
  have same := read_unflagged args .default
  have plain : Options.default.unnoted = .default := rfl
  rw [plain] at same
  rw [prepare, prepare, same]
  cases Options.default.read args with
  | error e => rfl
  | ok o =>
    simp only [Except.map]
    have name : o.unnoted.engineName = o.engineName := rfl
    rw [name]
    cases Engine.ofName? o.engineName <;> rfl

/-- A script does the same whether or not notes are asked for. -/
lemma beside_runScript {t p : Terminal} (h : Beside t p) (o : Options) (engine : Engine) (depth : Nat)
    (name : String) (bytes : Except InputError (List UInt8)) :
    Match Beside (runScript o engine depth name bytes t)
      (runScript o.unnoted engine depth name bytes p) := by
  rw [runScript, runScript]
  cases scriptText bytes with
  | error e => exact ⟨rfl, h⟩
  | ok s => exact beside_runLines (lines s) 1 h

/-- What runs that match leave differs in the notes only. -/
lemma exit_of_beside {x y : Except (Stop Report) Unit × Terminal} (h : Match Beside x y) :
    (Exit.ofRun x).code = (Exit.ofRun y).code ∧ (Exit.ofRun x).out = (Exit.ofRun y).out ∧
      Annotated (Exit.ofRun y).err (Exit.ofRun x).err := by
  obtain ⟨r, t⟩ := x
  obtain ⟨r', p⟩ := y
  obtain ⟨same, beside⟩ := h
  cases same
  rcases r with (r | _ | _) | _
  · exact ⟨rfl, beside.out, beside.err.block r⟩
  all_goals exact ⟨rfl, beside.out, beside.err⟩

/-- A run with the flags for notes leaves what the same run leaves without them, but for the notes. -/
lemma exit_unflagged (depth : Nat) (args : List String) (input : List UInt8)
    (file : String → Except InputError (List UInt8)) :
    (run depth args input file).code = (run depth (unflagged args) input file).code ∧
      (run depth args input file).out = (run depth (unflagged args) input file).out ∧
      Annotated (run depth (unflagged args) input file).err (run depth args input file).err := by
  rw [run, run, prepare_unflagged]
  cases prepare args with
  | error e =>
    have refused := Annotated.nil.block ⟨e.message, none⟩
    rw [String.empty_append] at refused
    exact ⟨rfl, rfl, refused⟩
  | ok found =>
    obtain ⟨o, engine⟩ := found
    have start : Beside .start .start := ⟨rfl, rfl, .nil⟩
    have same : source o.unnoted = source o := rfl
    simp only [Except.map, same]
    apply exit_of_beside
    cases source o with
    | demo => exact beside_runDemo Demo.lines start
    | file path => exact beside_runScript start o engine depth path (file path)
    | standardInput => exact beside_runScript start o engine depth "stdin" (.ok input)
    | dialogue =>
      exact (beside_print start _).bind fun _ _ _ h => beside_converse (inputLines input) h

end CommandLine

end Reckon
