import Reckon.Proofs.Defined
import Reckon.Proofs.Legible
import Reckon.Proofs.LineEffect
import Reckon.Proofs.Notes

/-!
# Renderings that users see

Trees are shown in reports of refused assignments, in traces and in the listing of the functions. Each
tells the tree, if its names are well formed, as all are that lines and scripts lead to.

* `Definition.Named.told`, `Session.Named.showFunctions_inj`: a line of the listing tells its definition,
  and the listing tells all functions.
* `Session.Reachable.named`: wherever lines and scripts led to, the names are well formed.
* `Expr.text_unambiguous`: what tells an expression.
-/

namespace Reckon

open Text
open Token (isName continuesName)

namespace Expr

variable {e : Expr}

/-- The expressions that lines make have well-formed names. -/
lemma Writable.named {callable : String → Bool} (h : Writable callable e) : e.Named := by
  induction h with
  | lit => exact .lit
  | var name => exact .var (Bool.and_eq_true_iff.1 name).1
  | assign _ _ iht ihv => exact .assign iht ihv
  | binary _ _ ihl ihr => exact .binary ihl ihr
  | minus _ ih => exact .binary ih .lit
  | cond _ _ _ iht iha ihb => exact .cond iht iha ihb
  | call name _ _ ih => exact .call (Bool.and_eq_true_iff.1 name).1 ih

end Expr

namespace Definition

/-- The names in a definition are well formed. -/
structure Named (d : Definition) : Prop where
  name : isName d.name.toList = true
  params : ∀ x ∈ d.params, isName x.toList = true
  body : d.body.Named

/-- The line that shows a definition. -/
def shown (d : Definition) : String := d.signature ++ " = " ++ d.body.text

/-- A definition is shown as its head, an equals sign and its body. -/
lemma toList_shown (d : Definition) : d.shown.toList = d.name.toList ++
    '(' :: ([','].intercalate (d.params.map String.toList) ++ ')' :: ' ' :: '=' :: ' ' ::
      d.body.text.toList) := by
  simp [shown, signature]

/-- A definition is told by the line that shows it. -/
lemma Named.told {d : Definition} (h : d.Named) :
    Told (· == '\n') Named (fun d => d.shown.toList) d := by
  intro d' named rest rest' stops stops' same
  have starts : ∀ x : String, isName x.toList = true →
      ∃ c cs, x.toList = c :: cs ∧ (c == ')') = false := by
    intro x name
    obtain ⟨c, cs, chars, goes⟩ := isName_starts name
    refine ⟨c, cs, chars, ?_⟩
    rw [beq_eq_false_iff_ne]
    rintro rfl
    exact absurd goes (by decide +kernel)
  have literate : ∀ c, (c == ',' || c == ')') = true → (!continuesName c) = true := by
    intro c ends
    simp only [Bool.or_eq_true, beq_iff_eq] at ends
    rcases ends with rfl | rfl <;> decide +kernel
  have lineEnd : ∀ c, (c == '\n') = true → Expr.stop c = true := fun c ends => by
    rw [Expr.stop, ends, Bool.or_true]
  simp only [toList_shown, List.append_assoc, List.cons_append] at same
  obtain ⟨name, params, behind⟩ := told_applied h.name named.name starts
    (fun x mem => ⟨h.params x mem, (told_name (h.params x mem)).mono literate⟩) named.params same
  obtain ⟨body, left⟩ := h.body.legible d'.body named.body rest rest' (stops.mono lineEnd)
    (stops'.mono lineEnd) (by simpa using behind)
  obtain ⟨_, _, _⟩ := d
  cases name
  cases params
  cases body
  exact ⟨rfl, left⟩

end Definition

namespace Session

/-- The functions of a session have well-formed names. -/
def Named (s : Session) : Prop := ∀ d ∈ s.functions.entries, d.Named

variable {s s' : Session}

/-- What is shown of the functions tells all of them. -/
lemma Named.showFunctions_inj (h : s.Named) (h' : s'.Named) :
    s.showFunctions = s'.showFunctions ↔ s.functions = s'.functions := by
  refine ⟨fun same => ?_, fun same => by rw [showFunctions, showFunctions, same]⟩
  have lines : ∀ s : Session, s.showFunctions.toList =
      ['\n'].intercalate (s.functions.entries.map fun d => d.shown.toList) := by
    intro s
    rw [showFunctions, String.toList_intercalate, List.map_map]
    rfl
  have starts : ∀ d : Definition, d.Named → ∃ c cs, d.shown.toList = c :: cs ∧ false = false := by
    intro d named
    obtain ⟨c, cs, chars, -⟩ := isName_starts named.name
    exact ⟨c, _, by rw [d.toList_shown, chars]; rfl, rfl⟩
  have all : ∀ d ∈ s.functions.entries, d.Named ∧
      Told (fun c => c == '\n' || false) Definition.Named (fun d => d.shown.toList) d :=
    fun d mem => ⟨h d mem, (h d mem).told.mono fun c ends => by simpa using ends⟩
  have listing : Told (fun _ => false) (fun ds => ∀ d ∈ ds, d.Named)
      (fun ds => ['\n'].intercalate (ds.map fun d : Definition => d.shown.toList))
      s.functions.entries := told_intercalate rfl starts all
  have entries : s.functions.entries = s'.functions.entries := by
    refine (listing s'.functions.entries h' [] [] (stops_nil _) (stops_nil _) ?_).1
    simp only [List.append_nil]
    rw [← lines, ← lines, same]
  generalize s.functions = fns at entries
  generalize s'.functions = fns' at entries
  cases fns
  cases fns'
  cases entries
  rfl

/-- What the statement of a line says keeps the names well formed. -/
lemma Named.perform (h : s.Named) {statement : Statement} {callable : String → Bool}
    (writable : statement.Writable callable) (engine : Engine) (depth : Nat) :
    (perform engine depth statement s).2.Named := by
  cases statement with
  | define d =>
    obtain ⟨name, params, body⟩ := writable
    have named : d.Named := ⟨(Bool.and_eq_true_iff.1 name).1,
      fun x mem => (Bool.and_eq_true_iff.1 (params x mem)).1, body.named⟩
    intro d' mem
    cases Catalogue.mem_place mem with
    | inl same => exact same ▸ named
    | inr before => exact h d' before
  | evaluate e =>
    obtain ⟨globals, -, ran⟩ := perform_evaluate_eq engine depth e s
    rw [ran]
    exact h

/-- A line leaves a session of named functions and variables, if it finds one. -/
lemma named_execute (engine : Engine) (depth : Nat) (line : String) :
    Run.Safe Named (fun _ => True) (execute engine depth line) := by
  refine fun s h => ⟨?_, fun _ _ => trivial⟩
  obtain ⟨_, ran⟩ | ⟨_, ran⟩ | ⟨statement, made, ran⟩ := execute_cases engine depth line s
  · rw [ran]
    exact h
  · rw [ran]
    exact h
  · rw [ran]
    exact h.perform (Statement.writable_of_parse made) engine depth

/-- Wherever lines and scripts led to, the names are well formed. -/
lemma Reachable.named (reachable : Reachable s) : s.Named := by
  induction reachable with
  | start => exact nofun
  | execute engine depth line _ ih => exact (named_execute engine depth line _ ih).1
  | runScript engine depth source _ ih =>
    exact (runScript_of_execute (named_execute engine depth) source _ ih).1

/-- The tree of an expression is told by the note on it, whatever program stands behind it. -/
lemma treeNote_inj {engine engine' : Engine} {e e' : Expr} (h : e.Named) (h' : e'.Named)
    (same : s.treeNote engine e = s'.treeNote engine' e') : e = e' := by
  have row : ∀ (e : Expr) (listing : String), ("tree: " ++ e.text ++ "\n" ++ listing).toList =
      "tree: ".toList ++ (e.text.toList ++ '\n' :: listing.toList) := by simp
  have ends : ∀ cs, Stops Expr.stop ('\n' :: cs) := stops_cons rfl
  have chars := congrArg String.toList same
  unfold treeNote at chars
  rw [row, row] at chars
  exact (h.legible e' h' _ _ (ends _) (ends _) (List.append_cancel_left chars)).1

end Session

/-- The postfix rendering is unambiguous. Expressions whose variables and calls have well-formed names,
with any integers as literals, have the same rendering only if they are the same. So the report of an
assignment to what is no variable tells this target, and the trace of a line tells the tree that the
line makes, on either engine. What is shown of the functions of a session tells every one of them, its
name, its parameters and its body, if their names are well formed, as they are wherever lines and
scripts lead to. -/
theorem Expr.text_unambiguous {e e' : Expr} (named : e.Named) (named' : e'.Named) :
    (e.text = e'.text ↔ e = e') ∧
    (∀ engine engine' : Engine, (engine.refusal (.invalidTarget e.text)).message =
      (engine'.refusal (.invalidTarget e'.text)).message ↔ e = e') ∧
    (∀ (engine engine' : Engine) (line line' : String) (t t' : Terminal),
      Statement.parse t.session.functions line = .ok (.evaluate e) →
      Statement.parse t'.session.functions line' = .ok (.evaluate e') → t.err = t'.err →
      (Terminal.trace engine line t : Except (Stop LineError) Unit × Terminal).2.err =
        (Terminal.trace engine' line' t' : Except (Stop LineError) Unit × Terminal).2.err → e = e') ∧
    (∀ s s' : Session, s.Named → s'.Named →
      (s.showFunctions = s'.showFunctions ↔ s.functions = s'.functions)) ∧
    ∀ s : Session, s.Reachable → s.Named := by
  have tree : e.text = e'.text ↔ e = e' :=
    ⟨text_injective named named', fun same => congrArg text same⟩
  refine ⟨tree, fun engine engine' => ⟨?_, ?_⟩, ?_, ?_, ?_⟩
  · intro same
    have report : ∀ (engine : Engine) (target : String),
        (engine.refusal (.invalidTarget target)).message =
          "Cannot assign to '" ++ target ++ "': left side of '=' must be a variable" :=
      fun engine target => engine.message_refusal _
    rw [report, report] at same
    exact tree.1 ((String.append_right_inj _).1 ((String.append_left_inj _).1 same))
  · intro same
    rw [same, Engine.message_refusal, Engine.message_refusal]
  · intro engine engine' line line' t t' made made' before noted
    rw [Terminal.trace_of_parse made, Terminal.trace_of_parse made', before] at noted
    exact Session.treeNote_inj named named' ((String.append_right_inj _).1 noted)
  · intro s s' h h'
    exact Session.Named.showFunctions_inj h h'
  · intro s reachable
    exact reachable.named

/-- A negative literal between two minus signs: the same pieces but for the place of a symbol, so
neither the renderings nor the reports nor the functions with these bodies look the same. -/
theorem Expr.text_unambiguous_minus :
    let e : Expr := .binary .sub (.var "a") (.binary .sub (.lit (-1)) (.call "_f" []))
    let e' : Expr := .binary .sub (.binary .sub (.var "a") (.lit (-1))) (.call "_f" [])
    let s : Session := ⟨.empty, Catalogue.empty.insert ⟨"g", ["a"], e⟩⟩
    let s' : Session := ⟨.empty, Catalogue.empty.insert ⟨"g", ["a"], e'⟩⟩
    e.text = "a -1 _f() - -" ∧ e'.text = "a -1 - _f() -" ∧ e.text ≠ e'.text ∧
      (∀ engine engine' : Engine, (engine.refusal (.invalidTarget e.text)).message ≠
        (engine'.refusal (.invalidTarget e'.text)).message) ∧
      s.showFunctions ≠ s'.showFunctions := by
  intro e e' s s'
  have a : Named (.var "a") := .var (by decide +kernel)
  have f : Named (.call "_f" []) := .call (by decide +kernel) nofun
  have named : e.Named := .binary a (.binary .lit f)
  have named' : e'.Named := .binary (.binary a .lit) f
  have other : e ≠ e' := by
    intro same
    cases (Expr.binary.inj same).2.1
  obtain ⟨tree, report, -, functions, -⟩ := text_unambiguous named named'
  have names : isName "g".toList = true ∧ ∀ x ∈ ["a"], isName x.toList = true := by decide +kernel
  have defined : ∀ body : Expr, body.Named → Definition.Named ⟨"g", ["a"], body⟩ :=
    fun body named => ⟨names.1, names.2, named⟩
  refine ⟨by decide +kernel, by decide +kernel, mt tree.1 other,
    fun engine engine' => mt (report engine engine').1 other, fun same => ?_⟩
  have table := (functions s s' (List.forall_mem_singleton.2 (defined e named))
    (List.forall_mem_singleton.2 (defined e' named'))).1 same
  have bodies : [e] = [e'] := congrArg (fun c : FunctionTable => c.entries.map Definition.body) table
  exact other (List.cons.inj bodies).1

end Reckon
