import Reckon.Proofs.Compiled
import Reckon.Proofs.Depth

/-!
# Agreement of the engines

Both engines give an expression the same meaning: that of its tree. `Engine.evaluate_eq` says so for
each depth, up to the slots of the scope that is left; the main statements follow from it.

* `Session.engines_agree`: in a session, an expression has the same ending on both engines, the same
  variables live afterwards with the same values, and diverges on one if it does on the other.
* `compile_never_faults`: on any table with as many cells as the program has slots, a compiled program
  ends with one value, in a rejection or in a trap, if it ends.
-/

namespace Reckon

open Run

/-- The error in which a rejection shows on an engine. -/
def Engine.refusal : Engine → Rejection → EvalError
  | .interpreter, reason => .rejected reason
  | .vm, reason => .faulted (.rejected reason)

/-- A rejection reads the same on both engines. -/
lemma Engine.message_refusal (engine : Engine) (reason : Rejection) :
    (engine.refusal reason).message = reason.message := by
  cases engine <;> rfl

/-- Errors seen as errors of another kind, on the outcome of a run. -/
lemma Run.mapError_apply {σ ε ε' α : Type} (f : ε → ε') (m : Run σ ε α) (s : σ) :
    m.mapError f s = ((m s).1.mapError (Stop.map f), (m s).2) := by
  rw [Run.mapError]
  rcases m s with ⟨_ | _, s'⟩ <;> rfl

/-- Compiling changes no value. -/
lemma get?_compile (fns : FunctionTable) (e : Expr) (s : Scope) (n : String) :
    (compile fns e s).2.get? n = s.get? n :=
  (e.extends_lower 0 0 s).get?_eq n

/-- Compiling an expression and running the program has the result of the run of its tree. -/
lemma Expr.compileAndRun_eq (fns : FunctionTable) (depth : Nat) (e : Expr) (s : Scope) :
    ∃ after : Scope, (∀ n, after.get? n = (e.run fns depth s).2.get? n) ∧
      e.compileAndRun fns depth s =
        (((e.run fns depth s).1.mapError (Stop.map .rejected)).map fun v => ⟨v, #[]⟩, after) := by
  have start : Represents (compile fns e s).2 (compile fns e s).2.cells s :=
    .ofLayout fun n => (get?_compile fns e s n).symm
  obtain ⟨cells, rep, ran⟩ := run_compile depth start
  refine ⟨(compile fns e s).2.withCells cells, rep.get?_withCells, ?_⟩
  simp only [Expr.compileAndRun, Run.bind_apply, Run.get_apply, Run.set_apply, ran]
  generalize (e.run fns depth s).1 = result
  cases result <;> rfl

/-- An evaluation has the result of the run of the tree on either engine, and leaves the same values. -/
lemma Engine.evaluate_eq (engine : Engine) (fns : FunctionTable) (depth : Nat) (e : Expr)
    (s : Scope) :
    ∃ after : Scope, (∀ n, after.get? n = (e.run fns depth s).2.get? n) ∧
      engine.evaluate fns depth e s =
        (((e.run fns depth s).1.mapError (Stop.map engine.refusal)).map fun v => ⟨v, #[]⟩, after) := by
  cases engine with
  | interpreter =>
    refine ⟨(e.run fns depth s).2, fun _ => rfl, ?_⟩
    simp only [Engine.evaluate, Run.mapError_apply, Run.bind_apply]
    rcases e.run fns depth s with ⟨_ | _, after⟩ <;> rfl
  | vm =>
    obtain ⟨after, same, ran⟩ := e.compileAndRun_eq fns depth s
    refine ⟨after, same, ?_⟩
    simp only [Engine.evaluate, Run.mapError_apply, ran]
    rcases (e.run fns depth s).1 with (_ | _ | _) | _ <;> rfl

namespace Session

/-- How an ending of the run of a tree shows in a session, on an engine. -/
def shown (engine : Engine) (ending : Except (Stop Rejection) Int64) :
    Except (Stop LineError) Outcome :=
  (ending.mapError (Stop.map fun reason => .failed (engine.refusal reason))).map fun v =>
    .evaluated ⟨v, #[]⟩

/-- An expression in a session ends like its tree, and leaves the functions as they are and the values
that the tree leaves. -/
lemma perform_evaluate_eq (engine : Engine) (depth : Nat) (e : Expr) (s : Session) :
    ∃ after : Scope, (∀ n, after.get? n = (e.run s.functions depth s.globals).2.get? n) ∧
      perform engine depth (.evaluate e) s =
        (shown engine (e.run s.functions depth s.globals).1, { s with globals := after }) := by
  obtain ⟨after, same, ran⟩ := engine.evaluate_eq s.functions depth e s.globals
  refine ⟨after, same, ?_⟩
  simp only [perform, onGlobals, Run.bind_apply, Run.get_apply, Run.within, Run.mapError_apply, ran]
  rcases (e.run s.functions depth s.globals).1 with (_ | _ | _) | _ <;> rfl

/-- What a session shows tells endings apart. -/
lemma shown_injective (engine : Engine) {x y : Except (Stop Rejection) Int64}
    (same : shown engine x = shown engine y) : x = y := by
  cases engine <;> rcases x with (_ | _ | _) | _ <;> rcases y with (_ | _ | _) | _ <;> cases same <;>
    rfl

/-- The evaluation of an expression in a session, for each depth to which calls may nest. -/
def evaluating (engine : Engine) (e : Expr) (depth : Nat) : Run Session LineError Outcome :=
  perform engine depth (.evaluate e)

section Evaluating

variable {engine : Engine} {e : Expr} {s : Session} {ending : Except (Stop Rejection) Int64}

/-- An expression ends in a session, on any engine, in the way in which its tree ends. -/
lemma ends_evaluating_iff {values : String → Option Int64} :
    (∃ after, Ends (evaluating engine e) s (shown engine ending) after ∧
        after.globals.get? = values) ↔
      ending ≠ .error .exhausted ∧ ∃ depth, (e.run s.functions depth s.globals).1 = ending ∧
        (e.run s.functions depth s.globals).2.get? = values := by
  refine ⟨fun h => ?_, fun h => ?_⟩
  · obtain ⟨after, ⟨done, depth, ran⟩, rfl⟩ := h
    obtain ⟨globals, same, eq⟩ := perform_evaluate_eq engine depth e s
    obtain ⟨result, rfl⟩ := Prod.mk.inj (eq.symm.trans ran)
    refine ⟨?_, depth, shown_injective engine result, funext fun n => (same n).symm⟩
    intro cut
    subst cut
    exact done rfl
  · obtain ⟨done, depth, rfl, rfl⟩ := h
    obtain ⟨globals, same, eq⟩ := perform_evaluate_eq engine depth e s
    refine ⟨{ s with globals }, ⟨?_, depth, eq⟩, funext same⟩
    intro cut
    exact done (shown_injective engine cut)

/-- An expression diverges in a session, on any engine, if its tree does. -/
lemma diverges_evaluating_iff :
    Diverges (evaluating engine e) s ↔ Diverges (fun depth => e.run s.functions depth) s.globals := by
  have cut : ∀ depth, (evaluating engine e depth s).1 = .error .exhausted ↔
      (e.run s.functions depth s.globals).1 = .error .exhausted := by
    intro depth
    obtain ⟨globals, -, eq⟩ := perform_evaluate_eq engine depth e s
    rw [evaluating, eq]
    refine ⟨fun cut => shown_injective engine cut, fun cut => ?_⟩
    rw [cut]
    rfl
  exact forall_congr' cut

/-- Both engines give an expression the same meaning in a session. Whatever the depth, an engine leaves
the functions as they are and shows an ending of the tree, which is a value without remarks, a
rejection or a trap. An ending with certain values of the variables is reached on one engine if it is
on the other, where it reads the same; and both diverge if one does. -/
theorem engines_agree (s : Session) (e : Expr) :
    (∀ engine depth, (evaluating engine e depth s).2.functions = s.functions ∧
      ∃ ending, (evaluating engine e depth s).1 = shown engine ending) ∧
    (∀ ending values,
      (∃ after, Ends (evaluating .interpreter e) s (shown .interpreter ending) after ∧
          after.globals.get? = values) ↔
        ∃ after, Ends (evaluating .vm e) s (shown .vm ending) after ∧
          after.globals.get? = values) ∧
    (Diverges (evaluating .interpreter e) s ↔ Diverges (evaluating .vm e) s) ∧
    ∀ reason, (Engine.refusal .interpreter reason).message = (Engine.refusal .vm reason).message := by
  refine ⟨fun engine depth => ?_, fun ending values => ?_, ?_, fun reason => ?_⟩
  · obtain ⟨globals, -, eq⟩ := perform_evaluate_eq engine depth e s
    rw [evaluating, eq]
    exact ⟨rfl, _, rfl⟩
  · exact ends_evaluating_iff.trans ends_evaluating_iff.symm
  · exact diverges_evaluating_iff.trans diverges_evaluating_iff.symm
  · rw [Engine.message_refusal, Engine.message_refusal]

end Evaluating

end Session

/-- A compiled program never faults. On any table that has a cell for each of its slots, whatever the
cells hold and whether or not it was compiled against that table, it prints one value without remarks,
or it is rejected, or it traps, if it ends. -/
theorem compile_never_faults (fns : FunctionTable) (e : Expr) (scope table : Scope)
    (room : (compile fns e scope).1.main.slots ≤ table.size) {r : Except (Stop Fault) Execution}
    {after : Scope} (ends : Ends (fun depth => (compile fns e scope).1.run depth) table r after) :
    (∃ v, r = .ok ⟨#[v], #[]⟩) ∨ (∃ reason, r = .error (.error (.rejected reason))) ∨
      ∃ t, r = .error (.trap t) := by
  obtain ⟨done, depth, ran⟩ := ends
  have fits : (compile fns e scope).2.size ≤ table.cells.size := by
    rw [Scope.size_cells]
    exact room
  -- whatever the cells hold, they represent some scope
  obtain ⟨cells, -, eq⟩ := run_compile depth (.withCells _ fits)
  obtain ⟨rfl, -⟩ := Prod.mk.inj (eq.symm.trans ran)
  generalize (e.run fns depth ((compile fns e scope).2.withCells table.cells)).1 = result at done ⊢
  rcases result with (reason | t | _) | v
  · exact .inr (.inl ⟨reason, rfl⟩)
  · exact .inr (.inr ⟨t, rfl⟩)
  · exact absurd rfl done
  · exact .inl ⟨v, rfl⟩

/-- A program with a branch, calls and two variables, run on a table that it was not compiled against,
in which the cell of `y` is not live. -/
theorem compile_never_faults_on_other_table :
    let fns : FunctionTable := Catalogue.empty.insert ⟨"half", ["a"], .binary .div (.var "a") (.lit 2)⟩
    let e : Expr :=
      .assign (.var "x") (.cond (.var "y") (.call "half" [.lit 5]) (.call "half" [.lit 6]))
    let table : Scope := (Scope.empty.reserve "p").assign "q" 9
    let p : Program := (compile fns e .empty).1
    p.main.slots ≤ table.size ∧
      Ends (fun depth => p.run depth) table (.ok ⟨#[3], #[]⟩) (p.run 2 table).2 ∧
      ((∃ v, (.ok ⟨#[3], #[]⟩ : Except (Stop Fault) Execution) = .ok ⟨#[v], #[]⟩) ∨
        (∃ reason, (.ok ⟨#[3], #[]⟩ : Except (Stop Fault) Execution) =
          .error (.error (.rejected reason))) ∨
        ∃ t, (.ok ⟨#[3], #[]⟩ : Except (Stop Fault) Execution) = .error (.trap t)) := by
  intro fns e table p
  have room : p.main.slots ≤ table.size := by decide
  have fits : (compile fns e .empty).2.size ≤ table.cells.size := by decide +kernel
  have tree : (e.run fns 2 ((compile fns e .empty).2.withCells table.cells)).1 = .ok 3 := by
    decide +kernel
  have value : (p.run 2 table).1 = .ok ⟨#[3], #[]⟩ := by
    obtain ⟨cells, -, ran⟩ := run_compile 2 (.withCells _ fits)
    have ran : p.run 2 table = _ := ran
    rw [ran, tree]
    rfl
  have ends : Ends (fun depth => p.run depth) table (.ok ⟨#[3], #[]⟩) (p.run 2 table).2 := by
    refine ⟨fun cut => ?_, 2, Prod.ext value rfl⟩
    cases cut
  exact ⟨room, ends, compile_never_faults fns e .empty table room ends⟩

end Reckon
