import Mathlib.Logic.Relation
import Reckon.CommandLine.Terminal
import Reckon.Proofs.Compiled
import Reckon.Proofs.Lowering
import Reckon.Proofs.Respect
import Reckon.Proofs.Written

/-!
# Programs that are kept

A program knows the variables of the session by their slots. Nothing that happens to a table moves a
slot (`Scope.Step.continues`, `Scope.continues_of_steps`), so code lowered again on a later table is
the same code and asks for no new slot (`Expr.lower_again`), and only the number of slots that the
main chunk records may differ, which no run looks at (`Program.run_resized`).

* `Scope.Step`: what can happen to a table, whether it comes to a value, an error or a trap.
* `compile_again`: compiling an expression again on a table that continues the one it left.
-/

namespace Reckon

open Run

/-- The run of a program for the last value that it prints. -/
def Program.evaluate (depth : Nat) (p : Program) : Run Scope Fault Evaluation := do
  let execution ← p.run depth
  match execution.value? with
  | some v => return ⟨v, execution.diagnostics⟩
  | none => Run.fail .noOutput

/-- The program with another number of slots recorded for its main chunk. -/
def Program.resized (p : Program) (slots : Nat) : Program :=
  { p with main := { p.main with slots } }

/-- To compile and run is to run the program on the table that compiling left. -/
lemma Expr.compileAndRun_apply (fns : FunctionTable) (depth : Nat) (e : Expr) (s : Scope) :
    e.compileAndRun fns depth s = (compile fns e s).1.evaluate depth (compile fns e s).2 := rfl

namespace Scope

/-- What can happen to a table of variables: names are read, written or given a slot, a cell is
changed, an expression is compiled, or evaluated on an engine, and a program is run, with any
functions and with any ending. -/
inductive Step : Scope → Scope → Prop where
  | touch (s : Scope) (n : String) : Step s (s.touch n)
  | assign (s : Scope) (n : String) (v : Int64) : Step s (s.assign n v)
  | reserve (s : Scope) (n : String) : Step s (s.reserve n)
  | setCell (s : Scope) (i : Nat) (v? : Option Int64) : Step s (s.setCell i v?)
  | compile (s : Scope) (fns : FunctionTable) (e : Expr) : Step s (compile fns e s).2
  | evaluate (s : Scope) (engine : Engine) (fns : FunctionTable) (depth : Nat) (e : Expr) :
    Step s (engine.evaluate fns depth e s).2
  | run (s : Scope) (p : Program) (depth : Nat) : Step s (p.run depth s).2

/-- A later table: any number of steps lead to it. -/
abbrev Later : Scope → Scope → Prop := Relation.ReflTransGen Step

/-- Compiling moves no slot. -/
lemma continues_compile (fns : FunctionTable) (e : Expr) (s : Scope) :
    Continues s (compile fns e s).2 :=
  (e.extends_lower 0 0 s).continues

/-- A program moves no slot. -/
lemma continues_run (p : Program) (depth : Nat) (s : Scope) : Continues s (p.run depth s).2 :=
  continues_withCells s _

/-- Evaluation on the tree moves no slot, since reading and writing do not. -/
lemma continues_eval (fns : FunctionTable) (depth : Nat) (e : Expr) (s : Scope) :
    Continues s (e.run fns depth s).2 := by
  have respected : Respected fun a b => a = b ∧ Continues s a :=
    { value := fun same x => by rw [same.1]
      touch := fun same x => ⟨by rw [same.1], same.2.trans (continues_touch _ x)⟩
      assign := fun same x v => ⟨by rw [same.1], same.2.trans (continues_assign _ x v)⟩ }
  exact (e.eval_respects respected s s ⟨rfl, .refl s⟩).2.2

/-- The state in which a program leaves the table does not depend on what becomes of its value. -/
lemma evaluate_snd (p : Program) (depth : Nat) (s : Scope) :
    (p.evaluate depth s).2 = (p.run depth s).2 := by
  rw [Program.evaluate, Run.bind_apply]
  rcases p.run depth s with ⟨_ | execution, after⟩
  · rfl
  · cases value : execution.value? <;> simp [value]

/-- The interpreter leaves what the run of the tree leaves. -/
lemma evaluate_interpreter_snd (fns : FunctionTable) (depth : Nat) (e : Expr) (s : Scope) :
    (Engine.interpreter.evaluate fns depth e s).2 = (e.run fns depth s).2 := by
  simp only [Engine.evaluate, Run.mapError, Run.bind_apply]
  rcases e.run fns depth s with ⟨_ | _, after⟩ <;> rfl

/-- The machine leaves what the run of the program leaves of the table that compiling left. -/
lemma evaluate_vm_snd (fns : FunctionTable) (depth : Nat) (e : Expr) (s : Scope) :
    (Engine.vm.evaluate fns depth e s).2 =
      ((compile fns e s).1.run depth (compile fns e s).2).2 := by
  rw [← evaluate_snd, ← Expr.compileAndRun_apply]
  simp only [Engine.evaluate, Run.mapError]
  rcases e.compileAndRun fns depth s with ⟨_ | _, after⟩ <;> rfl

/-- An evaluation moves no slot, whatever the engine. -/
lemma continues_evaluate (engine : Engine) (fns : FunctionTable) (depth : Nat) (e : Expr)
    (s : Scope) : Continues s (engine.evaluate fns depth e s).2 := by
  cases engine with
  | interpreter =>
    rw [evaluate_interpreter_snd]
    exact continues_eval fns depth e s
  | vm =>
    rw [evaluate_vm_snd]
    exact (continues_compile fns e s).trans (continues_run _ depth _)

/-- No step moves a slot. -/
lemma Step.continues {s t : Scope} (step : Step s t) : Continues s t := by
  cases step with
  | touch n => exact continues_touch s n
  | assign n v => exact continues_assign s n v
  | reserve n => exact continues_reserve s n
  | setCell i v? => exact continues_withCells s _
  | compile fns e => exact continues_compile fns e s
  | evaluate engine fns depth e => exact continues_evaluate engine fns depth e s
  | run p depth => exact continues_run p depth s

/-- However much happens to a table, its slots stay where they are. -/
lemma continues_of_steps {s t : Scope} (later : Later s t) : Continues s t := by
  induction later with
  | refl => exact .refl s
  | tail _ step ih => exact ih.trans step.continues

end Scope

open Scope

namespace Expr

variable {fns : FunctionTable} {later : Scope}

/-- Arguments are lowered to the same code again, if each of them is. -/
lemma lowerArgs_again {es : List Expr}
    (all : ∀ e ∈ es, ∀ base next scope, Continues (e.lower fns base next scope).scope later →
      e.lower fns base next later = { e.lower fns base next scope with scope := later })
    (base : Nat) (next : Register) (scope : Scope)
    (kept : Continues (lowerArgs fns es base next scope).scope later) :
    lowerArgs fns es base next later =
      { lowerArgs fns es base next scope with scope := later } := by
  induction es generalizing base next scope with
  | nil => rfl
  | cons e es ih =>
    have others := fun base next scope => ih (fun e mem => all e (by simp [mem])) base next scope
    have first :=
      all e (by simp) base next scope ((extends_lowerArgs es _ _ _).continues.trans kept)
    simp only [lowerArgs, first]
    rw [others _ _ _ kept]

/-- On a table that continues the one it left, an expression is lowered to the same code again, and
the table stays as it is. -/
lemma lower_again (e : Expr) : ∀ base next scope,
    Continues (e.lower fns base next scope).scope later →
      e.lower fns base next later = { e.lower fns base next scope with scope := later } := by
  induction e using Expr.induction with
  | lit v => exact fun _ _ _ _ => rfl
  | var x =>
    intro base next scope kept
    -- the later table has the name at the slot that it was given first
    have mem : x ∈ later.names := kept.mem (mem_names_reserve.2 (.inl rfl))
    simp only [lower, kept.slot_eq_of_reserve, reserve_of_mem mem]
  | assign target value _ ih =>
    intro base next scope kept
    cases target with
    | var x =>
      have mem : x ∈ later.names := kept.mem (mem_names_reserve.2 (.inl rfl))
      have before := ih base next scope ((continues_reserve _ x).trans kept)
      simp only [lower, before, kept.slot_eq_of_reserve, reserve_of_mem mem]
    | _ => rfl
  | binary op left right ihl ihr =>
    intro base next scope kept
    have first := ihl base next scope ((extends_lower right _ _ _).continues.trans kept)
    simp only [lower, first]
    rw [ihr _ _ _ kept]
  | cond test whenTrue whenFalse iht iha ihb =>
    intro base next scope kept
    -- the later table continues the one behind the last arm, and so those before it
    have arms := (extends_lower whenFalse _ _ _).continues.trans kept
    have first := iht base next scope ((extends_lower whenTrue _ _ _).continues.trans arms)
    simp only [lower, first]
    rw [iha _ _ _ arms]
    simp only
    rw [ihb _ _ _ kept]
  | call f args ih =>
    intro base next scope kept
    cases lower_call_cases fns f args with
    | inl entered =>
      obtain ⟨d, found, fits⟩ := entered
      rw [lower_call found fits] at kept ⊢
      rw [lower_call found fits]
      simp only [lowerArgs_again ih base next scope kept]
    | inr refused =>
      obtain ⟨reason, -, lowered⟩ := refused
      rw [lowered, lowered]
      rfl

end Expr

/-- Compiled again on a table that continues the one it left, an expression has the same program,
but for the number of slots, and leaves the table as it is. -/
lemma compile_again {fns : FunctionTable} {e : Expr} {scope later : Scope}
    (kept : Continues (compile fns e scope).2 later) :
    compile fns e later = ((compile fns e scope).1.resized later.size, later) := by
  have again := e.lower_again 0 0 scope kept
  simp only [compile, again]
  rfl

/-- The run of a chunk does not depend on the number of its slots. -/
lemma Chunk.exec_resized (chunks : ChunkTable) (enter : Chunk → Run Machine Fault (Option Int64))
    (c : Chunk) (slots loops pc : Nat) (m : Machine) :
    Chunk.exec chunks enter { c with slots } loops pc m = c.exec chunks enter loops pc m := by
  let c' : Chunk := { c with slots }
  fun_induction Chunk.exec chunks enter c loops pc m with
  | case1 loops pc m inside e m' ran => exact exec_error (c := c') inside ran
  | case2 loops pc m inside m' ran ih => exact (exec_next (c := c') inside ran).trans ih
  | case3 loops pc m inside v m' ran => exact exec_finish (c := c') inside ran
  | case4 loops pc m inside target m' ran forward ih =>
    exact (exec_forward (c := c') inside ran forward).trans ih
  | case5 pc m inside target m' ran back =>
    -- no loop is left for the jump
    have inside' : pc < c'.code.size := inside
    have ran' : c'.code[pc].exec chunks enter c'.code.size m = (.ok (.jump target), m') := ran
    rw [Chunk.exec, dif_pos inside', ran']
    simp only [if_neg back]
  | case6 pc m inside target m' ran back loops ih =>
    exact (exec_back (c := c') inside ran back).trans ih
  | case7 loops pc m outside => exact exec_outside (c := c') outside

/-- The number of slots that a program notes for its main chunk does not matter to it. -/
lemma Program.run_resized (p : Program) (slots depth : Nat) :
    (p.resized slots).run depth = p.run depth := by
  funext scope
  simp only [Program.run, Program.resized, Chunk.exec_resized]

/-- Where compiling an expression makes a program but for the number of slots, and leaves the table
as it is, the machine as an engine runs this program. -/
lemma Engine.evaluate_vm_of_compile {fns : FunctionTable} {e : Expr} {p : Program} {slots : Nat}
    {s : Scope} (made : compile fns e s = (p.resized slots, s)) (depth : Nat) :
    Engine.vm.evaluate fns depth e s = (p.evaluate depth).mapError .faulted s := by
  have ran : e.compileAndRun fns depth s = p.evaluate depth s := by
    rw [Expr.compileAndRun_apply, made, Program.evaluate, Program.run_resized]
    rfl
  simp only [Engine.evaluate, Run.mapError, ran]

/-- In such a session, the machine as an engine carries out the expression as a run of it. -/
lemma Session.perform_vm_of_compile {e : Expr} {p : Program} {slots : Nat} {s : Session}
    (made : compile s.functions e s.globals = (p.resized slots, s.globals)) (depth : Nat) :
    perform .vm depth (.evaluate e) s =
      (Outcome.evaluated <$> onGlobals
        ((p.evaluate depth).mapError fun fault => .failed (.faulted fault))) s := by
  have evaluated := Engine.evaluate_vm_of_compile made depth
  simp only [perform, onGlobals, Run.bind_apply, Run.get_apply, Run.map_apply, Run.within,
    Run.mapError, evaluated]
  rcases p.evaluate depth s.globals with ⟨(_ | _ | _) | _, after⟩ <;> rfl

/-- A program that is kept stays valid. Whatever happens to the table that compiling an expression
left, to compile it again leaves the table as it is and makes the same program, but for the number
of slots that its main chunk records, and exactly the same if nothing happened. So a run of the
program that was kept does on the later table what compiling and running the expression does there
with the functions that there were, and so does the machine as an engine. The program that a
terminal lists in front of a line is the one that the line runs. -/
theorem compile_kept (fns : FunctionTable) (e : Expr) (scope : Scope) :
    (∀ later, Later (compile fns e scope).2 later →
      compile fns e later = ((compile fns e scope).1.resized later.size, later) ∧
      (∀ depth, (compile fns e scope).1.run depth later =
        (compile fns e later).1.run depth (compile fns e later).2) ∧
      ∀ depth, Engine.vm.evaluate fns depth e later =
        ((compile fns e scope).1.evaluate depth).mapError .faulted later) ∧
    compile fns e (compile fns e scope).2 = compile fns e scope ∧
    ∀ (t : Terminal) (line : String), t.session = ⟨scope, fns⟩ →
      Statement.parse fns line = .ok (.evaluate e) →
      let traced : Terminal := ⟨⟨(compile fns e scope).2, fns⟩, t.out,
        t.err ++ ("tree: " ++ e.text ++ "\n") ++ (compile fns e scope).1.listing⟩
      (Terminal.trace .vm line t : Except (Stop LineError) Unit × Terminal) = (.ok (), traced) ∧
      ∀ depth, Session.execute .vm depth line traced.session =
        (Outcome.evaluated <$> Session.onGlobals
          (((compile fns e scope).1.evaluate depth).mapError fun fault => .failed (.faulted fault)))
          traced.session := by
  have again : ∀ later, Later (compile fns e scope).2 later →
      compile fns e later = ((compile fns e scope).1.resized later.size, later) :=
    fun later reached => compile_again (continues_of_steps reached)
  have same : compile fns e (compile fns e scope).2 = compile fns e scope := again _ .refl
  refine ⟨fun later reached => ⟨again later reached, fun depth => ?_, fun depth => ?_⟩, same, ?_⟩
  · rw [again later reached, Program.run_resized]
  · exact Engine.evaluate_vm_of_compile (again later reached) depth
  · intro t line session made traced
    constructor
    · simp only [Terminal.trace, Run.bind_apply, Run.get_apply, session, made, Terminal.printError,
        Run.modify_apply, traced]
    · intro depth
      have kept := again (compile fns e scope).2 .refl
      have ran := Session.perform_vm_of_compile (s := traced.session) kept depth
      exact (Session.execute_of_parse (s := traced.session) made).trans ran

/-- A program with a call and two variables, kept while a slot is reserved, a variable written, a
run trapped under another definition of the function, and a cell changed. -/
theorem compile_kept_while_redefined :
    let half (body : Expr) : FunctionTable := Catalogue.empty.insert ⟨"half", ["a"], body⟩
    let fns := half (.binary .div (.var "a") (.lit 2))
    let e : Expr := .assign (.var "x") (.binary .add (.var "y") (.call "half" [.lit 9]))
    let p := (compile fns e .empty).1
    let written := ((compile fns e .empty).2.reserve "u").assign "y" 5
    let trapping : Expr := .binary .div (.call "half" [.var "w"]) (.lit 0)
    let later :=
      (Engine.interpreter.evaluate (half (.lit 7)) 3 trapping written).2.setCell 0 (some 20)
    let t : Terminal := ⟨⟨.empty, fns⟩, "", ""⟩
    Later (compile fns e .empty).2 later ∧
      compile fns e later = (p.resized 4, later) ∧
      ((compile fns e later).1.run 2 (compile fns e later).2).1 = .ok ⟨#[24], #[]⟩ ∧
      Statement.parse fns "x = y + half(9)" = .ok (.evaluate e) ∧
      ((Terminal.trace .vm "x = y + half(9)" t : Except (Stop LineError) Unit × Terminal)).2.err =
        "tree: x y half((9)) + =\n" ++ p.listing := by
  intro half fns e p written trapping later t
  have reached : Later (compile fns e .empty).2 later :=
    (((Relation.ReflTransGen.single (.reserve _ "u")).tail (.assign _ "y" 5)).tail
      (.evaluate _ .interpreter (half (.lit 7)) 3 trapping)).tail (.setCell _ 0 (some 20))
  have lexed : tokenize "x = y + half(9)" = .ok [⟨.identifier "x", ⟨0, 1⟩⟩,
      ⟨.symbol .assign, ⟨2, 3⟩⟩, ⟨.identifier "y", ⟨4, 5⟩⟩, ⟨.symbol (.value .add), ⟨6, 7⟩⟩,
      ⟨.identifier "half", ⟨8, 12⟩⟩, ⟨.lparen, ⟨12, 13⟩⟩, ⟨.integer 9, ⟨13, 14⟩⟩,
      ⟨.rparen, ⟨14, 15⟩⟩, ⟨.eof, ⟨15, 15⟩⟩] := by decide +kernel
  have made : Statement.parse fns "x = y + half(9)" = .ok (.evaluate e) := by
    rw [Statement.parse, lexed]
    cbv
  obtain ⟨kept, -, listed⟩ := compile_kept fns e .empty
  obtain ⟨again, run, -⟩ := kept later reached
  obtain ⟨traced, -⟩ := listed t _ rfl made
  have size : later.size = 4 := by decide +kernel
  have fits : (compile fns e .empty).2.size ≤ later.cells.size := by decide +kernel
  have tree : (e.run fns 2 ((compile fns e .empty).2.withCells later.cells)).1 = .ok 24 := by
    decide +kernel
  have value : (p.run 2 later).1 = .ok ⟨#[24], #[]⟩ := by
    obtain ⟨cells, -, ran⟩ := run_compile 2 (.withCells _ fits)
    have ran : p.run 2 later = _ := ran
    rw [ran, tree]
    rfl
  refine ⟨reached, size ▸ again, run 2 ▸ value, made, ?_⟩
  have tree : "" ++ ("tree: " ++ e.text ++ "\n") = "tree: x y half((9)) + =\n" := by decide +kernel
  rw [traced]
  exact congrArg (· ++ p.listing) tree

end Reckon
