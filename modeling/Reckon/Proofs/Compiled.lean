import Reckon.Engine
import Reckon.Proofs.Linking
import Reckon.Proofs.Simulation

/-!
# Compiled programs

From the code of single expressions to whole programs. A call of a linked chunk has the result of a
call of its function, whatever the depth (`answers_of_linked`, by induction on the depth), so the run of
a compiled program is the run of its expression, on any table whose cells represent a scope
(`run_compile`).
-/

namespace Reckon

open Scope Machine

section Calls

variable {fns : FunctionTable} {chunks : ChunkTable} {layout scope : Scope} {cells : Cells}
  {m : Machine} {params : List String} {rs : List Register} {vs : List Int64}

/-- Binding arguments to the slots of parameters goes with assigning them to the parameters. -/
lemma bindArguments_represents (rep : Represents layout cells scope)
    (known : ∀ p ∈ params, p ∈ layout.names) (has : m.HasAll rs vs) :
    ∃ cells', bindArguments ((params.map layout.slot).zip rs) cells m = (.ok cells', m) ∧
      Represents layout cells' ((params.zip vs).foldl (fun s (n, v) => s.assign n v) scope) := by
  induction params generalizing cells scope rs vs with
  | nil => exact ⟨cells, rfl, rep⟩
  | cons p params ih =>
    cases has with
    | nil => exact ⟨cells, rfl, rep⟩
    | @cons r v rs vs has rest =>
      have mem : p ∈ layout.names := known p (by simp)
      have room := Nat.lt_of_lt_of_le (slot_lt mem) rep.fits
      obtain ⟨cells', bound, rep'⟩ :=
        ih (rep.assign mem v) (fun q mem => known q (by simp [mem])) rest
      refine ⟨cells', ?_, rep'⟩
      rw [List.map_cons, List.zip_cons_cons, bindArguments, Run.bind_apply, read_of_has has]
      simp only [if_pos room]
      exact bound

/-- The slots of an activation keep to the layout of the body, in which the parameters come first. -/
lemma continues_locals (names : List String) (scope : Scope) :
    Continues scope (names.foldl Scope.reserve scope) ∧
      ∀ n ∈ names, n ∈ (names.foldl Scope.reserve scope).names := by
  induction names generalizing scope with
  | nil => exact ⟨.refl scope, nofun⟩
  | cons n names ih =>
    obtain ⟨continues, known⟩ := ih (scope.reserve n)
    refine ⟨(continues_reserve scope n).trans continues, fun m mem => ?_⟩
    cases List.mem_cons.1 mem with
    | inl first =>
      subst first
      exact continues.mem (mem_names_reserve.2 (.inl rfl))
    | inr mem => exact known m mem

/-- A call has the result of the activation it enters, and leaves the machine as it was if that
prints and remarks nothing. -/
lemma call_of_enter {enter : Chunk → Run Machine Fault (Option Int64)} {f : String} {c : Chunk}
    {m' : Machine} {result : Except (Stop Fault) Int64} (found : chunks.find? f = some (f, c))
    (bound : bindArguments (c.params.zip rs) (Array.replicate c.slots none) m = (.ok cells, m))
    (ran : enter c { m with registers := Array.replicate c.registers 0, cells } =
      (result.map some, m'))
    (output : m'.output = m.output) (remarks : m'.remarks = m.remarks) :
    Machine.call chunks enter f rs m = (result, m) := by
  have restored : { m' with registers := m.registers, cells := m.cells } = m := by
    rw [output, remarks]
  have activated : activate (enter c) c.registers cells m = (result.map some, m) := by
    simp only [activate, ran, restored]
  simp only [Machine.call, found, Run.bind_apply, bound, activated]
  cases result <;> rfl

/-- The chunk of a function does what its body means. -/
lemma exec_chunk {call : Definition → List Int64 → Except (Stop Rejection) Int64}
    {enter : Chunk → Run Machine Fault (Option Int64)} {d : Definition}
    (answers : ∀ f ∈ (d.chunk fns).callees, Answers fns call chunks enter f)
    (rep : Represents (d.body.lower fns 0 0 d.locals).scope m.cells scope)
    (room : m.registers.size = (d.chunk fns).registers) (loops : Nat) :
    ∃ m', m'.output = m.output ∧ m'.remarks = m.remarks ∧
      (d.chunk fns).exec chunks enter loops 0 m =
        (((d.body.eval fns call scope).1.mapError (Stop.map .rejected)).map some, m') := by
  let A : Activation :=
    ⟨fns, call, chunks, enter, d.chunk fns, (d.body.lower fns 0 0 d.locals).scope, answers⟩
  have holds : A.chunk.Holds 0 ((d.body.lower fns 0 0 d.locals).code ++
      [.ret (d.body.lower fns 0 0 d.locals).result]) := .whole (d.chunk fns)
  obtain ⟨m', keeps, -, run⟩ := A.follows_lower d.body 0 0 d.locals m scope
    { holds := holds.left
      continues := .refl _
      registers := Nat.le_of_eq room.symm
      represents := rep }
  refine ⟨m', keeps.output, keeps.remarks, ?_⟩
  generalize d.body.eval fns call scope = outcome at run
  rcases outcome with ⟨e | v, s'⟩
  · exact run loops
  · obtain ⟨goes, has⟩ := run
    have here := holds.right
    rw [goes loops]
    apply Chunk.exec_finish here.lt
    rw [here.getElem]
    exact Instruction.exec_ret has

/-- The arguments of a call are bound in cells laid out for the body of its function. -/
lemma bindArguments_chunk (d : Definition) (has : m.HasAll rs vs) :
    ∃ cells, bindArguments ((d.chunk fns).params.zip rs)
        (Array.replicate (d.chunk fns).slots none) m = (.ok cells, m) ∧
      Represents (d.body.lower fns 0 0 d.locals).scope cells (ofArguments d.params vs) := by
  have body : Continues d.locals (d.body.lower fns 0 0 d.locals).scope :=
    (d.body.extends_lower 0 0 d.locals).continues
  obtain ⟨-, known⟩ := continues_locals d.params .empty
  have params : (d.chunk fns).params =
      d.params.map (d.body.lower fns 0 0 d.locals).scope.slot :=
    List.map_congr_left fun p mem => (body.slot_eq (known p mem)).symm
  rw [params]
  exact bindArguments_represents (.empty _) (fun p mem => body.mem (known p mem)) has

/-- A call of a linked chunk has the result of a call of its function, however deep calls may nest. -/
lemma answers_of_linked (linked : Linked fns [] chunks) (depth : Nat) {f : String}
    (there : (fns.find? f).isSome → chunks.contains f) :
    Answers fns (Definition.call fns depth) chunks (Chunk.run chunks depth) f := by
  induction depth generalizing f with
  | zero =>
    intro d found m rs vs has
    have chunk := linked.find?_eq (there (by rw [found]; rfl)) found
    obtain ⟨cells, bound, -⟩ := bindArguments_chunk d has
    exact call_of_enter chunk bound rfl rfl rfl
  | succ depth ih =>
    intro d found m rs vs has
    have chunk := linked.find?_eq (there (by rw [found]; rfl)) found
    obtain ⟨cells, bound, rep⟩ := bindArguments_chunk d has
    -- what the chunk calls is linked, so its calls have the right results one level down
    have answers : ∀ g ∈ (d.chunk fns).callees,
        Answers fns (Definition.call fns depth) chunks (Chunk.run chunks depth) g := by
      intro g called
      apply ih
      intro defined
      cases linked.covered chunk g called defined with
      | inl mem => cases mem
      | inr there => exact there
    let start : Machine := { m with registers := Array.replicate (d.chunk fns).registers 0, cells }
    obtain ⟨m', output, remarks, ran⟩ :=
      exec_chunk (m := start) answers rep Array.size_replicate depth
    exact call_of_enter chunk bound ran output remarks

end Calls

section Programs

variable {fns : FunctionTable} {e : Expr} {scope s table : Scope} {cells : Cells}

/-- The functions that the main chunk of a program calls are linked. -/
lemma answers_compile (fns : FunctionTable) (e : Expr) (scope : Scope) (depth : Nat) :
    ∀ f ∈ (compile fns e scope).1.main.callees,
      Answers fns (Definition.call fns depth) (compile fns e scope).1.functions
        (Chunk.run (compile fns e scope).1.functions depth) f :=
  fun _ called => answers_of_linked (linked_link (.empty _)) depth (contains_link_of_mem called)

/-- The main chunk of a program does what its expression means, on any cells that represent a scope,
and prints the value if there is one. -/
lemma finish_compile (depth : Nat) (rep : Represents (compile fns e scope).2 cells s) :
    ∃ m, Represents (compile fns e scope).2 m.cells (e.run fns depth s).2 ∧ m.remarks = #[] ∧
      match (e.run fns depth s).1 with
      | .ok v => (compile fns e scope).1.finish depth cells = (.ok none, m) ∧ m.output = #[v]
      | .error stop =>
        (compile fns e scope).1.finish depth cells = (.error (stop.map .rejected), m) := by
  let A : Activation := ⟨fns, Definition.call fns depth, (compile fns e scope).1.functions,
    Chunk.run (compile fns e scope).1.functions depth, (compile fns e scope).1.main,
    (compile fns e scope).2, answers_compile fns e scope depth⟩
  have holds : A.chunk.Holds 0 ((e.lower fns 0 0 scope).code ++
      [.print (e.lower fns 0 0 scope).result]) := .whole (compile fns e scope).1.main
  obtain ⟨m, keeps, rep', run⟩ := A.follows_lower e 0 0 scope
    ((compile fns e scope).1.start cells) s
    { holds := holds.left
      continues := .refl _
      registers := Nat.le_of_eq Array.size_replicate.symm
      represents := rep }
  have outcome : e.eval fns (Definition.call fns depth) s = e.run fns depth s := rfl
  rw [outcome] at rep' run
  generalize e.run fns depth s = outcome at rep' run
  rcases outcome with ⟨stop | v, s'⟩
  · exact ⟨m, rep', keeps.remarks, run depth⟩
  · obtain ⟨goes, has⟩ := run
    have here := holds.right
    have printed := goes.trans (Activation.goes_next here (Instruction.exec_print has))
    refine ⟨{ m with output := m.output.push v }, rep', keeps.remarks, ?_, ?_⟩
    · refine (printed depth).trans (Chunk.exec_outside ?_)
      have size : A.chunk.code.size = (e.lower A.fns 0 0 scope).code.length + 1 := by
        simp [A, compile]
      omega
    · exact congrArg (Array.push · v) keeps.output

/-- The run of a program, on any table whose cells represent a scope, has the result of the run of its
expression in that scope. -/
lemma run_compile (depth : Nat) (rep : Represents (compile fns e scope).2 table.cells s) :
    ∃ cells, Represents (compile fns e scope).2 cells (e.run fns depth s).2 ∧
      (compile fns e scope).1.run depth table =
        (((e.run fns depth s).1.mapError (Stop.map .rejected)).map fun v => ⟨#[v], #[]⟩,
          table.withCells cells) := by
  obtain ⟨m, rep', remarks, finish⟩ := finish_compile depth rep
  refine ⟨m.cells, rep', ?_⟩
  rw [Program.run_eq]
  generalize (e.run fns depth s).1 = result at finish
  cases result with
  | error stop =>
    rw [finish]
    rfl
  | ok v =>
    obtain ⟨finish, output⟩ := finish
    rw [finish, output, remarks]
    rfl

end Programs

end Reckon
