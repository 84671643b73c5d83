import Mathlib.Tactic.Lemma
import Reckon.Proofs.Linking
import Reckon.Proofs.Lowering

/-!
# Functions that a program reaches

A call of a function is lowered where it stands at a place that an engine can evaluate (`Expr.Calls`);
the functions that such calls lead to, from body to body, are reached (`FunctionTable.Reached`). A
program has the chunks of the functions that its expression reaches, and of no others.

* `Expr.mem_callees_lower_iff`, `Expr.fits_lower`: lowered code calls what the expression calls, with
  as many arguments as the function has parameters.
* `contains_link_iff`: linking adds the functions that are reached.
* `linkInDepth`: linking in another order, in which what a function calls is added before the function
  itself. The order makes no difference (`linkInDepth_eq_link`).
* `compile_linked`: the chunks of a program.
-/

namespace Reckon

/-- The expression calls the function at a place that is lowered: the call finds its function, which
takes as many arguments, and it stands neither in an assignment to something other than a variable nor
in a call that is itself refused. -/
inductive Expr.Calls (fns : FunctionTable) : Expr → String → Prop where
  | assign {x value f} : Calls fns value f → Calls fns (.assign (.var x) value) f
  | left {op left right f} : Calls fns left f → Calls fns (.binary op left right) f
  | right {op left right f} : Calls fns right f → Calls fns (.binary op left right) f
  | test {test whenTrue whenFalse f} : Calls fns test f → Calls fns (.cond test whenTrue whenFalse) f
  | whenTrue {test whenTrue whenFalse f} :
    Calls fns whenTrue f → Calls fns (.cond test whenTrue whenFalse) f
  | whenFalse {test whenTrue whenFalse f} :
    Calls fns whenFalse f → Calls fns (.cond test whenTrue whenFalse) f
  | call {f args d} : fns.find? f = some d → args.length = d.arity → Calls fns (.call f args) f
  | arg {f args d e g} : fns.find? f = some d → args.length = d.arity → e ∈ args → Calls fns e g →
    Calls fns (.call f args) g

/-- The functions that calls lead to from those in `start`, from body to body. -/
inductive FunctionTable.Reached (fns : FunctionTable) (start : String → Prop) : String → Prop where
  | start {f} : start f → Reached fns start f
  | body {f d g} : Reached fns start f → fns.find? f = some d → d.body.Calls fns g →
    Reached fns start g

/-- A call finds its function, which has as many parameters as the call gives arguments. -/
def Instruction.Fits (fns : FunctionTable) : Instruction → Prop
  | .call f args _ => ∃ d, fns.find? f = some d ∧ args.length = d.arity
  | _ => True

namespace Expr

variable {fns : FunctionTable} {f : String} {e : Expr}

/-- A function that is called at a lowered place is defined. -/
lemma Calls.defined (h : e.Calls fns f) : (fns.find? f).isSome := by
  induction h with
  | call found => exact Option.isSome_iff_exists.2 ⟨_, found⟩
  | assign _ ih | left _ ih | right _ ih | test _ ih | whenTrue _ ih | whenFalse _ ih => exact ih
  | arg _ _ _ _ ih => exact ih

/-- The calls of an operation are those of its operands. -/
lemma calls_binary_iff {op : Operator} {left right : Expr} :
    (binary op left right).Calls fns f ↔ left.Calls fns f ∨ right.Calls fns f := by
  refine ⟨fun h => ?_, fun h => h.elim .left .right⟩
  cases h with
  | left inside => exact .inl inside
  | right inside => exact .inr inside

/-- The calls of a conditional are those of its test and its arms. -/
lemma calls_cond_iff {test whenTrue whenFalse : Expr} :
    (cond test whenTrue whenFalse).Calls fns f ↔
      test.Calls fns f ∨ whenTrue.Calls fns f ∨ whenFalse.Calls fns f := by
  refine ⟨fun h => ?_, fun h => h.elim .test fun h => h.elim .whenTrue .whenFalse⟩
  cases h with
  | test inside => exact .inl inside
  | whenTrue inside => exact .inr (.inl inside)
  | whenFalse inside => exact .inr (.inr inside)

/-- The calls of an assignment to a variable are those of its right side. -/
lemma calls_assign_iff {x : String} {value : Expr} :
    (assign (var x) value).Calls fns f ↔ value.Calls fns f := by
  refine ⟨fun h => ?_, .assign⟩
  cases h with
  | assign inside => exact inside

/-- A call that fits calls its function and what its arguments call. -/
lemma calls_call_iff {g : String} {args : List Expr} {d : Definition} (found : fns.find? g = some d)
    (fits : args.length = d.arity) :
    (call g args).Calls fns f ↔ (∃ e ∈ args, e.Calls fns f) ∨ f = g := by
  constructor
  · intro h
    cases h with
    | call => exact .inr rfl
    | arg _ _ mem inside => exact .inl ⟨_, mem, inside⟩
  · rintro (⟨e, mem, inside⟩ | rfl)
    · exact .arg found fits mem inside
    · exact .call found fits

/-- A call that is lowered to its rejection calls nothing. -/
lemma not_calls_of_refused {g : String} {args : List Expr} {reason : Rejection}
    (refused : ∀ base next scope,
      (call g args).lower fns base next scope = .rejected reason next scope) :
    ¬(call g args).Calls fns f := by
  have misfit : ∀ d, fns.find? g = some d → args.length ≠ d.arity := by
    intro d found fits
    have code := congrArg Lowered.code
      ((lower_call found fits 0 0 .empty).symm.trans (refused 0 0 .empty))
    simp [Lowered.rejected, List.append_eq_singleton_iff] at code
  intro h
  cases h with
  | call found fits => exact misfit _ found fits
  | arg found fits => exact misfit _ found fits

/-- The code of arguments calls what the arguments call, if the code of each of them does. -/
lemma mem_callees_lowerArgs_iff {es : List Expr}
    (all : ∀ e ∈ es, ∀ base next scope,
      f ∈ (e.lower fns base next scope).code.filterMap Instruction.callee? ↔ e.Calls fns f)
    (base : Nat) (next : Register) (scope : Scope) :
    f ∈ (lowerArgs fns es base next scope).code.filterMap Instruction.callee? ↔
      ∃ e ∈ es, e.Calls fns f := by
  induction es generalizing base next scope with
  | nil => simp [lowerArgs]
  | cons e es ih =>
    simp only [lowerArgs, List.filterMap_append, List.mem_append, List.exists_mem_cons_iff]
    rw [all e (by simp), ih fun e mem => all e (by simp [mem])]

/-- The code of an expression calls the functions that the expression calls. -/
lemma mem_callees_lower_iff (e : Expr) : ∀ base next scope,
    f ∈ (e.lower fns base next scope).code.filterMap Instruction.callee? ↔ e.Calls fns f := by
  induction e using Expr.induction with
  | lit v => exact fun _ _ _ => iff_of_false List.not_mem_nil (by rintro ⟨⟩)
  | var x => exact fun _ _ _ => iff_of_false List.not_mem_nil (by rintro ⟨⟩)
  | assign target value _ ih =>
    intro base next scope
    cases target with
    | var x =>
      rw [calls_assign_iff, ← ih base next scope, lower, List.filterMap_append]
      exact List.mem_append.trans (or_iff_left List.not_mem_nil)
    | _ => exact iff_of_false List.not_mem_nil (by rintro ⟨⟩)
  | binary op left right ihl ihr =>
    intro base next scope
    rw [calls_binary_iff, lower, List.filterMap_append, List.filterMap_append, List.mem_append,
      List.mem_append, ihl, ihr]
    exact or_iff_left List.not_mem_nil
  | cond test whenTrue whenFalse iht iha ihb =>
    intro base next scope
    rw [lower, Instruction.filterMap_cond (fun _ _ => rfl) (fun _ => rfl) (fun _ _ => rfl), List.mem_append,
      List.mem_append, iht, iha, ihb, or_assoc, calls_cond_iff]
  | call g args ih =>
    intro base next scope
    cases lower_call_cases fns g args with
    | inl entered =>
      obtain ⟨d, found, fits⟩ := entered
      rw [lower_call found fits, List.filterMap_append, List.mem_append, mem_callees_lowerArgs_iff ih,
        calls_call_iff found fits]
      exact or_congr_right List.mem_singleton
    | inr refused =>
      obtain ⟨reason, -, lowered⟩ := refused
      rw [lowered]
      exact iff_of_false List.not_mem_nil (not_calls_of_refused lowered)

/-- Arguments are computed into as many registers. -/
lemma length_result_lowerArgs (es : List Expr) (base : Nat) (next : Register) (scope : Scope) :
    (lowerArgs fns es base next scope).result.length = es.length := by
  induction es generalizing base next scope with
  | nil => rfl
  | cons e es ih => exact congrArg (· + 1) (ih _ _ _)

/-- The calls in the code of arguments fit, if those in the code of each of them do. -/
lemma fits_lowerArgs {es : List Expr}
    (all : ∀ e ∈ es, ∀ base next scope, ∀ i ∈ (e.lower fns base next scope).code, i.Fits fns)
    (base : Nat) (next : Register) (scope : Scope) :
    ∀ i ∈ (lowerArgs fns es base next scope).code, i.Fits fns := by
  induction es generalizing base next scope with
  | nil => exact nofun
  | cons e es ih =>
    have others := ih fun e mem => all e (by simp [mem])
    exact List.forall_mem_append.2 ⟨all e (by simp) _ _ _, others _ _ _⟩

/-- The calls in the code of an expression find their functions and give them as many arguments as
they take. -/
lemma fits_lower (e : Expr) : ∀ base next scope,
    ∀ i ∈ (e.lower fns base next scope).code, i.Fits fns := by
  induction e using Expr.induction with
  | lit v => exact fun _ _ _ => List.forall_mem_singleton.2 trivial
  | var x => exact fun _ _ _ => List.forall_mem_singleton.2 trivial
  | assign target value _ ih =>
    intro base next scope
    cases target with
    | var x => exact List.forall_mem_append.2 ⟨ih _ _ _, List.forall_mem_singleton.2 trivial⟩
    | _ => exact List.forall_mem_singleton.2 trivial
  | binary op left right ihl ihr =>
    intro base next scope
    simp only [lower, List.forall_mem_append]
    exact ⟨⟨ihl _ _ _, ihr _ _ _⟩, List.forall_mem_singleton.2 trivial⟩
  | cond test whenTrue whenFalse iht iha ihb =>
    intro base next scope
    simp only [lower, List.forall_mem_append]
    refine ⟨⟨⟨⟨⟨iht _ _ _, ?_⟩, iha _ _ _⟩, ?_⟩, ihb _ _ _⟩, ?_⟩
    · exact List.forall_mem_singleton.2 trivial
    · exact List.forall_mem_cons.2 ⟨trivial, List.forall_mem_singleton.2 trivial⟩
    · exact List.forall_mem_singleton.2 trivial
  | call g args ih =>
    intro base next scope
    cases lower_call_cases fns g args with
    | inl entered =>
      obtain ⟨d, found, fits⟩ := entered
      rw [lower_call found fits]
      have here : args.length = (lowerArgs fns args base next scope).result.length :=
        (length_result_lowerArgs args _ _ _).symm
      exact List.forall_mem_append.2
        ⟨fits_lowerArgs ih _ _ _, List.forall_mem_singleton.2 ⟨d, found, here ▸ fits⟩⟩
    | inr refused =>
      obtain ⟨reason, -, lowered⟩ := refused
      rw [lowered]
      exact List.forall_mem_singleton.2 trivial

end Expr

section Link

variable {fns : FunctionTable} {todo pending : List String} {linked : ChunkTable} {f g : String}
  {d : Definition} {start : String → Prop}

/-- The chunk of a function calls what its body calls. -/
lemma mem_callees_chunk_iff : g ∈ (d.chunk fns).callees ↔ d.body.Calls fns g := by
  simp only [Chunk.callees, Definition.chunk, List.filterMap_append, List.mem_append]
  rw [Expr.mem_callees_lower_iff]
  exact or_iff_left (by rintro ⟨⟩)

/-- Linking adds only functions that are reached. -/
lemma reached_of_contains_link (todos : ∀ f ∈ todo, fns.Reached start f)
    (links : ∀ f, linked.contains f → fns.Reached start f) (h : (link fns todo linked).contains f) :
    fns.Reached start f := by
  fun_induction link fns todo linked with
  | case1 => exact links f h
  | case2 linked g rest there ih => exact ih (fun f mem => todos f (by simp [mem])) links h
  | case3 linked g rest fresh found ih => exact ih (fun f mem => todos f (by simp [mem])) links h
  | case4 linked g rest fresh d found _ ih =>
    obtain ⟨first, others⟩ := List.forall_mem_cons.1 todos
    have callees : ∀ f ∈ (d.chunk fns).callees, fns.Reached start f := fun f called =>
      .body first found (mem_callees_chunk_iff.1 called)
    apply ih (List.forall_mem_append.2 ⟨callees, others⟩) _ h
    · intro f there
      cases Catalogue.contains_insert.1 there with
      | inl same => exact same ▸ first
      | inr there => exact links f there

/-- A table that leaves nothing to be linked has all functions that are reached from its own. -/
lemma Linked.contains_of_reached (h : Linked fns [] linked) (starts : ∀ f, start f → linked.contains f)
    (reached : fns.Reached start f) : linked.contains f := by
  induction reached with
  | start first => exact starts _ first
  | body _ found called ih =>
    cases h.covered (h.find?_eq ih found) _ (mem_callees_chunk_iff.2 called) called.defined with
    | inl mem => cases mem
    | inr there => exact there

/-- Linking adds exactly the functions that are reached from defined ones. -/
lemma contains_link_iff (defined : ∀ f ∈ todo, (fns.find? f).isSome) :
    (link fns todo .empty).contains f ↔ fns.Reached (· ∈ todo) f := by
  refine ⟨reached_of_contains_link (fun f mem => .start mem) nofun, fun reached => ?_⟩
  exact (linked_link (.empty todo)).contains_of_reached
    (fun f mem => contains_link_of_mem mem (defined f mem)) reached

end Link

section Depth

/-- Number of functions that are not pending. -/
def idle (fns : FunctionTable) (pending : List String) : Nat :=
  fns.entries.countP fun d => decide (d.name ∉ pending)

variable {fns : FunctionTable} {todo pending : List String} {linked : ChunkTable} {f g : String}
  {d : Definition} {start : String → Prop}

/-- A function that becomes pending leaves fewer that are not. -/
lemma idle_cons (fresh : f ∉ pending) (found : fns.find? f = some d) :
    idle fns (f :: pending) < idle fns pending := by
  have name : d.name = f := Catalogue.name_of_find? found
  apply countP_lt (a := d) (by simpa [name] using fresh) (by simp [name])
    (List.mem_of_find?_eq_some found)
  intro x _ other
  exact decide_eq_true fun mem => of_decide_eq_true other (List.mem_cons_of_mem f mem)

/-- Adds the chunks of the functions in `todo` depth first: those that a function calls before its own.
While they are added, the function is `pending` and not entered again. -/
def linkInDepth (fns : FunctionTable) (pending todo : List String) (linked : ChunkTable) : ChunkTable :=
  match todo with
  | [] => linked
  | f :: rest =>
    if done : linked.contains f ∨ f ∈ pending then linkInDepth fns pending rest linked
    else match found : fns.find? f with
      | none => linkInDepth fns pending rest linked
      | some d =>
        have := idle_cons (fun mem => done (.inr mem)) found
        let below := linkInDepth fns (f :: pending) (d.chunk fns).callees linked
        linkInDepth fns pending rest (below.insert (f, d.chunk fns))
termination_by (idle fns pending, todo.length)

/-- Linking depth first keeps what is linked, and leaves out only what is pending or not defined. -/
lemma contains_linkInDepth :
    (∀ g, linked.contains g → (linkInDepth fns pending todo linked).contains g) ∧
      ∀ g ∈ todo, (fns.find? g).isSome →
        g ∈ pending ∨ (linkInDepth fns pending todo linked).contains g := by
  fun_induction linkInDepth fns pending todo linked with
  | case1 => exact ⟨fun _ there => there, nofun⟩
  | case2 pending linked f rest done ih =>
    obtain ⟨kept, added⟩ := ih
    refine ⟨kept, List.forall_mem_cons.2 ⟨fun _ => ?_, added⟩⟩
    exact done.symm.imp id (kept f)
  | case3 pending linked f rest done found ih =>
    obtain ⟨kept, added⟩ := ih
    refine ⟨kept, List.forall_mem_cons.2 ⟨fun defined => ?_, added⟩⟩
    rw [found] at defined
    cases defined
  | case4 pending linked f rest done d found _ below ih₁ ih₂ =>
    obtain ⟨kept, added⟩ := ih₂
    refine ⟨fun g there => ?_, List.forall_mem_cons.2 ⟨fun _ => ?_, added⟩⟩
    · exact kept g (Catalogue.contains_insert.2 (.inr (ih₁.1 g there)))
    · exact .inr (kept f (Catalogue.contains_insert.2 (.inl rfl)))

/-- What linking depth first leaves out is pending. -/
lemma linked_linkInDepth (h : Linked fns pending linked) :
    Linked fns pending (linkInDepth fns pending todo linked) := by
  fun_induction linkInDepth fns pending todo linked with
  | case1 => exact h
  | case2 pending linked f rest done ih => exact ih h
  | case3 pending linked f rest done found ih => exact ih h
  | case4 pending linked f rest done d found _ below ih₁ ih₂ =>
    apply ih₂
    have entered : Linked fns (f :: pending) below :=
      ih₁ (h.settle fun g mem _ => .inl (List.mem_cons_of_mem f mem))
    -- the functions that were skipped while `f` was pending find its chunk now
    apply (entered.insert found).settle
    refine List.forall_mem_append.2 ⟨fun g called defined => ?_, fun g mem _ => .inl mem⟩
    rw [Catalogue.contains_insert]
    cases contains_linkInDepth.2 g called defined with
    | inl mem =>
      cases List.mem_cons.1 mem with
      | inl same => exact .inr (.inl same.symm)
      | inr mem => exact .inl mem
    | inr there => exact .inr (.inr there)

/-- Linking depth first adds only functions that are reached. -/
lemma reached_of_contains_linkInDepth (todos : ∀ f ∈ todo, fns.Reached start f)
    (links : ∀ f, linked.contains f → fns.Reached start f) :
    ∀ f, (linkInDepth fns pending todo linked).contains f → fns.Reached start f := by
  fun_induction linkInDepth fns pending todo linked with
  | case1 => exact links
  | case2 pending linked g rest done ih => exact ih (fun f mem => todos f (by simp [mem])) links
  | case3 pending linked g rest done found ih =>
    exact ih (fun f mem => todos f (by simp [mem])) links
  | case4 pending linked g rest done d found _ below ih₁ ih₂ =>
    obtain ⟨first, others⟩ := List.forall_mem_cons.1 todos
    have callees : ∀ f ∈ (d.chunk fns).callees, fns.Reached start f := fun f called =>
      .body first found (mem_callees_chunk_iff.1 called)
    apply ih₂ others
    intro f there
    cases Catalogue.contains_insert.1 there with
    | inl same => exact same ▸ first
    | inr there => exact ih₁ callees links f there

/-- Linking depth first adds exactly the functions that are reached from defined ones. -/
lemma contains_linkInDepth_iff (defined : ∀ f ∈ todo, (fns.find? f).isSome) :
    (linkInDepth fns [] todo .empty).contains f ↔ fns.Reached (· ∈ todo) f := by
  refine ⟨fun there => ?_, fun reached => ?_⟩
  · apply reached_of_contains_linkInDepth (fun f mem => .start mem) _ f there
    exact nofun
  · apply (linked_linkInDepth (.empty [])).contains_of_reached _ reached
    intro f mem
    exact (contains_linkInDepth.2 f mem (defined f mem)).resolve_left nofun

/-- Tables that leave nothing to be linked are equal if they have the same functions. -/
lemma Linked.ext {other : ChunkTable} (h : Linked fns [] linked) (h' : Linked fns [] other)
    (same : ∀ f, linked.contains f ↔ other.contains f) : linked = other := by
  apply Catalogue.ext_find?
  intro f
  by_cases there : linked.contains f
  · obtain ⟨entry, here⟩ := Option.isSome_iff_exists.1 there
    obtain ⟨d, found, rfl⟩ := h.own here
    rw [here, h'.find?_eq ((same f).1 there) found]
  · have absent := (same f).not.1 there
    rw [Catalogue.contains, Option.not_isSome_iff_eq_none] at there absent
    rw [there, absent]

/-- The order in which functions are linked makes no difference. -/
lemma linkInDepth_eq_link (defined : ∀ f ∈ todo, (fns.find? f).isSome) :
    linkInDepth fns [] todo .empty = link fns todo .empty := by
  apply (linked_linkInDepth (.empty [])).ext (linked_link (.empty todo))
  intro f
  rw [contains_linkInDepth_iff defined, contains_link_iff defined]

end Depth

section Programs

variable {fns : FunctionTable} {e : Expr} {scope : Scope} {f g : String} {c : Chunk}

/-- The chunks of a program. -/
def Program.chunks (p : Program) : List Chunk := p.main :: p.functions.entries.map Prod.snd

/-- The main chunk of a program calls what its expression calls. -/
lemma mem_callees_main_iff : f ∈ (compile fns e scope).1.main.callees ↔ e.Calls fns f := by
  simp only [Chunk.callees, compile, List.filterMap_append, List.mem_append]
  rw [Expr.mem_callees_lower_iff]
  exact or_iff_left (by rintro ⟨⟩)

/-- The functions of a program are those that its expression reaches. -/
lemma contains_compile_iff :
    (compile fns e scope).1.functions.contains f ↔ fns.Reached (e.Calls fns) f := by
  have callees : (· ∈ (compile fns e scope).1.main.callees) = e.Calls fns :=
    funext fun f => propext mem_callees_main_iff
  rw [← callees]
  exact contains_link_iff fun f mem => (mem_callees_main_iff.1 mem).defined

/-- Nothing is left to be linked in a program. -/
lemma linked_compile (fns : FunctionTable) (e : Expr) (scope : Scope) :
    Linked fns [] (compile fns e scope).1.functions :=
  linked_link (.empty _)

/-- A chunk of a program is its main chunk or that of a function that is reached. -/
lemma chunk_cases (mem : c ∈ (compile fns e scope).1.chunks) :
    c = (compile fns e scope).1.main ∨
      ∃ f d, fns.Reached (e.Calls fns) f ∧ fns.find? f = some d ∧ c = d.chunk fns := by
  rcases List.mem_cons.1 mem with main | mem
  · exact .inl main
  · obtain ⟨⟨f, c⟩, entry, rfl⟩ := List.mem_map.1 mem
    have here := Catalogue.mem_entries_iff.1 entry
    obtain ⟨d, found, same⟩ := (linked_compile fns e scope).own here
    cases same
    have there : (compile fns e scope).1.functions.contains f := Option.isSome_iff_exists.2 ⟨_, here⟩
    exact .inr ⟨f, d, contains_compile_iff.1 there, found, rfl⟩

/-- The instructions of all chunks of a program fit the functions. -/
lemma fits_of_mem_chunks (mem : c ∈ (compile fns e scope).1.chunks) :
    ∀ i ∈ c.code.toList, i.Fits fns := by
  cases chunk_cases mem with
  | inl main =>
    subst main
    exact List.forall_mem_append.2 ⟨e.fits_lower 0 0 scope, List.forall_mem_singleton.2 trivial⟩
  | inr function =>
    obtain ⟨f, d, -, -, rfl⟩ := function
    exact List.forall_mem_append.2
      ⟨d.body.fits_lower 0 0 d.locals, List.forall_mem_singleton.2 trivial⟩

/-- What a chunk of a program calls is reached. -/
lemma reached_of_mem_callees (mem : c ∈ (compile fns e scope).1.chunks) (called : g ∈ c.callees) :
    fns.Reached (e.Calls fns) g := by
  cases chunk_cases mem with
  | inl main =>
    subst main
    exact .start (mem_callees_main_iff.1 called)
  | inr function =>
    obtain ⟨f, d, reached, found, rfl⟩ := function
    exact .body reached found (mem_callees_chunk_iff.1 called)

/-- The functions of a program are linked. Every expression has a program, with any table of variables
and any functions, and the program has chunks for exactly the functions that the expression reaches
through calls that are lowered. Each chunk is kept under its own name, and each call in a chunk names
one of them and gives as many arguments as it has parameters. In every program over the same functions,
a function has the same chunk; and linking depth first, where a function that is being entered again is
skipped, comes to the same table. -/
theorem compile_linked (fns : FunctionTable) (e : Expr) (scope : Scope) :
    let p := (compile fns e scope).1
    (∀ f, p.functions.contains f ↔ fns.Reached (e.Calls fns) f) ∧
    (∀ f entry, p.functions.find? f = some entry → entry.2.name = f) ∧
    (∀ c ∈ p.chunks, ∀ g args dst, .call g args dst ∈ c.code →
      ∃ callee, p.functions.find? g = some (g, callee) ∧ args.length = callee.params.length) ∧
    (∀ e' scope' f entry entry', p.functions.find? f = some entry →
      (compile fns e' scope').1.functions.find? f = some entry' → entry = entry') ∧
    p.functions = linkInDepth fns [] p.main.callees .empty := by
  intro p
  have linked : Linked fns [] p.functions := linked_compile fns e scope
  refine ⟨fun f => contains_compile_iff, ?_, ?_, ?_, ?_⟩
  · intro f entry here
    obtain ⟨d, found, rfl⟩ := linked.own here
    have name : d.name = f := Catalogue.name_of_find? found
    exact name
  · intro c mem g args dst call
    obtain ⟨d, found, fits⟩ := fits_of_mem_chunks mem _ (Array.mem_toList_iff.2 call)
    have called : g ∈ c.callees :=
      List.mem_filterMap.2 ⟨.call g args dst, Array.mem_toList_iff.2 call, rfl⟩
    have there : p.functions.contains g :=
      contains_compile_iff.2 (reached_of_mem_callees mem called)
    refine ⟨d.chunk fns, linked.find?_eq there found, ?_⟩
    calc args.length
      _ = d.params.length := fits
      _ = (d.chunk fns).params.length := (List.length_map _).symm
  · intro e' scope' f entry entry' here here'
    obtain ⟨d, found, rfl⟩ := linked.own here
    obtain ⟨d', found', rfl⟩ := (linked_compile fns e' scope').own here'
    cases found.symm.trans found'
    rfl
  · exact (linkInDepth_eq_link fun f mem => (mem_callees_main_iff.1 mem).defined).symm

/-- Two functions that call each other. From either of them both are reached, and each has the same
chunk in the program of the one as in that of the other. -/
theorem compile_linked_mutual :
    let less : Expr := .binary .sub (.var "n") (.lit 1)
    let even : Definition := ⟨"even", ["n"], .cond (.var "n") (.call "odd" [less]) (.lit 1)⟩
    let odd : Definition := ⟨"odd", ["n"], .cond (.var "n") (.call "even" [less]) (.lit 0)⟩
    let fns : FunctionTable := (Catalogue.empty.insert even).insert odd
    let p := (compile fns (.call "even" [.lit 4]) .empty).1
    let q := (compile fns (.call "odd" [.var "x"]) .empty).1
    .call "even" [0] 1 ∈ p.main.code ∧
      (∃ callee, p.functions.find? "even" = some ("even", callee) ∧ callee.params.length = 1) ∧
      ∃ entry, p.functions.find? "odd" = some entry ∧ q.functions.find? "odd" = some entry ∧
        entry.2.name = "odd" := by
  intro less even odd fns p q
  have evenFound : fns.find? "even" = some even := by
    rw [Catalogue.find?_insert_of_ne _ (by decide)]
    exact Catalogue.find?_insert_self even _
  have oddFound : fns.find? "odd" = some odd := Catalogue.find?_insert_self odd _
  obtain ⟨keys, own, calls, same, -⟩ := compile_linked fns (.call "even" [.lit 4]) .empty
  obtain ⟨others, -⟩ := compile_linked fns (.call "odd" [.var "x"]) .empty
  have call : .call "even" [0] 1 ∈ p.main.code := by decide +kernel
  obtain ⟨callee, here, fits⟩ := calls p.main (List.mem_cons_self ..) "even" [0] 1 call
  -- the body of the one calls the other
  have reached := (keys "odd").2 (.body (.start (.call evenFound rfl)) evenFound
    (.whenTrue (.call oddFound rfl)))
  have reached' := (others "odd").2 (.start (.call oddFound rfl))
  obtain ⟨entry, found⟩ := Option.isSome_iff_exists.1 reached
  obtain ⟨entry', found'⟩ := Option.isSome_iff_exists.1 reached'
  have eq := same _ _ "odd" entry entry' found found'
  exact ⟨call, ⟨callee, here, fits.symm⟩, entry, found, eq ▸ found', own "odd" entry found⟩

end Programs

end Reckon
