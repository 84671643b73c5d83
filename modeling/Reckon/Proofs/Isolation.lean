import Reckon.Proofs.Frame
import Reckon.Proofs.Reached

/-!
# Isolation of calls

A call knows its arguments and nothing else of where it is made, and where it is made nothing of it is
seen but its result.

* `Engine.evaluateEach`: the arguments of a call as evaluations of their own, one after another.
* `Definition.Comes`: the result that a function comes to for given arguments, however deep its calls
  have to nest. Neither the place of the call nor an engine is mentioned.
* `Engine.evaluate_call`: to evaluate a call is to evaluate its arguments and to show that result.
* `calls_isolated`: the same for each place where a call can be made, and what a call starts with.
-/

namespace Reckon

open Run Scope Machine

/-- How an ending of a call or of the run of a tree shows on an engine. -/
def Engine.shows (engine : Engine) (ending : Except (Stop Rejection) Int64) :
    Except (Stop EvalError) Evaluation :=
  (ending.mapError (Stop.map engine.refusal)).map fun v => ⟨v, #[]⟩

/-- The arguments of a call, evaluated on an engine one after another. -/
def Engine.evaluateEach (engine : Engine) (fns : FunctionTable) (depth : Nat) :
    List Expr → Run Scope EvalError (List Int64)
  | [] => pure []
  | e :: es => do
    let first ← engine.evaluate fns depth e
    let others ← engine.evaluateEach fns depth es
    return first.value :: others

/-- With enough depth, the function comes to this ending for these arguments. -/
def Definition.Comes (fns : FunctionTable) (d : Definition) (vs : List Int64)
    (ending : Except (Stop Rejection) Int64) : Prop :=
  ending ≠ .error .exhausted ∧ ∃ depth, d.call fns depth vs = ending

namespace Expr

variable {fns : FunctionTable}

/-- Which names arguments get slots for does not depend on where their code stands, if it does not for
each of them. -/
lemma names_lowerArgs_congr {es : List Expr}
    (all : ∀ e ∈ es, ∀ base next scope base' next' scope', scope.names = scope'.names →
      (e.lower fns base next scope).scope.names = (e.lower fns base' next' scope').scope.names)
    (base : Nat) (next : Register) (scope : Scope) (base' : Nat) (next' : Register)
    (scope' : Scope) (same : scope.names = scope'.names) :
    (lowerArgs fns es base next scope).scope.names =
      (lowerArgs fns es base' next' scope').scope.names := by
  induction es generalizing base next scope base' next' scope' with
  | nil => exact same
  | cons e es ih =>
    obtain ⟨first, others⟩ := List.forall_mem_cons.1 all
    exact ih others _ _ _ _ _ _ (first _ _ _ _ _ _ same)

/-- Which slots an expression takes depends on the names that have slots, and neither on the place of
its code nor on any value. -/
lemma names_lower_congr (e : Expr) : ∀ base next scope base' next' scope',
    scope.names = scope'.names →
      (e.lower fns base next scope).scope.names = (e.lower fns base' next' scope').scope.names := by
  have reserved : ∀ (s t : Scope) x, s.names = t.names → (s.reserve x).names = (t.reserve x).names :=
    fun s t x same => by rw [names_reserve, names_reserve, same]
  induction e using Expr.induction with
  | lit v => exact fun _ _ _ _ _ _ same => same
  | var x => exact fun _ _ _ _ _ _ same => reserved _ _ x same
  | assign target value _ ih =>
    intro base next scope base' next' scope' same
    cases target with
    | var x => exact reserved _ _ x (ih base next scope base' next' scope' same)
    | _ => exact same
  | binary op left right ihl ihr =>
    intro base next scope base' next' scope' same
    exact ihr _ _ _ _ _ _ (ihl _ _ _ _ _ _ same)
  | cond test whenTrue whenFalse iht iha ihb =>
    intro base next scope base' next' scope' same
    exact ihb _ _ _ _ _ _ (iha _ _ _ _ _ _ (iht _ _ _ _ _ _ same))
  | call f args ih =>
    intro base next scope base' next' scope' same
    cases lower_call_cases fns f args with
    | inl entered =>
      obtain ⟨d, found, fits⟩ := entered
      rw [lower_call found fits, lower_call found fits]
      exact names_lowerArgs_congr ih base next scope base' next' scope' same
    | inr refused =>
      obtain ⟨reason, -, lowered⟩ := refused
      rw [lowered, lowered]
      exact same

end Expr

section Engines

variable {fns : FunctionTable} {engine : Engine} {f : String} {d : Definition} {e : Expr}
  {args es : List Expr} {s G : Scope} {vs : List Int64} {depth : Nat}

/-- A run of the tree of a call is the run of the arguments, and then the call. -/
lemma Expr.run_call (found : fns.find? f = some d) (fits : args.length = d.arity)
    (given : Expr.evalArgs fns (Definition.call fns depth) args s = (.ok vs, G)) :
    (Expr.call f args).run fns depth s = (d.call fns depth vs, G) := by
  rw [Expr.run, Expr.eval_call found fits, Run.bind_apply, given]
  rfl

/-- A value on an engine is that of the tree. -/
lemma Engine.run_of_evaluate {x : Evaluation} (ran : engine.evaluate fns depth e s = (.ok x, G)) :
    ∃ t, e.run fns depth s = (.ok x.value, t) ∧ ∀ n, G.get? n = t.get? n := by
  obtain ⟨after, same, eq⟩ := engine.evaluate_eq fns depth e s
  rw [eq] at ran
  rcases run : e.run fns depth s with ⟨stop | v, t⟩
  · rw [run] at ran
    cases ran
  · rw [run] at ran same
    cases ran
    exact ⟨t, rfl, same⟩

/-- Arguments come to values on an engine if the first does, and the others in the scope that it
left. -/
lemma Engine.evaluateEach_cons
    (given : engine.evaluateEach fns depth (e :: es) s = (.ok vs, G)) :
    ∃ x t others, engine.evaluate fns depth e s = (.ok x, t) ∧
      engine.evaluateEach fns depth es t = (.ok others, G) ∧ vs = x.value :: others := by
  obtain ⟨x, t, first, given⟩ := Run.bind_eq_ok_iff.1 given
  obtain ⟨others, _, rest, last⟩ := Run.bind_eq_ok_iff.1 given
  cases last
  exact ⟨x, t, others, first, rest, rfl⟩

/-- So they do on the tree. -/
lemma Expr.evalArgs_cons {v : Int64} {t : Scope} (first : e.run fns depth s = (.ok v, t))
    (rest : Expr.evalArgs fns (Definition.call fns depth) es t = (.ok vs, G)) :
    Expr.evalArgs fns (Definition.call fns depth) (e :: es) s = (.ok (v :: vs), G) :=
  Run.bind_eq_ok_iff.2 ⟨v, t, first, Run.bind_eq_ok_iff.2 ⟨vs, G, rest, rfl⟩⟩

/-- Arguments evaluated on an engine one after another have the values that they have on the tree, and
leave the same values under all names. -/
lemma Engine.evalArgs_of_evaluateEach (given : engine.evaluateEach fns depth es s = (.ok vs, G)) :
    ∃ t, Expr.evalArgs fns (Definition.call fns depth) es s = (.ok vs, t) ∧
      ∀ n, G.get? n = t.get? n := by
  induction es generalizing s vs with
  | nil =>
    cases given
    exact ⟨G, rfl, fun _ => rfl⟩
  | cons e es ih =>
    obtain ⟨x, s₁, others, first, rest, rfl⟩ := Engine.evaluateEach_cons given
    obtain ⟨t₁, first, same₁⟩ := Engine.run_of_evaluate first
    obtain ⟨t, rest, same⟩ := ih rest
    -- the tree goes on from a scope with the same values, and cannot tell it from that of the engine
    have agree : Match _ (Expr.evalArgs fns (Definition.call fns depth) es s₁)
        (Expr.evalArgs fns (Definition.call fns depth) es t₁) :=
      Expr.evalArgs_respects (fun e _ => e.eval_respects respected_get?) s₁ t₁ same₁
    rw [rest] at agree
    obtain ⟨result, left⟩ := agree
    generalize ran : Expr.evalArgs fns (Definition.call fns depth) es t₁ = ending at result left
    obtain ⟨r, t'⟩ := ending
    cases result
    exact ⟨t', Expr.evalArgs_cons first ran, fun n => (same n).trans (left n)⟩

/-- The interpreter leaves the very scope that the tree leaves. -/
lemma Engine.evalArgs_of_interpreter
    (given : Engine.interpreter.evaluateEach fns depth es s = (.ok vs, G)) :
    Expr.evalArgs fns (Definition.call fns depth) es s = (.ok vs, G) := by
  induction es generalizing s vs with
  | nil =>
    cases given
    rfl
  | cons e es ih =>
    obtain ⟨x, s₁, others, first, rest, rfl⟩ := Engine.evaluateEach_cons given
    obtain ⟨t₁, ran, -⟩ := Engine.run_of_evaluate first
    have left : s₁ = t₁ := by
      have after := evaluate_interpreter_snd fns depth e s
      rwa [first, ran] at after
    subst left
    exact Expr.evalArgs_cons ran (ih rest)

/-- The machine gives slots to the names in the arguments as the code of the call does. -/
lemma Engine.names_evaluateEach (given : Engine.vm.evaluateEach fns depth es s = (.ok vs, G)) :
    G.names = (Expr.lowerArgs fns es 0 0 s).scope.names := by
  induction es generalizing s vs with
  | nil =>
    cases given
    rfl
  | cons e es ih =>
    obtain ⟨x, s₁, others, first, rest, rfl⟩ := Engine.evaluateEach_cons given
    have names : s₁.names = (e.lower fns 0 0 s).scope.names := by
      have after := evaluate_vm_snd fns depth e s
      rw [first] at after
      rw [show s₁ = _ from after]
      exact names_withCells _ _
    exact (ih rest).trans
      (Expr.names_lowerArgs_congr (fun e _ => e.names_lower_congr) _ _ _ _ _ _ names)

/-- An engine shows what the tree comes to and leaves a given scope, if this has the values that the tree
leaves and is what the interpreter leaves, or has the names that the machine comes to. -/
lemma Engine.evaluate_of_run {ending : Except (Stop Rejection) Int64} {t : Scope}
    (ran : e.run fns depth s = (ending, t)) (values : ∀ n, G.get? n = t.get? n)
    (exactly : engine = .interpreter → t = G)
    (names : engine = .vm → G.names = (e.lower fns 0 0 s).scope.names) :
    engine.evaluate fns depth e s = (engine.shows ending, G) := by
  obtain ⟨after, same, eq⟩ := engine.evaluate_eq fns depth e s
  rw [ran] at same eq
  have left : after = G := by
    cases engine with
    | interpreter =>
      have snd := evaluate_interpreter_snd fns depth e s
      rw [eq, ran] at snd
      exact Eq.trans snd (exactly rfl)
    | vm =>
      have snd := evaluate_vm_snd fns depth e s
      rw [eq] at snd
      have compiled : after.names = (e.lower fns 0 0 s).scope.names := by
        rw [show after = _ from snd]
        exact names_withCells _ _
      exact ext_get? (compiled.trans (names rfl).symm) fun n => (same n).trans (values n).symm
  rw [eq, left]
  rfl

/-- To evaluate a call is to evaluate its arguments and to show what the function comes to for their
values. The call changes nothing in the scope that the arguments left. -/
lemma Engine.evaluate_call (found : fns.find? f = some d) (fits : args.length = d.arity)
    (given : engine.evaluateEach fns depth args s = (.ok vs, G)) :
    engine.evaluate fns depth (.call f args) s = (engine.shows (d.call fns depth vs), G) := by
  obtain ⟨t, values, left⟩ := Engine.evalArgs_of_evaluateEach given
  refine Engine.evaluate_of_run (Expr.run_call found fits values) left ?_ ?_
  · rintro rfl
    have exactly := Engine.evalArgs_of_interpreter given
    rw [values] at exactly
    exact congrArg Prod.snd exactly
  · rintro rfl
    rw [Engine.names_evaluateEach given, Expr.lower_call found fits]

/-- The depth of evaluations one after another is only a bound. -/
lemma Engine.evaluateEach_deepening (fns : FunctionTable) (es : List Expr) (engine : Engine) :
    Deepening fun depth => engine.evaluateEach fns depth es := by
  intro depth more le s
  induction es generalizing s with
  | nil => exact .refl _
  | cons e es ih =>
    apply Approx.bind (engine.evaluate_deepening fns e _ _ le s)
    intro x s
    apply Approx.bind (ih s)
    intro vs s
    exact .refl _

/-- Where nothing was cut off, nothing is shown as cut off. -/
lemma Engine.shows_eq_exhausted_iff {ending : Except (Stop Rejection) Int64} :
    engine.shows ending = .error .exhausted ↔ ending = .error .exhausted := by
  refine ⟨fun cut => ?_, fun cut => congrArg engine.shows cut⟩
  rcases ending with (_ | _ | _) | _ <;> cases cut
  rfl

/-- The depth of a call is only a bound. -/
lemma Definition.call_eq_of_le {more : Nat} (le : depth ≤ more)
    (done : d.call fns depth vs ≠ .error .exhausted) :
    d.call fns more vs = d.call fns depth vs := by
  induction le with
  | refl => rfl
  | @step more _ ih =>
    rw [← ih] at done ⊢
    exact ((d.call_succ more vs).resolve_left done).symm

/-- Where the arguments come to values, the call ends in what the function comes to for these and
leaves the scope that the arguments left. -/
lemma Engine.ends_call_iff (found : fns.find? f = some d) (fits : args.length = d.arity)
    (given : Ends (engine.evaluateEach fns · args) s (.ok vs) G)
    {result : Except (Stop EvalError) Evaluation} {after : Scope} :
    Ends (engine.evaluate fns · (.call f args)) s result after ↔
      after = G ∧ ∃ ending, d.Comes fns vs ending ∧ result = engine.shows ending := by
  obtain ⟨-, depth, given⟩ := given
  -- what the arguments come to within one depth they come to within any larger one
  have given : ∀ more, depth ≤ more → engine.evaluateEach fns more args s = (.ok vs, G) := by
    intro more le
    have deeper := engine.evaluateEach_deepening fns args _ _ le s
    exact (deeper.eq (by rw [given]; exact nofun)).trans given
  have called := fun more le => Engine.evaluate_call found fits (given more le)
  constructor
  · rintro ⟨done, depth', ran⟩
    have le := Nat.le_max_left depth depth'
    have deeper := engine.evaluate_deepening fns (.call f args) _ _ (Nat.le_max_right depth depth') s
    have ran := (called _ le).symm.trans ((deeper.eq (by rw [ran]; exact done)).trans ran)
    obtain ⟨shown, unchanged⟩ := Prod.mk.inj ran
    refine ⟨unchanged.symm, _, ⟨fun cut => done ?_, _, rfl⟩, shown.symm⟩
    rw [← shown, cut]
    rfl
  · rintro ⟨rfl, ending, ⟨done, depth', rfl⟩, rfl⟩
    refine ⟨fun cut => done (Engine.shows_eq_exhausted_iff.1 cut), max depth depth', ?_⟩
    rw [← Definition.call_eq_of_le (Nat.le_max_right depth depth') done]
    exact called _ (Nat.le_max_left ..)

/-- The call diverges if the function does for these arguments. -/
lemma Engine.diverges_call_iff (found : fns.find? f = some d) (fits : args.length = d.arity)
    (given : Ends (engine.evaluateEach fns · args) s (.ok vs) G) :
    Diverges (engine.evaluate fns · (.call f args)) s ↔ ∀ ending, ¬d.Comes fns vs ending := by
  constructor
  · intro cut ending comes
    have ends := (Engine.ends_call_iff found fits given).2 ⟨rfl, ending, comes, rfl⟩
    exact Deepening.not_diverges ends cut
  · intro never
    refine (ends_or_diverges _ s).resolve_left ?_
    rintro ⟨result, after, ends⟩
    obtain ⟨-, ending, comes, -⟩ := (Engine.ends_call_iff found fits given).1 ends
    exact never ending comes

end Engines

namespace Scope

variable {s : Scope} {n : String} {v : Int64}

/-- What is assigned to other names leaves the value of a name. -/
lemma get?_foldl_assign {pairs : List (String × Int64)} (held : s.get? n = some v)
    (others : ∀ p ∈ pairs, p.1 ≠ n) :
    (pairs.foldl (fun s (n, v) => s.assign n v) s).get? n = some v := by
  induction pairs generalizing s with
  | nil => exact held
  | cons p pairs ih =>
    obtain ⟨other, others⟩ := List.forall_mem_cons.1 others
    refine ih ?_ others
    rw [get?_assign, if_neg other.symm, held]

/-- The scope of a call holds under the name of a parameter the argument that it is given last. -/
lemma get?_ofArguments {params : List String} {vs : List Int64}
    {before after : List (String × Int64)} (given : params.zip vs = before ++ (n, v) :: after)
    (last : ∀ p ∈ after, p.1 ≠ n) : (ofArguments params vs).get? n = some v := by
  rw [ofArguments, given, List.foldl_append, List.foldl_cons]
  refine get?_foldl_assign ?_ last
  rw [get?_assign, if_pos rfl]

end Scope

section Machines

variable {fns : FunctionTable} {e : Expr} {scope : Scope} {c : Chunk}

/-- In a compiled program, calls have the results of calls in the tree. -/
lemma answers_of_mem_chunks (mem : c ∈ (compile fns e scope).1.chunks) (depth : Nat) :
    ∀ f ∈ c.callees, Answers fns (Definition.call fns depth) (compile fns e scope).1.functions
      (Chunk.run (compile fns e scope).1.functions depth) f :=
  fun _ called => answers_of_linked (linked_compile fns e scope) depth fun _ =>
    contains_compile_iff.2 (reached_of_mem_callees mem called)

/-- A chunk of a compiled program at work, on cells of some layout, where calls may nest `depth`
deep. -/
def Activation.ofChunk (mem : c ∈ (compile fns e scope).1.chunks) (depth : Nat) (layout : Scope) :
    Activation :=
  ⟨fns, Definition.call fns depth, (compile fns e scope).1.functions,
    Chunk.run (compile fns e scope).1.functions depth, c, layout, answers_of_mem_chunks mem depth⟩

/-- The cells of a call hold in the slot of a parameter the argument that it is given last. -/
lemma cells_of_bindArguments {d : Definition} {m : Machine} {rs : List Register} {vs : List Int64}
    {n : String} {v : Int64} {before after : List (String × Int64)} (has : m.HasAll rs vs)
    (given : d.params.zip vs = before ++ (n, v) :: after) (last : ∀ p ∈ after, p.1 ≠ n) :
    ∃ cells, bindArguments ((d.chunk fns).params.zip rs)
        (Array.replicate (d.chunk fns).slots none) m = (.ok cells, m) ∧
      cells[d.locals.slot n]? = some (some v) := by
  obtain ⟨cells, bound, rep⟩ := @bindArguments_chunk fns _ _ _ d has
  have param : n ∈ d.params := by
    have pair : (n, v) ∈ d.params.zip vs := by simp [given]
    exact (List.of_mem_zip pair).1
  have body : Continues d.locals (d.body.lower fns 0 0 d.locals).scope :=
    (d.body.extends_lower 0 0 d.locals).continues
  have known : n ∈ d.locals.names := (continues_locals d.params .empty).2 n param
  refine ⟨cells, bound, ?_⟩
  rw [← body.slot_eq known, rep.inside n (body.mem known), get?_ofArguments given last]

end Machines

/-- Calls are isolated. Take a function and arguments, as many as it has parameters, that come to the
values `vs`, one after another from the left.

* On an engine, the call ends as the function ends for `vs`, or diverges as it does, whatever else the
  scope of the caller holds, and leaves that scope exactly as the arguments left it.
* So it does in any scope of the tree, be it that of another call, and wherever its code stands in a
  chunk of a compiled program, be it that of the same function, on any cells of the activation at work.
* The machine finds all registers and cells of the activation at work as they were, and what it has
  printed and remarked, whatever the call comes to.
* The call starts with the last of the arguments given to a name, on the tree and in the cells. -/
theorem calls_isolated {fns : FunctionTable} {f : String} {d : Definition}
    (found : fns.find? f = some d) {args : List Expr} (fits : args.length = d.arity)
    (vs : List Int64) :
    (∀ (engine : Engine) s G, Ends (engine.evaluateEach fns · args) s (.ok vs) G →
      (∀ result after, Ends (engine.evaluate fns · (.call f args)) s result after ↔
        after = G ∧ ∃ ending, d.Comes fns vs ending ∧ result = engine.shows ending) ∧
      (Diverges (engine.evaluate fns · (.call f args)) s ↔ ∀ ending, ¬d.Comes fns vs ending)) ∧
    (∀ depth s G, Expr.evalArgs fns (Definition.call fns depth) args s = (.ok vs, G) →
      (Expr.call f args).run fns depth s = (d.call fns depth vs, G) ∧
      ∀ e scope c (mem : c ∈ (compile fns e scope).1.chunks) layout base next names m,
        let A := Activation.ofChunk mem depth layout
        let code := (Expr.call f args).lower fns base next names
        A.Fits code base m s →
          A.Tracks (fun m v => m.Has code.result v) base m (base + code.code.length) next
            (d.call fns depth vs, G)) ∧
    (∀ e scope, (compile fns e scope).1.functions.contains f → ∀ depth m rs, m.HasAll rs vs →
      Machine.call (compile fns e scope).1.functions
          (Chunk.run (compile fns e scope).1.functions depth) f rs m =
        ((d.call fns depth vs).mapError (Stop.map .rejected), m)) ∧
    ∀ before n v after, d.params.zip vs = before ++ (n, v) :: after → (∀ p ∈ after, p.1 ≠ n) →
      (Scope.ofArguments d.params vs).get? n = some v ∧
      ∀ m rs, m.HasAll rs vs → ∃ cells, bindArguments ((d.chunk fns).params.zip rs)
          (Array.replicate (d.chunk fns).slots none) m = (.ok cells, m) ∧
        cells[d.locals.slot n]? = some (some v) := by
  refine ⟨fun engine s G given => ⟨fun result after => Engine.ends_call_iff found fits given,
    Engine.diverges_call_iff found fits given⟩, ?_, ?_, ?_⟩
  · intro depth s G given
    have run := Expr.run_call found fits given
    refine ⟨run, ?_⟩
    intro e scope c mem layout base next names m A code here
    have follows := A.follows_lower (.call f args) base next names m s here
    rwa [show (Expr.call f args).eval A.fns A.call s = _ from run] at follows
  · intro e scope there depth m rs has
    exact answers_of_linked (linked_compile fns e scope) depth (fun _ => there) d found m rs vs has
  · intro before n v after given last
    exact ⟨get?_ofArguments given last, fun m rs has => cells_of_bindArguments has given last⟩

/-- A recursive function that has two parameters of one name, called with an argument that assigns: the
`n` of each call is its second argument, the `n` of the caller stays, and `x` is what the argument left
in it. -/
theorem calls_isolated_recursion :
    let body : Expr := .cond (.var "n")
      (.binary .add (.call "f" [.lit 9, .binary .sub (.var "n") (.lit 1)]) (.var "n")) (.lit 0)
    let f : Definition := ⟨"f", ["n", "n"], body⟩
    let fns : FunctionTable := Catalogue.empty.insert f
    let args : List Expr := [.var "n", .assign (.var "x") (.lit 2)]
    let s := Scope.empty.assign "n" 100
    fns.find? "f" = some f ∧ args.length = f.arity ∧
      (Scope.ofArguments f.params [100, 2]).get? "n" = some 2 ∧
      ∀ engine : Engine, Ends (engine.evaluate fns · (.call "f" args)) s (.ok ⟨3, #[]⟩)
        (s.assign "x" 2) := by
  intro body f fns args s
  have found : fns.find? "f" = some f := Catalogue.find?_insert_self f _
  obtain ⟨ends, -, -, last⟩ := calls_isolated found (rfl : args.length = f.arity) [100, 2]
  refine ⟨found, rfl, (last [("n", 100)] "n" 2 [] rfl nofun).1, fun engine => ?_⟩
  have comes : f.Comes fns [100, 2] (.ok 3) := ⟨nofun, 4, by decide +kernel⟩
  have given : Ends (engine.evaluateEach fns · args) s (.ok [100, 2]) (s.assign "x" 2) := by
    have first : engine.evaluate fns 1 (.var "n") s = (.ok ⟨100, #[]⟩, s) :=
      Engine.evaluate_of_run rfl (fun _ => rfl) (fun _ => rfl) fun _ => rfl
    have second : engine.evaluate fns 1 (.assign (.var "x") (.lit 2)) s =
        (.ok ⟨2, #[]⟩, s.assign "x" 2) :=
      Engine.evaluate_of_run rfl (fun _ => rfl) (fun _ => rfl) fun _ => rfl
    refine ⟨nofun, 1, ?_⟩
    simp only [args, Engine.evaluateEach, Run.bind_apply, first, second]
    rfl
  exact ((ends engine s _ given).1 _ _).2 ⟨rfl, .ok 3, comes, rfl⟩

end Reckon
