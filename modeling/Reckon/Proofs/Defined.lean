import Reckon.Proofs.Agreement
import Reckon.Proofs.RoundTrip

/-!
# Calls of defined functions

The parser makes a call of a name only where the name is that of a function, and a definition is
there before its body can be run. So in a session that lines led to from the empty one, every
function that is called anywhere is defined (`FunctionTable.Closed`), and no line can fail for want
of a function.

* `Run.Safe`: what a run keeps, and which errors it can end in.
* `Expr.eval_safe`, `Definition.call_safe`: over closed functions, no evaluation misses a function.
* `Session.runScript_of_execute`: what lines keep, scripts keep.
* `Session.execute_safe`, `Session.runScript_safe`: lines and scripts keep the functions closed.
-/

namespace Reckon

/-- The reasons for which a run is refused that finds every function it calls. -/
inductive Rejection.Resolved : Rejection → Prop where
  | invalidTarget (target : String) : Resolved (.invalidTarget target)
  | arityMismatch (name : String) (expected found : Nat) :
    Resolved (.arityMismatch name expected found)

namespace Run

variable {σ ε ε' α β : Type} {P : σ → Prop} {Q : ε → Prop} {m : Run σ ε α}

/-- From a state with the property `P` the run leads to another one, and its errors have the
property `Q`. -/
def Safe (P : σ → Prop) (Q : ε → Prop) (m : Run σ ε α) : Prop :=
  ∀ s, P s → P (m s).2 ∧ ∀ e, (m s).1 = .error (.error e) → Q e

/-- A run that only has a value is safe. -/
lemma Safe.pure (a : α) : Safe P Q (pure a : Run σ ε α) := fun _ h => ⟨h, nofun⟩

/-- A run that only fails is safe if its error may occur. -/
lemma Safe.fail {e : ε} (q : Q e) : Safe P Q (fail e : Run σ ε α) := by
  intro s h
  refine ⟨h, fun e eq => ?_⟩
  cases eq
  exact q

/-- A sequence is safe if its parts are. -/
lemma Safe.bind {f : α → Run σ ε β} (first : Safe P Q m) (second : ∀ a, Safe P Q (f a)) :
    Safe P Q (m >>= f) := by
  intro s h
  obtain ⟨kept, errors⟩ := first s h
  rw [bind_apply]
  generalize m s = x at kept errors
  rcases x with ⟨e | a, s'⟩
  · exact ⟨kept, fun e eq => errors e (by simpa using eq)⟩
  · exact second a s' kept

/-- Seeing errors as errors of another kind, a run is safe for what they are seen as. -/
lemma Safe.mapError {Q' : ε' → Prop} {f : ε → ε'} (h : Safe P Q m) (imp : ∀ e, Q e → Q' (f e)) :
    Safe P Q' (m.mapError f) := by
  intro s p
  obtain ⟨kept, errors⟩ := h s p
  rw [mapError_apply]
  refine ⟨kept, fun e eq => ?_⟩
  generalize (m s).1 = result at eq errors
  rcases result with (e | _ | _) | _ <;> cases eq
  exact imp e (errors e rfl)

end Run

open Run

namespace Expr

mutual

/-- The functions that are called in an expression. -/
def callees : Expr → List String
  | .lit _ | .var _ => []
  | .assign target value => callees target ++ callees value
  | .binary _ left right => callees left ++ callees right
  | .cond test whenTrue whenFalse => callees test ++ callees whenTrue ++ callees whenFalse
  | .call f args => f :: argCallees args

/-- The functions that are called in the arguments of a call. -/
def argCallees : List Expr → List String
  | [] => []
  | e :: es => callees e ++ argCallees es

end

/-- The functions called in arguments are those called in each of them. -/
lemma argCallees_eq_flatMap (es : List Expr) : argCallees es = es.flatMap callees := by
  induction es with
  | nil => rfl
  | cons e es ih => rw [argCallees, ih, List.flatMap_cons]

/-- The functions called in a writable expression are callable. -/
lemma Writable.callable {callable : String → Bool} {e : Expr} (h : Writable callable e) :
    ∀ f ∈ e.callees, callable f = true := by
  induction h with
  | lit | var => exact nofun
  | assign _ _ iht ihv => exact List.forall_mem_append.2 ⟨iht, ihv⟩
  | binary _ _ ihl ihr => exact List.forall_mem_append.2 ⟨ihl, ihr⟩
  | minus _ ih => exact List.forall_mem_append.2 ⟨ih, nofun⟩
  | cond _ _ _ iht iha ihb =>
    exact List.forall_mem_append.2 ⟨List.forall_mem_append.2 ⟨iht, iha⟩, ihb⟩
  | call _ function _ ih =>
    rw [callees, argCallees_eq_flatMap, List.forall_mem_cons]
    refine ⟨function, fun f mem => ?_⟩
    obtain ⟨a, inside, mem⟩ := List.mem_flatMap.1 mem
    exact ih a inside f mem

end Expr

/-- Every function that is called in a body is defined. -/
def FunctionTable.Closed (fns : FunctionTable) : Prop :=
  ∀ n d, fns.find? n = some d → ∀ f ∈ d.body.callees, fns.contains f = true

section Evaluation

variable {fns : FunctionTable} {enter : Definition → List Int64 → Except (Stop Rejection) Int64}

/-- Arguments are safe if each of them is. -/
lemma Expr.evalArgs_safe {es : List Expr}
    (all : ∀ e ∈ es, Safe (fun _ => True) Rejection.Resolved (e.eval fns enter)) :
    Safe (fun _ => True) Rejection.Resolved (evalArgs fns enter es) := by
  induction es with
  | nil => exact .pure []
  | cons e es ih =>
    obtain ⟨first, others⟩ := List.forall_mem_cons.1 all
    exact first.bind fun v => (ih others).bind fun vs => .pure _

/-- An expression that calls defined functions misses none, if the calls in it miss none. -/
lemma Expr.eval_safe (entered : ∀ n d, fns.find? n = some d →
      ∀ vs reason, enter d vs = .error (.error reason) → reason.Resolved) (e : Expr) :
    (∀ f ∈ e.callees, fns.contains f = true) →
      Safe (fun _ => True) Rejection.Resolved (e.eval fns enter) := by
  induction e using Expr.induction with
  | lit v => exact fun _ => .pure v
  | var x =>
    intro _ s _
    exact ⟨trivial, nofun⟩
  | assign target value _ ih =>
    intro defined
    cases target with
    | var x =>
      have evaluated := ih (List.forall_mem_append.1 defined).2
      exact evaluated.bind fun v s _ => ⟨trivial, nofun⟩
    | _ => exact .fail (.invalidTarget _)
  | binary op left right ihl ihr =>
    intro defined
    obtain ⟨first, second⟩ := List.forall_mem_append.1 defined
    refine (ihl first).bind fun l => (ihr second).bind fun r s _ => ⟨trivial, ?_⟩
    rw [trapping_apply]
    cases op.apply l r <;> exact nofun
  | cond test whenTrue whenFalse iht iha ihb =>
    intro defined
    obtain ⟨first, third⟩ := List.forall_mem_append.1 defined
    obtain ⟨first, second⟩ := List.forall_mem_append.1 first
    refine (iht first).bind fun v => ?_
    split
    · exact ihb third
    · exact iha second
  | call f args ih =>
    intro defined
    rw [callees, argCallees_eq_flatMap, List.forall_mem_cons] at defined
    obtain ⟨known, inside⟩ := defined
    cases found : fns.find? f with
    | none =>
      -- the only place where a function could be missed
      rw [Catalogue.contains, found] at known
      cases known
    | some d =>
      cases decEq args.length d.arity with
      | isFalse misfit =>
        simp only [eval, found, if_neg misfit]
        exact .fail (.arityMismatch ..)
      | isTrue fits =>
        rw [eval_call found fits]
        have evaluated := evalArgs_safe fun e mem =>
          ih e mem fun g called => inside g (List.mem_flatMap.2 ⟨e, mem, called⟩)
        exact evaluated.bind fun vs s _ => ⟨trivial, entered f d found vs⟩

/-- A call of a defined function misses none, however deep calls nest. -/
lemma Definition.call_safe (closed : fns.Closed) (depth : Nat) :
    ∀ n d, fns.find? n = some d → ∀ vs reason,
      Definition.call fns depth d vs = .error (.error reason) → reason.Resolved := by
  induction depth with
  | zero => exact fun _ _ _ _ _ => nofun
  | succ depth ih =>
    intro n d found vs reason failed
    have body := Expr.eval_safe ih d.body (closed n d found)
    exact (body _ trivial).2 reason failed

/-- An expression that calls defined functions misses none. -/
lemma Expr.run_safe (closed : fns.Closed) {e : Expr}
    (defined : ∀ f ∈ e.callees, fns.contains f = true) (depth : Nat) :
    Safe (fun _ => True) Rejection.Resolved (e.run fns depth) :=
  Expr.eval_safe (Definition.call_safe closed depth) e defined

end Evaluation

/-- To define a function adds its name to those that are defined. -/
lemma FunctionTable.contains_insert (fns : FunctionTable) (d : Definition) (n : String) :
    Catalogue.contains (fns.insert d) n = (n == d.name || fns.contains n) := by
  rw [Bool.eq_iff_iff, Catalogue.contains_insert, Bool.or_eq_true, beq_iff_eq, eq_comm]

/-- A definition whose body calls itself or what is defined keeps the functions closed. -/
lemma FunctionTable.Closed.insert {fns : FunctionTable} {d : Definition} (closed : fns.Closed)
    (body : ∀ f ∈ d.body.callees, (f == d.name || fns.contains f) = true) :
    FunctionTable.Closed (fns.insert d) := by
  intro n d' found f called
  rw [contains_insert]
  cases decEq d.name n with
  | isTrue same =>
    subst same
    rw [Catalogue.find?_insert_self] at found
    cases found
    exact body f called
  | isFalse other =>
    rw [Catalogue.find?_insert_of_ne fns other] at found
    rw [closed n d' found f called, Bool.or_true]

namespace Session

/-- The error of a line is no want of a function: if the evaluation failed, it was refused on the
engine for one of the other reasons. -/
def Resolved (engine : Engine) (e : LineError) : Prop :=
  ∀ err, e = .failed err → ∃ reason : Rejection, reason.Resolved ∧ err = engine.refusal reason

/-- A statement that calls only what is defined, or what it defines, keeps the functions closed and
does not fail for want of one. -/
lemma perform_safe {s : Session} (closed : s.functions.Closed) (engine : Engine) (depth : Nat) :
    ∀ statement : Statement, statement.Writable s.functions.contains →
      (perform engine depth statement s).2.functions.Closed ∧
        ∀ e, (perform engine depth statement s).1 = .error (.error e) → Resolved engine e
  | .define d, writable => ⟨closed.insert writable.2.2.callable, nofun⟩
  | .evaluate e, writable => by
    have writable : e.Writable s.functions.contains := writable
    have run := (Expr.run_safe closed writable.callable depth s.globals trivial).2
    obtain ⟨globals, -, ran⟩ := perform_evaluate_eq engine depth e s
    -- on either engine the line ends like the run of the tree
    rw [ran]
    refine ⟨closed, fun err eq => ?_⟩
    generalize (e.run s.functions depth s.globals).1 = ending at eq run
    rcases ending with (reason | _ | _) | _ <;> cases eq
    rintro _ ⟨⟩
    exact ⟨reason, run reason rfl, rfl⟩

/-- A line keeps the functions closed and does not fail for want of one. -/
lemma execute_safe (engine : Engine) (depth : Nat) (line : String) :
    Safe (fun s : Session => s.functions.Closed) (Resolved engine) (execute engine depth line) := by
  have answered : ∀ o : Outcome, Safe (fun s : Session => s.functions.Closed) (Resolved engine)
      (pure o : Run Session LineError Outcome) := fun o => .pure o
  intro s closed
  simp only [execute, Run.bind_apply, Run.get_apply]
  split
  · exact answered _ s closed
  · split
    · exact answered _ s closed
    · split
      · exact answered _ s closed
      · cases made : Statement.parse s.functions (Text.trim line) with
        | error e =>
          refine ⟨closed, fun e eq err failed => ?_⟩
          cases eq
          cases failed
        | ok statement =>
          exact perform_safe closed engine depth statement (Statement.writable_of_parse made)

/-- What each line keeps, and the errors that it can end in, tell the same of many lines. -/
lemma executeAll_of_execute {P : Session → Prop} {Q : LineError → Prop} {engine : Engine} {depth : Nat}
    (each : ∀ line, Safe P Q (execute engine depth line)) (number : Nat) (lines : List String) :
    Safe P (fun e => Q e.cause) (executeAll engine depth number lines) := by
  induction lines generalizing number with
  | nil => exact .pure []
  | cons line rest ih =>
    have first : Safe P (fun e : ScriptError => Q e.cause)
        ((execute engine depth line).mapError (⟨number, Text.trim line, ·⟩)) :=
      (each line).mapError fun e error => error
    exact first.bind fun outcome => (ih (number + 1)).bind fun others => .pure _

/-- A script is safe if each line is. -/
lemma runScript_of_execute {P : Session → Prop} {Q : LineError → Prop} {engine : Engine} {depth : Nat}
    (each : ∀ line, Safe P Q (execute engine depth line)) (source : String) :
    Safe P (fun e => Q e.cause) (runScript engine depth source) :=
  (executeAll_of_execute each 1 (Text.lines source)).bind fun _ => .pure _

/-- A script leaves the functions closed, and no error of it is about an undefined one. -/
lemma runScript_safe (engine : Engine) (depth : Nat) (source : String) :
    Safe (fun s : Session => s.functions.Closed) (fun e => Resolved engine e.cause)
      (runScript engine depth source) :=
  runScript_of_execute (execute_safe engine depth) source

/-- The sessions that lines and scripts lead to from the empty one, on any engines and whatever
comes of them. -/
inductive Reachable : Session → Prop where
  | start : Reachable .start
  | execute {s} (engine : Engine) (depth : Nat) (line : String) :
    Reachable s → Reachable (execute engine depth line s).2
  | runScript {s} (engine : Engine) (depth : Nat) (source : String) :
    Reachable s → Reachable (runScript engine depth source s).2

/-- The functions of a session that lines and scripts lead to are closed. -/
lemma Reachable.closed {s : Session} (reachable : Reachable s) : s.functions.Closed := by
  induction reachable with
  | start => exact nofun
  | execute engine depth line _ ih => exact (execute_safe engine depth line _ ih).1
  | runScript engine depth source _ ih => exact (runScript_safe engine depth source _ ih).1

/-- A session never calls an undefined function. Where lines and scripts led to, on any engines and
whatever came of them, every call in the body of a function is of one that is defined, and so is
every call that a line can make, but for those of the function that it defines. No line and no
script fails for want of a function: an evaluation that fails was refused for the target of an
assignment or for the number of arguments of a call. -/
theorem reachable_calls_defined {s : Session} (reachable : Reachable s) :
    (∀ n d, s.functions.find? n = some d → ∀ f ∈ d.body.callees, s.functions.contains f = true) ∧
    (∀ source e, Statement.parse s.functions source = .ok (.evaluate e) →
      ∀ f ∈ e.callees, s.functions.contains f = true) ∧
    (∀ source d, Statement.parse s.functions source = .ok (.define d) →
      ∀ f ∈ d.body.callees, f = d.name ∨ s.functions.contains f = true) ∧
    (∀ engine depth line err, (execute engine depth line s).1 = .error (.error (.failed err)) →
      ∃ reason : Rejection, reason.Resolved ∧ err = engine.refusal reason) ∧
    ∀ engine depth source number line err,
      (runScript engine depth source s).1 = .error (.error ⟨number, line, .failed err⟩) →
      ∃ reason : Rejection, reason.Resolved ∧ err = engine.refusal reason := by
  have closed := reachable.closed
  refine ⟨closed, ?_, ?_, ?_, ?_⟩
  · intro source e made
    have writable : e.Writable s.functions.contains := Statement.writable_of_parse made
    exact writable.callable
  · intro source d made f called
    simpa using (Statement.writable_of_parse made).2.2.callable f called
  · intro engine depth line err failed
    exact (execute_safe engine depth line s closed).2 _ failed err rfl
  · intro engine depth source number line err failed
    exact (runScript_safe engine depth source s closed).2 _ failed err rfl

/-- A function that is redefined with another arity while its body calls it as before: the call is
refused for its arguments, on either engine. -/
theorem reachable_calls_defined_after_redefinition :
    let first : Definition := ⟨"f", ["a"], .var "a"⟩
    let second : Definition := ⟨"f", ["a", "b"], .call "f" [.var "a"]⟩
    let earlier : Session := (execute .interpreter 1 "deffn f(a) = a" .start).2
    let s : Session := (execute .vm 1 "deffn f(a, b) = f(a)" earlier).2
    s.functions = Catalogue.insert second (Catalogue.insert first .empty) ∧
    (∀ f ∈ second.body.callees, s.functions.contains f = true) ∧
    ∀ engine, ∃ err, (execute engine 3 "f(1, 2)" s).1 = .error (.error (.failed err)) ∧
      ∃ reason : Rejection, reason.Resolved ∧ err = engine.refusal reason := by
  intro first second earlier s
  have made₁ : Statement.parse Session.start.functions "deffn f(a) = a" = .ok (.define first) := by
    have lexed : tokenize "deffn f(a) = a" = .ok [⟨.deffn, ⟨0, 5⟩⟩, ⟨.identifier "f", ⟨6, 7⟩⟩,
        ⟨.lparen, ⟨7, 8⟩⟩, ⟨.identifier "a", ⟨8, 9⟩⟩, ⟨.rparen, ⟨9, 10⟩⟩,
        ⟨.symbol .assign, ⟨11, 12⟩⟩, ⟨.identifier "a", ⟨13, 14⟩⟩,
        ⟨.eof, ⟨14, 14⟩⟩] := by decide +kernel
    rw [Statement.parse, lexed]
    cbv
  have earlier_eq : earlier = ⟨.empty, Catalogue.insert first .empty⟩ := by
    show (execute .interpreter 1 "deffn f(a) = a" .start).2 = _
    rw [execute_of_parse made₁]
    rfl
  have made₂ : Statement.parse (Catalogue.insert first .empty) "deffn f(a, b) = f(a)" =
      .ok (.define second) := by
    have lexed : tokenize "deffn f(a, b) = f(a)" = .ok [⟨.deffn, ⟨0, 5⟩⟩, ⟨.identifier "f", ⟨6, 7⟩⟩,
        ⟨.lparen, ⟨7, 8⟩⟩, ⟨.identifier "a", ⟨8, 9⟩⟩, ⟨.comma, ⟨9, 10⟩⟩,
        ⟨.identifier "b", ⟨11, 12⟩⟩, ⟨.rparen, ⟨12, 13⟩⟩, ⟨.symbol .assign, ⟨14, 15⟩⟩,
        ⟨.identifier "f", ⟨16, 17⟩⟩, ⟨.lparen, ⟨17, 18⟩⟩, ⟨.identifier "a", ⟨18, 19⟩⟩,
        ⟨.rparen, ⟨19, 20⟩⟩, ⟨.eof, ⟨20, 20⟩⟩] := by decide +kernel
    rw [Statement.parse, lexed]
    cbv
  have s_eq : s = ⟨.empty, Catalogue.insert second (Catalogue.insert first .empty)⟩ := by
    show (execute .vm 1 "deffn f(a, b) = f(a)" earlier).2 = _
    rw [earlier_eq, execute_of_parse (s := ⟨.empty, Catalogue.insert first .empty⟩) made₂]
    rfl
  have reachable : Reachable s := .execute _ _ _ (.execute _ _ _ .start)
  clear_value s
  subst s_eq
  obtain ⟨closed, -, -, refused, -⟩ := reachable_calls_defined reachable
  refine ⟨rfl, closed "f" second (Catalogue.find?_insert_self second _), fun engine => ?_⟩
  have made₃ : Statement.parse (Catalogue.insert second (Catalogue.insert first .empty)) "f(1, 2)" =
      .ok (.evaluate (.call "f" [.lit 1, .lit 2])) := by
    have lexed : tokenize "f(1, 2)" = .ok [⟨.identifier "f", ⟨0, 1⟩⟩, ⟨.lparen, ⟨1, 2⟩⟩,
        ⟨.integer 1, ⟨2, 3⟩⟩, ⟨.comma, ⟨3, 4⟩⟩, ⟨.integer 2, ⟨5, 6⟩⟩, ⟨.rparen, ⟨6, 7⟩⟩,
        ⟨.eof, ⟨7, 7⟩⟩] := by decide +kernel
    rw [Statement.parse, lexed]
    cbv
  have failed : (execute engine 3 "f(1, 2)"
      ⟨.empty, Catalogue.insert second (Catalogue.insert first .empty)⟩).1 =
        .error (.error (.failed (engine.refusal (.arityMismatch "f" 2 1)))) := by
    let s : Session := ⟨.empty, Catalogue.insert second (Catalogue.insert first .empty)⟩
    obtain ⟨globals, -, ran⟩ := perform_evaluate_eq engine 3 (.call "f" [.lit 1, .lit 2]) s
    have ended : ((Expr.call "f" [.lit 1, .lit 2]).run s.functions 3 s.globals).1 =
        .error (.error (.arityMismatch "f" 2 1)) := by decide +kernel
    rw [execute_of_parse (s := s) made₃, ran]
    exact congrArg (shown engine) ended
  exact ⟨_, failed, refused engine 3 "f(1, 2)" _ failed⟩

end Session

end Reckon
