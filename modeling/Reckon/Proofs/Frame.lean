import Mathlib.Data.List.Perm.Subperm
import Reckon.Proofs.Absent
import Reckon.Proofs.Defined
import Reckon.Proofs.History
import Reckon.Proofs.Kept

/-!
# What an evaluation leaves alone

An evaluation reads and writes the variables that are written in its expression and no others; those
in the bodies of the functions that it calls are variables of the calls.

* `Expr.vars`, `Expr.targets`: the variables of an expression, and those of them that are assigned to.
* `Expr.eval_keeps`: what reading these variables and writing these targets keeps, an evaluation keeps.
* `Scope.Framed`: what may differ between the tables before and after (`Engine.evaluate_framed`).
* `Engine.evaluate_frame`: the frame in full, and that an expression which assigns nothing can be
  evaluated again to the same effect.
-/

namespace Reckon

open Run Scope

namespace Expr

mutual

/-- The variables in an expression, be it as the target of an assignment. Those in the bodies of the
functions that it calls are not among them. -/
def vars : Expr → List String
  | .lit _ => []
  | .var x => [x]
  | .assign target value => vars target ++ vars value
  | .binary _ left right => vars left ++ vars right
  | .cond test whenTrue whenFalse => vars test ++ vars whenTrue ++ vars whenFalse
  | .call _ args => argVars args

/-- The variables in the arguments of a call. -/
def argVars : List Expr → List String
  | [] => []
  | e :: es => vars e ++ argVars es

end

mutual

/-- The variables that are the target of an assignment in an expression. One without `=` has none. -/
def targets : Expr → List String
  | .lit _ | .var _ => []
  | .assign (.var x) value => x :: targets value
  | .assign target value => targets target ++ targets value
  | .binary _ left right => targets left ++ targets right
  | .cond test whenTrue whenFalse => targets test ++ targets whenTrue ++ targets whenFalse
  | .call _ args => argTargets args

/-- The targets of assignments in the arguments of a call. -/
def argTargets : List Expr → List String
  | [] => []
  | e :: es => targets e ++ argTargets es

end

end Expr

namespace Scope

/-- The property outlasts that one of these variables is read, or one of them written that is among
the targets. -/
structure Outlasts (P : Scope → Prop) (vars targets : List String) : Prop where
  touch : ∀ x ∈ vars, ∀ s, P s → P (s.touch x)
  assign : ∀ x ∈ vars, x ∈ targets → ∀ s v, P s → P (s.assign x v)

variable {P : Scope → Prop} {vars vars' targets targets' : List String}

/-- With fewer variables and targets there is less to outlast. -/
lemma Outlasts.mono (h : Outlasts P vars targets) (fewer : vars' ⊆ vars)
    (fewerTargets : targets' ⊆ targets) : Outlasts P vars' targets' where
  touch x mem := h.touch x (fewer mem)
  assign x mem target := h.assign x (fewer mem) (fewerTargets target)

/-- What outlasts two parts outlasts the first one. -/
lemma Outlasts.left (h : Outlasts P (vars ++ vars') (targets ++ targets')) :
    Outlasts P vars targets :=
  h.mono (List.subset_append_left ..) (List.subset_append_left ..)

/-- What outlasts two parts outlasts the second one. -/
lemma Outlasts.right (h : Outlasts P (vars ++ vars') (targets ++ targets')) :
    Outlasts P vars' targets' :=
  h.mono (List.subset_append_right ..) (List.subset_append_right ..)

end Scope

namespace Expr

variable {P : Scope → Prop} {fns : FunctionTable}
  {enter : Definition → List Int64 → Except (Stop Rejection) Int64}

/-- Arguments keep what outlasts them, if each of them does. -/
lemma evalArgs_keeps {es : List Expr}
    (all : ∀ e ∈ es, Outlasts P e.vars e.targets → Safe P (fun _ => True) (e.eval fns enter))
    (h : Outlasts P (argVars es) (argTargets es)) :
    Safe P (fun _ => True) (evalArgs fns enter es) := by
  induction es with
  | nil => exact .pure []
  | cons e es ih =>
    obtain ⟨first, others⟩ := List.forall_mem_cons.1 all
    exact (first h.left).bind fun v => (ih others h.right).bind fun vs => .pure _

/-- Whatever outlasts reading the variables of an expression and writing its targets is kept by its
evaluation, which does nothing else to the scope. -/
lemma eval_keeps (e : Expr) : Outlasts P e.vars e.targets →
    Safe P (fun _ => True) (e.eval fns enter) := by
  induction e using Expr.induction with
  | lit v => exact fun _ => .pure v
  | var x =>
    intro h s p
    exact ⟨h.touch x (List.mem_singleton_self x) s p, nofun⟩
  | assign target value _ ih =>
    intro h
    cases target with
    | var x =>
      have inside := h.mono (List.subset_append_right ..) (List.subset_cons_self ..)
      refine (ih inside).bind fun v s p => ⟨?_, nofun⟩
      exact h.assign x (List.mem_cons_self ..) (List.mem_cons_self ..) s v p
    | _ => exact .fail trivial
  | binary op left right ihl ihr =>
    intro h
    refine (ihl h.left).bind fun l => (ihr h.right).bind fun r s p => ?_
    rw [trapping_apply]
    exact ⟨p, fun _ _ => trivial⟩
  | cond test whenTrue whenFalse iht iha ihb =>
    intro h
    refine (iht h.left.left).bind fun v => ?_
    split
    · exact ihb h.right
    · exact iha h.left.right
  | call f args ih =>
    intro h
    cases eval_call_cases fns f args with
    | inl entered =>
      obtain ⟨d, found, fits⟩ := entered
      rw [eval_call found fits]
      -- the call itself has no access to the scope
      exact (evalArgs_keeps ih h).bind fun vs s p => ⟨p, fun _ _ => trivial⟩
    | inr refused =>
      obtain ⟨reason, evaluated⟩ := refused
      rw [evaluated]
      exact .fail trivial

/-- Names from a first piece of code and from one behind it come from both expressions. -/
lemma mem_names_append {n : String} {names first second : List String} {P : Prop}
    (h : P ∨ n ∈ second) (h' : P → n ∈ names ∨ n ∈ first) : n ∈ names ∨ n ∈ first ++ second := by
  rw [List.mem_append]
  cases h with
  | inl before => exact (h' before).imp_right .inl
  | inr inside => exact .inr (.inr inside)

/-- Arguments get slots for names in them only, if each of them does. -/
lemma names_lowerArgs {es : List Expr}
    (all : ∀ e ∈ es, ∀ base next scope, ∀ n ∈ (e.lower fns base next scope).scope.names,
      n ∈ scope.names ∨ n ∈ e.vars) (base : Nat) (next : Register) (scope : Scope) :
    ∀ n ∈ (lowerArgs fns es base next scope).scope.names, n ∈ scope.names ∨ n ∈ argVars es := by
  induction es generalizing base next scope with
  | nil => exact fun n mem => .inl mem
  | cons e es ih =>
    obtain ⟨first, others⟩ := List.forall_mem_cons.1 all
    exact fun n mem => mem_names_append (ih others _ _ _ n mem) (first base next scope n)

/-- The code of an expression gives slots to its variables only. -/
lemma names_lower (e : Expr) : ∀ base next scope, ∀ n ∈ (e.lower fns base next scope).scope.names,
    n ∈ scope.names ∨ n ∈ e.vars := by
  induction e using Expr.induction with
  | lit v => exact fun _ _ _ n mem => .inl mem
  | var x =>
    intro base next scope n mem
    refine (mem_names_reserve.1 mem).symm.imp_right ?_
    rintro rfl
    exact List.mem_singleton_self n
  | assign target value _ ih =>
    intro base next scope n mem
    cases target with
    | var x =>
      cases mem_names_reserve.1 mem with
      | inl here =>
        subst here
        exact .inr (List.mem_cons_self ..)
      | inr before => exact (ih base next scope n before).imp_right (List.mem_append_right _)
    | _ => exact .inl mem
  | binary op left right ihl ihr =>
    intro base next scope n mem
    exact mem_names_append (ihr _ _ _ n mem) (ihl base next scope n)
  | cond test whenTrue whenFalse iht iha ihb =>
    intro base next scope n mem
    exact mem_names_append (ihb _ _ _ n mem) fun before =>
      mem_names_append (iha _ _ _ n before) (iht base next scope n)
  | call f args ih =>
    intro base next scope n mem
    cases lower_call_cases fns f args with
    | inl entered =>
      obtain ⟨d, found, fits⟩ := entered
      rw [lower_call found fits] at mem
      exact names_lowerArgs ih base next scope n mem
    | inr refused =>
      obtain ⟨reason, -, lowered⟩ := refused
      rw [lowered] at mem
      exact .inl mem

end Expr

namespace Scope

/-- What may differ between a table and a later one if in between no names were met but those of
`vars`, and no values given but to those of `targets`. -/
structure Framed (vars targets : List String) (s t : Scope) : Prop where
  continues : Continues s t
  names : ∀ n ∈ t.names, n ∈ s.names ∨ n ∈ vars
  get? : ∀ n ∉ vars, t.get? n = s.get? n
  value : ∀ n ∉ targets, t.value n = s.value n
  live : s.liveNames ⊆ t.liveNames

variable {s t t' : Scope} {vars targets : List String} {n x : String} {v : Int64}

/-- What a scope holds under a name is told by its value and by whether it is live. -/
lemma get?_congr (value : s.value n = t.value n) (live : n ∈ s.liveNames ↔ n ∈ t.liveNames) :
    s.get? n = t.get? n := by
  rw [Scope.value, Scope.value] at value
  rw [liveNames, liveNames, Set.mem_ofPred_eq, Set.mem_ofPred_eq] at live
  cases first : s.get? n with
  | none =>
    cases second : t.get? n with
    | none => rfl
    | some w =>
      obtain ⟨v, held⟩ := live.2 ⟨w, second⟩
      cases first.symm.trans held
  | some v =>
    obtain ⟨w, second⟩ := live.1 ⟨v, first⟩
    rw [first, second] at value
    exact (congrArg some value).trans second.symm

/-- A later scope with no other names has the same slots. -/
lemma Continues.names_eq (h : Continues s t) (fewer : ∀ n ∈ t.names, n ∈ s.names) :
    t.names = s.names :=
  (h.eq_of_length_le ((nodup_names t).subperm fewer).length_le).symm

namespace Framed

/-- A scope is framed by itself. -/
lemma refl (s : Scope) (vars targets : List String) : Framed vars targets s s :=
  ⟨.refl s, fun _ => .inl, fun _ _ => rfl, fun _ _ => rfl, subset_rfl⟩

/-- Only values and names matter. -/
lemma congr (h : Framed vars targets s t) (same : ∀ n, t'.get? n = t.get? n)
    (continues : Continues s t') (names : ∀ n ∈ t'.names, n ∈ s.names ∨ n ∈ vars) :
    Framed vars targets s t' where
  continues := continues
  names := names
  get? n absent := (same n).trans (h.get? n absent)
  value n other := (value_congr same n).trans (h.value n other)
  live := (liveNames_congr same).symm ▸ h.live

/-- A slot for a name in the frame adds no other name. -/
lemma names_reserve (h : Framed vars targets s t) (mem : x ∈ vars) :
    ∀ n ∈ (t.reserve x).names, n ∈ s.names ∨ n ∈ vars := by
  intro n here
  cases mem_names_reserve.1 here with
  | inl same =>
    subst same
    exact .inr mem
  | inr before => exact h.names n before

/-- To read a name in the frame stays in it. -/
lemma touch (h : Framed vars targets s t) (mem : x ∈ vars) :
    Framed vars targets s (t.touch x) where
  continues := h.continues.trans (continues_touch t x)
  names := by
    rw [names_touch]
    exact h.names_reserve mem
  get? n absent := by
    rw [get?_touch, if_neg (ne_of_mem_of_not_mem mem absent).symm, h.get? n absent]
  value n other := by rw [value_touch, h.value n other]
  live := by
    rw [liveNames_touch]
    exact h.live.trans (Set.subset_insert ..)

/-- To give a name a value stays in the frame if the name is among its targets. -/
lemma assign (h : Framed vars targets s t) (mem : x ∈ vars) (target : x ∈ targets) :
    Framed vars targets s (t.assign x v) where
  continues := h.continues.trans (continues_assign t x v)
  names := by
    rw [names_assign]
    exact h.names_reserve mem
  get? n absent := by
    rw [get?_assign, if_neg (ne_of_mem_of_not_mem mem absent).symm, h.get? n absent]
  value n other := by
    rw [value_assign, if_neg (ne_of_mem_of_not_mem target other).symm, h.value n other]
  live := by
    rw [liveNames_assign]
    exact h.live.trans (Set.subset_insert ..)

/-- A live name that is no target keeps its value. -/
lemma get?_of_live (h : Framed vars targets s t) (other : n ∉ targets) (live : s.get? n = some v) :
    t.get? n = some v := by
  have before : n ∈ s.liveNames := ⟨v, live⟩
  exact (get?_congr (h.value n other) (iff_of_true (h.live before) before)).trans live

/-- A name that is no target and not live stays so or is now 0. -/
lemma get?_of_absent (h : Framed vars targets s t) (other : n ∉ targets)
    (absent : s.get? n = none) : t.get? n = none ∨ t.get? n = some 0 := by
  have same := h.value n other
  rw [Scope.value, Scope.value, absent] at same
  cases after : t.get? n with
  | none => exact .inl rfl
  | some w =>
    rw [after] at same
    exact .inr (congrArg some same)

/-- A name that was not met has a slot if it had one. -/
lemma mem_names_iff (h : Framed vars targets s t) (absent : n ∉ vars) :
    n ∈ t.names ↔ n ∈ s.names :=
  ⟨fun mem => (h.names n mem).resolve_right absent, h.continues.mem⟩

end Framed

end Scope

section Evaluation

variable {fns : FunctionTable} {s t : Scope}

/-- An expression changes a scope within its own frame. -/
lemma Expr.run_framed (fns : FunctionTable) (depth : Nat) (e : Expr) (s : Scope) :
    Framed e.vars e.targets s (e.run fns depth s).2 := by
  have outlasts : Outlasts (Framed e.vars e.targets s) e.vars e.targets :=
    { touch := fun x mem t h => h.touch mem
      assign := fun x mem target t v h => h.assign mem target }
  exact (e.eval_keeps outlasts s (.refl ..)).1

/-- An evaluation keeps to the variables in its expression, on either engine. -/
lemma Engine.evaluate_framed (engine : Engine) (fns : FunctionTable) (depth : Nat) (e : Expr)
    (s : Scope) : Framed e.vars e.targets s (engine.evaluate fns depth e s).2 := by
  cases engine with
  | interpreter =>
    rw [evaluate_interpreter_snd]
    exact e.run_framed fns depth s
  | vm =>
    obtain ⟨after, same, ran⟩ := Engine.vm.evaluate_eq fns depth e s
    have left : (Engine.vm.evaluate fns depth e s).2 = after := by rw [ran]
    have names : after.names = (compile fns e s).2.names := by
      rw [← left, evaluate_vm_snd]
      exact names_withCells _ _
    rw [left]
    refine (e.run_framed fns depth s).congr same ?_ ?_
    · exact left ▸ continues_evaluate .vm fns depth e s
    · rw [names]
      exact e.names_lower 0 0 s

/-- A name that a run of the tree met is live behind it. -/
lemma Expr.names_run (fns : FunctionTable) (depth : Nat) (e : Expr) (s : Scope) :
    ∀ n ∈ (e.run fns depth s).2.names, n ∈ s.names ∨ n ∈ (e.run fns depth s).2.liveNames := by
  have met : ∀ t t' : Scope, ∀ x, t'.names = (t.reserve x).names →
      t'.liveNames = insert x t.liveNames →
      (∀ n ∈ t.names, n ∈ s.names ∨ n ∈ t.liveNames) →
        ∀ n ∈ t'.names, n ∈ s.names ∨ n ∈ t'.liveNames := by
    intro t t' x names live before n mem
    rw [live]
    rw [names] at mem
    cases mem_names_reserve.1 mem with
    | inl same => exact .inr (.inl same)
    | inr mem => exact (before n mem).imp_right .inr
  have outlasts : Outlasts (fun t => ∀ n ∈ t.names, n ∈ s.names ∨ n ∈ t.liveNames)
      e.vars e.targets :=
    { touch := fun x _ t => met t _ x (names_touch t x) (liveNames_touch t x)
      assign := fun x _ _ t v => met t _ x (names_assign t x v) (liveNames_assign t x v) }
  exact (e.eval_keeps outlasts s fun n mem => .inl mem).1

/-- On a table that holds what a run left, and the same values as before that run, the run has the
same result and changes no value. -/
lemma Expr.run_again (depth : Nat) (e : Expr) (same : Indistinct s t)
    (left : ∀ n, t.get? n = (e.run fns depth s).2.get? n) :
    (e.run fns depth t).1 = (e.run fns depth s).1 ∧
      ∀ n, (e.run fns depth t).2.get? n = t.get? n := by
  have start : IndistinctSince s t s t := ⟨same, ∅, by simp, by simp⟩
  have both : Match (IndistinctSince s t) (e.run fns depth s) (e.run fns depth t) :=
    e.eval_respects (respected_indistinctSince s t) s t start
  obtain ⟨result, values, T, first, second⟩ := both
  -- what becomes live in the second run has become live in the first
  have live : (e.run fns depth t).2.liveNames = t.liveNames := by
    have more : T ⊆ t.liveNames := by
      rw [liveNames_congr left, first]
      exact Set.subset_union_right
    rw [second, Set.union_eq_left.2 more]
  refine ⟨result.symm, fun n => ?_⟩
  exact get?_congr ((values n).symm.trans (value_congr left n).symm) (by rw [live])

/-- Where an evaluation left the values as they were, it can be done again to the same effect, and
leaves the table as it is. -/
lemma Engine.evaluate_again (engine : Engine) (depth : Nat) (e : Expr)
    (same : Indistinct s (engine.evaluate fns depth e s).2) :
    engine.evaluate fns depth e (engine.evaluate fns depth e s).2 =
      ((engine.evaluate fns depth e s).1, (engine.evaluate fns depth e s).2) := by
  obtain ⟨t, left, ran⟩ := engine.evaluate_eq fns depth e s
  obtain ⟨t', left', ran'⟩ := engine.evaluate_eq fns depth e t
  rw [ran] at same ⊢
  obtain ⟨result, unchanged⟩ := e.run_again depth same left
  have names : t'.names = t.names := by
    cases engine with
    | interpreter =>
      have first : t = (e.run fns depth s).2 := by rw [← evaluate_interpreter_snd, ran]
      have second : t' = (e.run fns depth t).2 := by rw [← evaluate_interpreter_snd, ran']
      have continues : Continues t t' := second ▸ continues_eval fns depth e t
      refine continues.names_eq fun n mem => ?_
      have met := e.names_run fns depth t n
      rw [← second] at met
      cases met mem with
      | inl before => exact before
      | inr live =>
        obtain ⟨v, live⟩ := live
        exact mem_of_live (((left' n).trans (unchanged n)).symm.trans live)
    | vm =>
      have first : t = ((compile fns e s).1.run depth (compile fns e s).2).2 := by
        rw [← evaluate_vm_snd, ran]
      have second : t' = ((compile fns e t).1.run depth (compile fns e t).2).2 := by
        rw [← evaluate_vm_snd, ran']
      have kept : Continues (compile fns e s).2 t := first ▸ continues_run _ depth _
      rw [second, compile_again kept]
      exact names_withCells _ _
  rw [ran', result, ext_get? names fun n => (left' n).trans (unchanged n)]

end Evaluation

/-- Evaluation touches only the variables written in the line. Whatever comes of an expression on an
engine, a name that is no variable in it keeps its slot, if it has one, and what is held under it. A
name that is not assigned to keeps its value if it is live, and else is either absent or 0. No live
name becomes absent and no slot changes. So an expression in which nothing is assigned changes no
value, where an absent name counts as 0, and to evaluate it again has the same result and changes
nothing at all. -/
theorem Engine.evaluate_frame (engine : Engine) (fns : FunctionTable) (depth : Nat) (e : Expr)
    (s : Scope) :
    let (result, t) := engine.evaluate fns depth e s
    (∀ n ∉ e.vars, (n ∈ t.names ↔ n ∈ s.names) ∧ t.get? n = s.get? n) ∧
    (∀ n ∉ e.targets, (∀ v, s.get? n = some v → t.get? n = some v) ∧
      (s.get? n = none → t.get? n = none ∨ t.get? n = some 0)) ∧
    (∀ n v, s.get? n = some v → ∃ w, t.get? n = some w) ∧
    (∀ n ∈ s.names, n ∈ t.names ∧ t.slot n = s.slot n) ∧
    (e.targets = [] →
      (∀ n, t.value n = s.value n) ∧ engine.evaluate fns depth e t = (result, t)) := by
  have framed := engine.evaluate_framed fns depth e s
  refine ⟨fun n absent => ⟨framed.mem_names_iff absent, framed.get? n absent⟩,
    fun n other => ⟨fun v => framed.get?_of_live other, framed.get?_of_absent other⟩,
    fun n v live => framed.live ⟨v, live⟩,
    fun n mem => ⟨framed.continues.mem mem, framed.continues.slot_eq mem⟩, fun none => ?_⟩
  have same : ∀ n, (engine.evaluate fns depth e s).2.value n = s.value n := by
    intro n
    apply framed.value
    rw [none]
    exact List.not_mem_nil
  exact ⟨same, engine.evaluate_again depth e fun n => (same n).symm⟩

/-- A sum that traps behind a call: the function assigns to its own `x`, the variable `x` of the table
keeps its value, `y` is now 0 and `z` was not come to. -/
theorem Engine.evaluate_frame_trapped :
    let fns : FunctionTable :=
      Catalogue.empty.insert ⟨"f", ["a"], .assign (.var "x") (.binary .add (.var "a") (.lit 1))⟩
    let e : Expr := .binary .add (.call "f" [.var "x"])
      (.binary .add (.binary .div (.lit 1) (.var "y")) (.var "z"))
    let s := Scope.empty.assign "x" 7
    e.targets = [] ∧ ∀ engine : Engine,
      let (result, t) := engine.evaluate fns 2 e s
      result = .error (.trap .divideByZero) ∧ t.get? "x" = some 7 ∧ t.get? "y" = some 0 ∧
        t.get? "z" = none ∧ t.get? "a" = none ∧ engine.evaluate fns 2 e t = (result, t) := by
  intro fns e s
  have none : e.targets = [] := by rfl
  refine ⟨none, fun engine => ?_⟩
  obtain ⟨unmet, kept, -, -, again⟩ := Engine.evaluate_frame engine fns 2 e s
  obtain ⟨after, left, ran⟩ := engine.evaluate_eq fns 2 e s
  have stopped : (e.run fns 2 s).1 = .error (.trap .divideByZero) := by decide +kernel
  have trapped : (engine.evaluate fns 2 e s).1 = .error (.trap .divideByZero) := by
    rw [ran, stopped]
    rfl
  have y : (engine.evaluate fns 2 e s).2.get? "y" = some 0 := by
    rw [ran, left]
    decide +kernel
  have z : (engine.evaluate fns 2 e s).2.get? "z" = Option.none := by
    rw [ran, left]
    decide +kernel
  have a := (unmet "a" (by decide)).2
  exact ⟨trapped, (kept "x" (by simp [none])).1 7 rfl, y, z, a, (again none).2⟩

end Reckon
