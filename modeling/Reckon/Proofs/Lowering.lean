import Reckon.Expr.Eval
import Reckon.Program.Compile
import Reckon.Proofs.Layout

/-!
# Lowered code

What the code of an expression is like, without running it.

* `Lowered.Extends`: lowering takes registers and slots behind those already taken, and no value
  changes (`Expr.extends_lower`, `Expr.extends_lowerArgs`).
* `Expr.result_lower_lt`: the register of the result is one of those taken.
* `Expr.lower_call_cases`: a call that the tree refuses is lowered to its rejection.
* `Chunk.Holds`: where in a chunk a piece of code stands, and what follows for its parts.
-/

namespace Reckon

open Scope

/-- The code takes registers from `next` on, and new names take slots behind those of the scope. -/
structure Lowered.Extends {α : Type} (l : Lowered α) (next : Register) (scope : Scope) : Prop where
  next_le : next ≤ l.next
  continues : Continues scope l.scope
  get?_eq : ∀ n, l.scope.get? n = scope.get? n

namespace Lowered.Extends

variable {α β : Type} {l : Lowered α} {l' : Lowered β} {next : Register} {scope : Scope}

/-- The code of a place that no engine can evaluate takes one register. -/
lemma rejected (reason : Rejection) (next : Register) (scope : Scope) :
    (Lowered.rejected reason next scope).Extends next scope :=
  ⟨Nat.le_succ next, .refl scope, fun _ => rfl⟩

/-- Code behind other code takes what is behind what that took. -/
lemma trans (h : l.Extends next scope) (h' : l'.Extends l.next l.scope) : l'.Extends next scope where
  next_le := Nat.le_trans h.next_le h'.next_le
  continues := h.continues.trans h'.continues
  get?_eq n := (h'.get?_eq n).trans (h.get?_eq n)

/-- Behind a register that is left out, the code still takes registers from there on. -/
lemma skip (h : l.Extends (next + 1) scope) : l.Extends next scope :=
  ⟨Nat.le_of_succ_le h.next_le, h.continues, h.get?_eq⟩

/-- Only the registers and the names taken matter. -/
lemma same (h : l.Extends next scope) (nexts : l'.next = l.next) (scopes : l'.scope = l.scope) :
    l'.Extends next scope := by
  refine ⟨?_, ?_, ?_⟩
  · rw [nexts]
    exact h.next_le
  · rw [scopes]
    exact h.continues
  · rw [scopes]
    exact h.get?_eq

/-- A register may be taken behind the code, whatever the code and its result. -/
lemma more {code : List Instruction} {result : β} (h : l.Extends next scope) :
    (Lowered.mk code result (l.next + 1) l.scope).Extends next scope :=
  ⟨Nat.le_succ_of_le h.next_le, h.continues, h.get?_eq⟩

/-- A name may be reserved behind the code, whatever the code and its result. -/
lemma reserve {code : List Instruction} {result : β} (h : l.Extends next scope) (n : String) :
    (Lowered.mk code result l.next (l.scope.reserve n)).Extends next scope where
  next_le := h.next_le
  continues := h.continues.trans (continues_reserve l.scope n)
  get?_eq m := by rw [get?_reserve, h.get?_eq m]

end Lowered.Extends

/-- What is picked from the code of a conditional stands in its test and its arms, if nothing is picked
that leads from one part to another. -/
lemma Instruction.filterMap_cond {α : Type} {pick : Instruction → Option α}
    (onBranch : ∀ c target, pick (branch c target) = none) (onJump : ∀ target, pick (jump target) = none)
    (onMove : ∀ dst src, pick (move dst src) = none) (t a b : List Instruction) (r x y z : Register)
    (falseArm behind : Nat) :
    (t ++ [branch r falseArm] ++ a ++ [move x y, jump behind] ++ b ++ [move x z]).filterMap pick =
      t.filterMap pick ++ a.filterMap pick ++ b.filterMap pick := by
  simp [onBranch, onJump, onMove]

namespace Expr

variable {fns : FunctionTable} {f : String} {args : List Expr}

/-- A call finds its function, which takes as many arguments, or it is lowered to the rejection with
which the tree refuses it. -/
lemma lower_call_cases (fns : FunctionTable) (f : String) (args : List Expr) :
    (∃ d, fns.find? f = some d ∧ args.length = d.arity) ∨
      ∃ reason, (∀ enter, (call f args).eval fns enter = Run.fail reason) ∧
        ∀ base next scope, (call f args).lower fns base next scope = .rejected reason next scope := by
  cases found : fns.find? f with
  | none =>
    refine .inr ⟨.undefinedFunction f, fun enter => ?_, fun base next scope => ?_⟩
    · rw [eval, found]
    · rw [lower, found]
  | some d =>
    cases decEq args.length d.arity with
    | isTrue fits => exact .inl ⟨d, rfl, fits⟩
    | isFalse misfit =>
      refine .inr ⟨.arityMismatch f d.arity args.length, fun enter => ?_, fun base next scope => ?_⟩
      · simp only [eval, found, if_neg misfit]
      · simp only [lower, found, if_neg misfit]

/-- A call that fits is lowered to its arguments and an instruction behind them. -/
lemma lower_call {d : Definition} (found : fns.find? f = some d) (fits : args.length = d.arity)
    (base : Nat) (next : Register) (scope : Scope) :
    (call f args).lower fns base next scope =
      let given := lowerArgs fns args base next scope
      ⟨given.code ++ [.call f given.result given.next], given.next, given.next + 1, given.scope⟩ := by
  simp only [lower, found, if_pos fits]

/-- Arguments take registers and slots behind those taken, if each of them does. -/
lemma extends_lowerArgs_of {es : List Expr}
    (all : ∀ e ∈ es, ∀ base next scope, (e.lower fns base next scope).Extends next scope)
    (base : Nat) (next : Register) (scope : Scope) :
    (lowerArgs fns es base next scope).Extends next scope := by
  induction es generalizing base next scope with
  | nil => exact ⟨Nat.le_refl next, .refl scope, fun _ => rfl⟩
  | cons e es ih =>
    have others := ih fun e mem => all e (by simp [mem])
    exact ((all e (by simp) base next scope).trans (others _ _ _)).same rfl rfl

/-- An expression takes registers and slots behind those taken. -/
lemma extends_lower (e : Expr) : ∀ base next scope,
    (e.lower fns base next scope).Extends next scope := by
  induction e using Expr.induction with
  | lit v =>
    intro base next scope
    exact ⟨Nat.le_succ next, .refl scope, fun _ => rfl⟩
  | var x =>
    intro base next scope
    exact ⟨Nat.le_succ next, continues_reserve scope x, fun n => get?_reserve scope x n⟩
  | assign target value _ ih =>
    intro base next scope
    cases target with
    | var x => exact (ih base next scope).reserve x
    | _ => exact .rejected _ next scope
  | binary op left right ihl ihr =>
    intro base next scope
    exact ((ihl base next scope).trans (ihr _ _ _)).more
  | cond test whenTrue whenFalse iht iha ihb =>
    intro base next scope
    -- the register of the result is taken between the test and the arms
    exact (((iht base next scope).trans (iha _ _ _).skip).trans (ihb _ _ _)).same rfl rfl
  | call f args ih =>
    intro base next scope
    cases lower_call_cases fns f args with
    | inl entered =>
      obtain ⟨d, found, fits⟩ := entered
      rw [lower_call found fits]
      exact (extends_lowerArgs_of ih base next scope).more
    | inr refused =>
      obtain ⟨reason, -, lowered⟩ := refused
      rw [lowered]
      exact .rejected reason next scope

/-- Arguments take registers and slots behind those taken. -/
lemma extends_lowerArgs (es : List Expr) (base : Nat) (next : Register) (scope : Scope) :
    (lowerArgs fns es base next scope).Extends next scope :=
  extends_lowerArgs_of (fun e _ => extends_lower e) base next scope

/-- The result of an expression is in a register that was taken, also where a rejection stands for the
expression and never writes it. -/
lemma result_lower_lt (e : Expr) : ∀ base next scope,
    (e.lower fns base next scope).result < (e.lower fns base next scope).next := by
  induction e using Expr.induction with
  | lit | var => exact fun _ next _ => Nat.lt_succ_self next
  | assign target value _ ih =>
    intro base next scope
    cases target with
    | var x => exact ih base next scope
    | _ => exact Nat.lt_succ_self next
  | binary op left right _ _ => exact fun _ _ _ => Nat.lt_succ_self _
  | cond test whenTrue whenFalse _ _ _ =>
    intro base next scope
    exact Nat.le_trans (extends_lower whenTrue _ _ _).next_le (extends_lower whenFalse _ _ _).next_le
  | call f args _ =>
    intro base next scope
    cases lower_call_cases fns f args with
    | inl entered =>
      obtain ⟨d, found, fits⟩ := entered
      rw [lower_call found fits]
      exact Nat.lt_succ_self _
    | inr refused =>
      obtain ⟨reason, -, lowered⟩ := refused
      rw [lowered]
      exact Nat.lt_succ_self next

end Expr

/-- The code stands in the chunk from place `base` on. -/
def Chunk.Holds (c : Chunk) (base : Nat) (code : List Instruction) : Prop :=
  ∃ before after, c.code.toList = before ++ code ++ after ∧ before.length = base

namespace Chunk.Holds

variable {c : Chunk} {base : Nat} {code code' : List Instruction} {i : Instruction}

/-- A chunk holds its own code. -/
lemma whole (c : Chunk) : c.Holds 0 c.code.toList := ⟨[], [], by simp, rfl⟩

/-- The first part of code stands where the code does. -/
lemma left (h : c.Holds base (code ++ code')) : c.Holds base code := by
  obtain ⟨before, after, eq, len⟩ := h
  exact ⟨before, code' ++ after, by simp [eq], len⟩

/-- The second part of code stands behind the first. -/
lemma right (h : c.Holds base (code ++ code')) : c.Holds (base + code.length) code' := by
  obtain ⟨before, after, eq, len⟩ := h
  exact ⟨before ++ code, after, by simp [eq], by simp [len]⟩

/-- A place may be written in another way. -/
lemma cast {base' : Nat} (h : c.Holds base code) (eq : base = base') : c.Holds base' code := eq ▸ h

/-- The place of code that is not empty is in the chunk. -/
lemma lt (h : c.Holds base (i :: code)) : base < c.code.size := by
  obtain ⟨before, after, eq, len⟩ := h
  have size := congrArg List.length eq
  simp only [Array.length_toList, List.length_append, List.length_cons, len] at size
  omega

/-- Behind the first instruction stand the others. -/
lemma tail (h : c.Holds base (i :: code)) : c.Holds (base + 1) code := by
  rw [show i :: code = [i] ++ code from rfl] at h
  exact h.right

/-- The instruction at the place of code is its first. -/
lemma getElem (h : c.Holds base (i :: code)) (inside : base < c.code.size) : c.code[base] = i := by
  obtain ⟨before, after, eq, rfl⟩ := h
  have here : c.code.toList[before.length]? = some i := by simp [eq]
  rw [Array.getElem?_toList] at here
  exact (Array.getElem?_eq_some_iff.1 here).2

/-- A function that the code calls is one that the chunk calls. -/
lemma mem_callees {f : String} {args : List Register} {dst : Register}
    (h : c.Holds base (.call f args dst :: code)) : f ∈ c.callees := by
  obtain ⟨before, after, eq, len⟩ := h
  rw [Chunk.callees, List.mem_filterMap]
  exact ⟨.call f args dst, by simp [eq], rfl⟩

/-- The place behind code is at most the end of the chunk. -/
lemma le (h : c.Holds base code) : base + code.length ≤ c.code.size := by
  obtain ⟨before, after, eq, len⟩ := h
  have size := congrArg List.length eq
  simp only [Array.length_toList, List.length_append, len] at size
  omega

/-- The places of the six pieces of the code of a conditional. -/
lemma pieces {t a b : List Instruction} {branch move jump last : Instruction}
    (h : c.Holds base (t ++ [branch] ++ a ++ [move, jump] ++ b ++ [last])) :
    c.Holds base t ∧ c.Holds (base + t.length) [branch] ∧ c.Holds (base + t.length + 1) a ∧
      c.Holds (base + t.length + 1 + a.length) [move, jump] ∧
      c.Holds (base + t.length + 1 + a.length + 2) b ∧
      c.Holds (base + t.length + 1 + a.length + 2 + b.length) [last] := by
  refine ⟨h.left.left.left.left.left, h.left.left.left.left.right, ?_, ?_, ?_, ?_⟩
  · exact h.left.left.left.right.cast (by simp +arith)
  · exact h.left.left.right.cast (by simp +arith)
  · exact h.left.right.cast (by simp +arith)
  · exact h.right.cast (by simp +arith)

end Chunk.Holds

end Reckon
