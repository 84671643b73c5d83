import Mathlib.Algebra.Ring.Nat
import Reckon.Proofs.Reached
import Reckon.Proofs.Registers

/-!
# Where jumps lead

The code of an expression is put together from the codes of its parts. Control leaves the order of the
instructions only at the branch and at the jump of a conditional, and both lead forward.

* `Expr.Part`, `Expr.holds_part`: the parts of an expression, and where their code stands.
* `Expr.turns_lower`: the instructions of the code that lead elsewhere than behind them are those of
  conditionals.
* `Chunk.Forward`, `Chunk.forward_of_code`: how control flows in a chunk of a program.
-/

namespace Reckon

namespace Instruction

/-- The instruction gives the result of a chunk: it prints or returns a value. -/
def gives : Instruction → Bool
  | .ret _ | .print _ => true
  | _ => false

/-- Control goes on behind the instruction, if the run does not stop there, and there is no result. -/
def plain (i : Instruction) : Bool := i.target?.isNone && !i.gives

end Instruction

namespace Expr

/-- Number of instructions that an expression is lowered to. -/
def codeSize (fns : FunctionTable) (e : Expr) : Nat := (e.lower fns 0 0 .empty).code.length

/-- In the code of an expression, the code of a part of it stands behind the first `n` instructions. The
parts are the expressions that are lowered for it. -/
inductive Part (fns : FunctionTable) : Expr → Nat → Expr → Prop where
  | self (e : Expr) : Part fns e 0 e
  | value {x value n e} : Part fns value n e → Part fns (.assign (.var x) value) n e
  | left {op left right n e} : Part fns left n e → Part fns (.binary op left right) n e
  | right {op left right n e} : Part fns right n e →
    Part fns (.binary op left right) (left.codeSize fns + n) e
  | test {test whenTrue whenFalse n e} : Part fns test n e →
    Part fns (.cond test whenTrue whenFalse) n e
  | whenTrue {test whenTrue whenFalse n e} : Part fns whenTrue n e →
    Part fns (.cond test whenTrue whenFalse) (test.codeSize fns + 1 + n) e
  | whenFalse {test whenTrue whenFalse n e} : Part fns whenFalse n e →
    Part fns (.cond test whenTrue whenFalse)
      (test.codeSize fns + 1 + whenTrue.codeSize fns + 2 + n) e
  | arg {f d before arg after n e} : fns.find? f = some d →
    (before ++ arg :: after).length = d.arity → Part fns arg n e →
    Part fns (.call f (before ++ arg :: after)) ((before.map (codeSize fns)).sum + n) e

variable {fns : FunctionTable} {f : String} {e e' t a b : Expr} {n : Nat} {c : Chunk}

section Size

/-- The code of arguments is as long as the code of each of them together, if that has its size. -/
lemma length_lowerArgs_of {es : List Expr}
    (all : ∀ e ∈ es, ∀ base next scope, (e.lower fns base next scope).code.length = e.codeSize fns)
    (base : Nat) (next : Register) (scope : Scope) :
    (lowerArgs fns es base next scope).code.length = (es.map (codeSize fns)).sum := by
  induction es generalizing base next scope with
  | nil => rfl
  | cons e es ih =>
    obtain ⟨first, others⟩ := List.forall_mem_cons.1 all
    rw [lowerArgs, List.length_append, List.map_cons, List.sum_cons, first, ih others]

/-- The number of instructions does not depend on where the code stands. -/
lemma length_lower (e : Expr) : ∀ base next scope,
    (e.lower fns base next scope).code.length = e.codeSize fns := by
  induction e using Expr.induction with
  | lit | var => exact fun _ _ _ => rfl
  | assign target value _ ih =>
    intro base next scope
    cases target with
    | var x =>
      rw [codeSize]
      simp only [lower, List.length_append, ih, List.length_singleton]
    | _ => rfl
  | binary op left right ihl ihr =>
    intro base next scope
    rw [codeSize]
    simp only [lower, List.length_append, ihl, ihr, List.length_singleton]
  | cond test whenTrue whenFalse iht iha ihb =>
    intro base next scope
    rw [codeSize]
    simp only [lower, List.length_append, iht, iha, ihb, List.length_cons]
  | call f args ih =>
    intro base next scope
    cases lower_call_cases fns f args with
    | inl entered =>
      obtain ⟨d, found, fits⟩ := entered
      rw [codeSize, lower_call found fits, lower_call found fits]
      simp only [List.length_append, length_lowerArgs_of ih, List.length_singleton]
    | inr refused =>
      obtain ⟨reason, -, lowered⟩ := refused
      rw [codeSize, lowered, lowered]
      rfl

/-- The code of arguments is as long as the code of each of them together. -/
lemma length_lowerArgs (es : List Expr) (base : Nat) (next : Register) (scope : Scope) :
    (lowerArgs fns es base next scope).code.length = (es.map (codeSize fns)).sum :=
  length_lowerArgs_of (fun e _ => length_lower e) base next scope

/-- The code of an assignment has a store behind its right side. -/
lemma codeSize_assign {x : String} {value : Expr} :
    codeSize fns (.assign (.var x) value) = value.codeSize fns + 1 := by
  rw [codeSize, lower, List.length_append, length_lower]
  rfl

/-- The code of an operation has an instruction behind its operands. -/
lemma codeSize_binary {op : Operator} {left right : Expr} :
    codeSize fns (.binary op left right) = left.codeSize fns + right.codeSize fns + 1 := by
  rw [codeSize, lower, List.length_append, List.length_append, length_lower, length_lower]
  rfl

/-- The code of a conditional has a branch, a jump and two moves besides its parts. -/
lemma codeSize_cond : codeSize fns (.cond t a b) =
    t.codeSize fns + 1 + a.codeSize fns + 2 + b.codeSize fns + 1 := by
  rw [codeSize]
  simp only [lower, List.length_append, length_lower, List.length_cons]
  rfl

/-- The code of a call that fits has an instruction behind its arguments. -/
lemma codeSize_call {args : List Expr} {d : Definition} (found : fns.find? f = some d)
    (fits : args.length = d.arity) :
    codeSize fns (.call f args) = (args.map (codeSize fns)).sum + 1 := by
  rw [codeSize, lower_call found fits]
  simp only [List.length_append, length_lowerArgs, List.length_singleton]

/-- The code of a part ends where the code of the expression does, or before. -/
lemma Part.le (h : Part fns e n e') : n + e'.codeSize fns ≤ e.codeSize fns := by
  induction h with
  | self => omega
  | value _ ih => rw [codeSize_assign]; omega
  | left _ ih | right _ ih => rw [codeSize_binary]; omega
  | test _ ih | whenTrue _ ih | whenFalse _ ih => rw [codeSize_cond]; omega
  | arg found fits _ ih =>
    rw [codeSize_call found fits, List.map_append, List.sum_append, List.map_cons, List.sum_cons]
    omega

end Size

section Places

/-- The code of an argument stands behind those of the arguments before it. -/
lemma holds_arg {before after : List Expr} {arg : Expr} : ∀ (base : Nat) (next : Register)
    (scope : Scope), c.Holds base (lowerArgs fns (before ++ arg :: after) base next scope).code →
      ∃ next' scope', let start := base + (before.map (codeSize fns)).sum
        c.Holds start (arg.lower fns start next' scope').code := by
  induction before with
  | nil => exact fun base next scope holds => ⟨next, scope, holds.left⟩
  | cons first before ih =>
    intro base next scope holds
    obtain ⟨next', scope', here⟩ := ih _ _ _ holds.right
    refine ⟨next', scope', ?_⟩
    rw [List.map_cons, List.sum_cons, ← Nat.add_assoc, ← first.length_lower base next scope]
    exact here

/-- Where the code of an expression stands, the code of each part stands at its place. -/
lemma holds_part (part : Part fns e n e') : ∀ (base : Nat) (next : Register) (scope : Scope),
    c.Holds base (e.lower fns base next scope).code →
      ∃ next' scope', c.Holds (base + n) (e'.lower fns (base + n) next' scope').code := by
  induction part with
  | self => exact fun base next scope holds => ⟨next, scope, holds⟩
  | value _ ih => exact fun base next scope holds => ih base next scope holds.left
  | left _ ih => exact fun base next scope holds => ih base next scope holds.left.left
  | right _ ih =>
    intro base next scope holds
    have here := ih _ _ _ holds.left.right
    rwa [length_lower, Nat.add_assoc] at here
  | test _ ih => exact fun base next scope holds => ih base next scope holds.pieces.1
  | whenTrue _ ih =>
    intro base next scope holds
    have here := ih _ _ _ holds.pieces.2.2.1
    simp only [length_lower, Nat.add_assoc] at here ⊢
    exact here
  | whenFalse _ ih =>
    intro base next scope holds
    have here := ih _ _ _ holds.pieces.2.2.2.2.1
    simp only [length_lower, Nat.add_assoc] at here ⊢
    exact here
  | arg found fits _ ih =>
    intro base next scope holds
    rw [lower_call found fits] at holds
    obtain ⟨next', scope', here⟩ := holds_arg base next scope holds.left
    have inside := ih _ _ _ here
    rwa [Nat.add_assoc] at inside

end Places

section Turns

/-- Of the instructions of the code, only those at places with the property are not plain. -/
def Turns (code : List Instruction) (Q : Nat → Prop) : Prop :=
  ∀ place i, code[place]? = some i → i.plain = false → Q place

namespace Turns

variable {code code' : List Instruction} {Q Q' : Nat → Prop} {i : Instruction}

/-- Plain code turns nowhere. -/
lemma of_plain (plain : ∀ i ∈ code, i.plain = true) : Turns code Q := by
  intro place i here turns
  cases turns.symm.trans (plain i (List.mem_of_getElem? here))

/-- A single instruction turns at its place only. -/
lemma single (holds : Q 0) : Turns [i] Q := by
  intro place j here _
  obtain ⟨lt, -⟩ := List.getElem?_eq_some_iff.1 here
  obtain rfl : place = 0 := Nat.lt_one_iff.1 lt
  exact holds

/-- Code that turns at some places turns at more of them. -/
lemma mono (h : Turns code Q) (imp : ∀ place, Q place → Q' place) : Turns code Q' :=
  fun place i here turns => imp place (h place i here turns)

/-- Code turns where its first part does, and where its second does behind that. -/
lemma append (first : Turns code Q) (second : Turns code' fun place => Q (code.length + place)) :
    Turns (code ++ code') Q := by
  intro place i here turns
  cases Nat.lt_or_ge place code.length with
  | inl front =>
    rw [List.getElem?_append_left front] at here
    exact first place i here turns
  | inr behind =>
    rw [List.getElem?_append_right behind] at here
    exact Nat.add_sub_cancel' behind ▸ second _ i here turns

end Turns

/-- At this place in the code of an expression stands the branch or the jump of a conditional. -/
def Turn (fns : FunctionTable) (e : Expr) (place : Nat) : Prop :=
  ∃ n t a b, Part fns e n (.cond t a b) ∧
    (place = n + t.codeSize fns ∨ place = n + t.codeSize fns + 1 + a.codeSize fns + 1)

/-- The conditionals of a part are conditionals of the whole. -/
lemma Turn.more {k place : Nat} (parts : ∀ {n e''}, Part fns e' n e'' → Part fns e (k + n) e'')
    (h : Turn fns e' place) : Turn fns e (k + place) := by
  obtain ⟨n, t, a, b, part, eq⟩ := h
  refine ⟨k + n, t, a, b, parts part, ?_⟩
  omega

/-- Where a part turns, the whole does. -/
lemma Turn.same {place : Nat} (parts : ∀ {n e''}, Part fns e' n e'' → Part fns e n e'')
    (h : Turn fns e' place) : Turn fns e place := by
  obtain ⟨n, t, a, b, part, eq⟩ := h
  exact ⟨n, t, a, b, parts part, eq⟩

/-- The code of arguments turns where the code of one of them does. -/
lemma turns_lowerArgs {args before : List Expr}
    (all : ∀ e ∈ args, ∀ base next scope, Turns (e.lower fns base next scope).code (e.Turn fns))
    {d : Definition} (found : fns.find? f = some d) (fits : (before ++ args).length = d.arity)
    (base : Nat) (next : Register) (scope : Scope) :
    Turns (lowerArgs fns args base next scope).code fun place =>
      Turn fns (.call f (before ++ args)) ((before.map (codeSize fns)).sum + place) := by
  induction args generalizing before base next scope with
  | nil => exact .of_plain nofun
  | cons e es ih =>
    obtain ⟨first, others⟩ := List.forall_mem_cons.1 all
    refine .append ?_ ?_
    · exact (first base next scope).mono fun place turn => turn.more (.arg found fits)
    · have regroup : before ++ e :: es = (before ++ [e]) ++ es := by simp
      rw [regroup] at fits ⊢
      refine (ih others fits _ _ _).mono fun place turn => ?_
      rw [length_lower, ← Nat.add_assoc]
      simpa using turn

/-- The instructions of an expression are plain but for the branches and jumps of its conditionals. -/
lemma turns_lower (e : Expr) : ∀ base next scope,
    Turns (e.lower fns base next scope).code (e.Turn fns) := by
  induction e using Expr.induction with
  | lit | var => exact fun _ _ _ => .of_plain (List.forall_mem_singleton.2 rfl)
  | assign target value _ ih =>
    intro base next scope
    cases target with
    | var x =>
      refine .append ?_ (.of_plain (List.forall_mem_singleton.2 rfl))
      exact (ih base next scope).mono fun place turn => turn.same .value
    | _ => exact .of_plain (List.forall_mem_singleton.2 rfl)
  | binary op left right ihl ihr =>
    intro base next scope
    refine .append (.append ?_ ?_) (.of_plain (List.forall_mem_singleton.2 rfl))
    · exact (ihl _ _ _).mono fun place turn => turn.same .left
    · refine (ihr _ _ _).mono fun place turn => ?_
      rw [length_lower]
      exact turn.more .right
  | cond t a b iht iha ihb =>
    intro base next scope
    refine .append (.append (.append (.append (.append ?test ?branch) ?whenTrue) ?close) ?whenFalse)
      (.of_plain (List.forall_mem_singleton.2 rfl))
    case test => exact (iht _ _ _).mono fun place turn => turn.same .test
    case branch =>
      refine .single ⟨0, t, a, b, .self _, .inl ?_⟩
      rw [length_lower, Nat.zero_add, Nat.add_zero]
    case whenTrue =>
      refine (iha _ _ _).mono fun place turn => ?_
      rw [List.length_append, length_lower, List.length_singleton]
      exact turn.more .whenTrue
    case close =>
      show Turns ([.move _ _] ++ [.jump _]) _
      refine .append (.of_plain (List.forall_mem_singleton.2 rfl)) ?_
      refine .single ⟨0, t, a, b, .self _, .inr ?_⟩
      simp only [List.length_append, length_lower, List.length_singleton]
      omega
    case whenFalse =>
      refine (ihb _ _ _).mono fun place turn => ?_
      simp only [List.length_append, length_lower, List.length_cons, List.length_nil]
      exact turn.more .whenFalse
  | call f args ih =>
    intro base next scope
    cases lower_call_cases fns f args with
    | inl entered =>
      obtain ⟨d, found, fits⟩ := entered
      rw [lower_call found fits]
      refine .append ?_ (.of_plain (List.forall_mem_singleton.2 rfl))
      have all : ([] ++ args).length = d.arity := fits
      have turns := turns_lowerArgs ih found all base next scope
      simpa using turns
    | inr refused =>
      obtain ⟨reason, -, lowered⟩ := refused
      rw [lowered]
      exact .of_plain (List.forall_mem_singleton.2 rfl)

end Turns

end Expr

open Reckon.Expr

namespace Chunk

/-- The place of the false arm of a conditional whose code starts at place `n`: behind the test, the
branch, the true arm, the move of its result and the jump. -/
def falseArm (fns : FunctionTable) (n : Nat) (t a : Expr) : Nat :=
  n + t.codeSize fns + 1 + a.codeSize fns + 2

/-- The place behind the false arm and the move of its result. -/
def behindArm (fns : FunctionTable) (n : Nat) (t a b : Expr) : Nat :=
  falseArm fns n t a + b.codeSize fns + 1

/-- In the chunk a conditional is laid out from place `n` on: its test, a branch to the false arm, the
true arm, a jump over the false arm, and the false arm. A move of its result closes either arm. -/
structure Lays (fns : FunctionTable) (c : Chunk) (n : Nat) (t a b : Expr) : Prop where
  test : ∃ next names, c.Holds n (t.lower fns n next names).code
  branch : ∃ r, c.code[n + t.codeSize fns]? = some (.branch r (falseArm fns n t a))
  whenTrue : ∃ next names, let place := n + t.codeSize fns + 1
    c.Holds place (a.lower fns place next names).code
  jump : c.code[n + t.codeSize fns + 1 + a.codeSize fns + 1]? = some (.jump (behindArm fns n t a b))
  whenFalse : ∃ next names, let place := falseArm fns n t a
    c.Holds place (b.lower fns place next names).code
  close : ∃ dst src, c.code[falseArm fns n t a + b.codeSize fns]? = some (.move dst src)

/-- Control in the chunk of an expression. Its last instruction gives the result, and no other does.
Branches and jumps lead forward to places in the chunk. They are those of the conditionals that are parts
of the expression: a branch leads to the false arm of its conditional, a jump behind this arm. -/
structure Forward (fns : FunctionTable) (e : Expr) (last : Instruction) (c : Chunk) : Prop where
  size : c.code.size = e.codeSize fns + 1
  last : c.code[e.codeSize fns]? = some last
  only : ∀ pc i, c.code[pc]? = some i → i.gives = true → pc = e.codeSize fns
  target : ∀ pc i target, c.code[pc]? = some i → i.target? = some target →
    pc < target ∧ target < c.code.size
  branch : ∀ pc r target, c.code[pc]? = some (.branch r target) → ∃ n t a b,
    Part fns e n (.cond t a b) ∧ pc = n + t.codeSize fns ∧ target = falseArm fns n t a
  jump : ∀ pc target, c.code[pc]? = some (.jump target) → ∃ n t a b, Part fns e n (.cond t a b) ∧
    pc = n + t.codeSize fns + 1 + a.codeSize fns + 1 ∧ target = behindArm fns n t a b
  lays : ∀ n t a b, Part fns e n (.cond t a b) → c.Lays fns n t a b

variable {fns : FunctionTable} {c : Chunk} {e t a b : Expr} {last i : Instruction} {names : Scope}
  {n pc base : Nat} {code : List Instruction}

/-- The first instruction stands where the code does. -/
lemma Holds.getElem? (h : c.Holds base (i :: code)) : c.code[base]? = some i := by
  rw [Array.getElem?_eq_getElem h.lt, h.getElem h.lt]

/-- A conditional is laid out where its code stands. -/
lemma lays_of_holds {next : Register}
    (holds : c.Holds n ((Expr.cond t a b).lower fns n next names).code) : c.Lays fns n t a b := by
  obtain ⟨test, branch, whenTrue, jump, whenFalse, close⟩ := holds.pieces
  simp only [length_lower] at branch whenTrue jump whenFalse close
  exact ⟨⟨_, _, test⟩, ⟨_, branch.getElem?⟩, ⟨_, _, whenTrue⟩, jump.tail.getElem?, ⟨_, _, whenFalse⟩,
    ⟨_, _, close.getElem?⟩⟩

/-- The conditionals that are parts of the expression are laid out in its chunk. -/
lemma lays_of_part (code : c.code.toList = (e.lower fns 0 0 names).code ++ [last])
    (part : Part fns e n (.cond t a b)) : c.Lays fns n t a b := by
  have whole : c.Holds 0 ((e.lower fns 0 0 names).code ++ [last]) := code ▸ .whole c
  obtain ⟨next, scope, here⟩ := holds_part part 0 0 names whole.left
  rw [Nat.zero_add] at here
  exact lays_of_holds here

/-- An instruction that is not plain is the last, or the branch or the jump of a conditional. -/
lemma turn_cases (code : c.code.toList = (e.lower fns 0 0 names).code ++ [last])
    (here : c.code[pc]? = some i) (turns : i.plain = false) :
    (pc = e.codeSize fns ∧ i = last) ∨ ∃ n t a b, Part fns e n (.cond t a b) ∧
      ((pc = n + t.codeSize fns ∧ ∃ r, i = .branch r (falseArm fns n t a)) ∨
        (pc = n + t.codeSize fns + 1 + a.codeSize fns + 1 ∧ i = .jump (behindArm fns n t a b))) := by
  have listed : ((e.lower fns 0 0 names).code ++ [last])[pc]? = some i := by
    rw [← code, Array.getElem?_toList, here]
  cases Nat.lt_or_ge pc (e.lower fns 0 0 names).code.length with
  | inl front =>
    rw [List.getElem?_append_left front] at listed
    obtain ⟨n, t, a, b, part, place⟩ := e.turns_lower 0 0 names pc i listed turns
    have lays := lays_of_part code part
    refine .inr ⟨n, t, a, b, part, ?_⟩
    rcases place with rfl | rfl
    · obtain ⟨r, branch⟩ := lays.branch
      exact .inl ⟨rfl, r, Option.some.inj (here.symm.trans branch)⟩
    · exact .inr ⟨rfl, Option.some.inj (here.symm.trans lays.jump)⟩
  | inr behind =>
    rw [List.getElem?_append_right behind, List.getElem?_singleton] at listed
    obtain ⟨first, same⟩ : pc - (e.lower fns 0 0 names).code.length = 0 ∧ last = i := by
      simpa using listed
    rw [length_lower] at first behind
    exact .inl ⟨by omega, same.symm⟩

/-- A conditional that is a part of the expression ends in front of the last instruction. -/
lemma behindArm_le (part : Part fns e n (.cond t a b)) : behindArm fns n t a b ≤ e.codeSize fns := by
  have le := part.le
  rw [codeSize_cond] at le
  rw [behindArm, falseArm]
  omega

/-- The code of an expression with an instruction behind it that gives its result. -/
lemma forward_of_code (code : c.code.toList = (e.lower fns 0 0 names).code ++ [last])
    (ends : last.target? = none) : c.Forward fns e last := by
  have size : c.code.size = e.codeSize fns + 1 := by
    rw [← Array.length_toList, code, List.length_append, length_lower, List.length_singleton]
  have final : c.code[e.codeSize fns]? = some last := by
    rw [← Array.getElem?_toList, code, ← length_lower e 0 0 names, List.getElem?_concat_length]
  refine ⟨size, final, ?only, ?target, ?branch, ?jump, fun n t a b => lays_of_part code⟩
  case only =>
    intro pc i here gives
    rcases turn_cases code here (by simp [Instruction.plain, gives]) with
      ⟨place, -⟩ | ⟨n, t, a, b, part, ⟨-, r, rfl⟩ | ⟨-, rfl⟩⟩
    · exact place
    · cases gives
    · cases gives
  case target =>
    intro pc i target here leads
    rcases turn_cases code here (by simp [Instruction.plain, leads]) with
      ⟨-, rfl⟩ | ⟨n, t, a, b, part, ⟨rfl, r, rfl⟩ | ⟨rfl, rfl⟩⟩
    · cases ends.symm.trans leads
    · obtain rfl : falseArm fns n t a = target := Option.some.inj leads
      have le := behindArm_le part
      rw [behindArm] at le
      rw [falseArm] at le ⊢
      omega
    · obtain rfl : behindArm fns n t a b = target := Option.some.inj leads
      have le := behindArm_le part
      rw [behindArm, falseArm] at le ⊢
      omega
  case branch =>
    intro pc r target here
    rcases turn_cases code here rfl with ⟨-, rfl⟩ | ⟨n, t, a, b, part, ⟨place, r', eq⟩ | ⟨-, eq⟩⟩
    · cases ends
    · cases eq
      exact ⟨n, t, a, b, part, place, rfl⟩
    · cases eq
  case jump =>
    intro pc target here
    rcases turn_cases code here rfl with ⟨-, rfl⟩ | ⟨n, t, a, b, part, ⟨-, r', eq⟩ | ⟨place, eq⟩⟩
    · cases ends
    · cases eq
    · cases eq
      exact ⟨n, t, a, b, part, place, rfl⟩

end Chunk

end Reckon
