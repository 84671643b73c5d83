import Mathlib.Data.Set.Insert
import Reckon.Proofs.Agreement
import Reckon.Proofs.Respect

/-!
# Absent variables and those that are 0

An expression cannot tell an absent variable from one that is 0, nor see where the slots are
(`Scope.Indistinct`). So from two tables that differ in nothing else, both engines come to the same
result, and they make the same names live on the one table as on the other
(`Engine.evaluate_indistinct`).
-/

namespace Reckon

open Run

namespace Scope

variable {s t s₀ t₀ : Scope}

/-- Every name has the same value in both scopes, where an absent name counts as 0. -/
def Indistinct (s t : Scope) : Prop := ∀ n, s.value n = t.value n

/-- The names that are live. -/
def liveNames (s : Scope) : Set String := {n | ∃ v, s.get? n = some v}

/-- To read a name changes no value. -/
lemma value_touch (s : Scope) (n m : String) : (s.touch n).value m = s.value m := by
  rw [value, get?_touch]
  split
  · rename_i same
    rw [same]
    rfl
  · rfl

/-- To give a name a value changes the value of this name only. -/
lemma value_assign (s : Scope) (n m : String) (v : Int64) :
    (s.assign n v).value m = if m = n then v else s.value m := by
  rw [value, get?_assign]
  split <;> rfl

/-- A name that was read is live, and no other name becomes it. -/
lemma liveNames_touch (s : Scope) (n : String) : (s.touch n).liveNames = insert n s.liveNames := by
  ext m
  by_cases same : m = n <;> simp [liveNames, get?_touch, same]

/-- A name that is given a value is live, as are those that were. -/
lemma liveNames_assign (s : Scope) (n : String) (v : Int64) :
    (s.assign n v).liveNames = insert n s.liveNames := by
  ext m
  by_cases same : m = n <;> simp [liveNames, get?_assign, same]

/-- Scopes hold the same values, and the same names have become live in them since they were `s₀` and
`t₀`. -/
def IndistinctSince (s₀ t₀ s t : Scope) : Prop :=
  Indistinct s t ∧ ∃ T, s.liveNames = s₀.liveNames ∪ T ∧ t.liveNames = t₀.liveNames ∪ T

/-- Names that become live on both sides at once keep the sides together. -/
lemma IndistinctSince.enliven {s' t' : Scope} {n : String} (h : IndistinctSince s₀ t₀ s t)
    (values : Indistinct s' t') (hs : s'.liveNames = insert n s.liveNames)
    (ht : t'.liveNames = insert n t.liveNames) : IndistinctSince s₀ t₀ s' t' := by
  obtain ⟨-, T, first, second⟩ := h
  refine ⟨values, insert n T, ?_, ?_⟩
  · rw [hs, first, Set.union_insert]
  · rw [ht, second, Set.union_insert]

/-- Reading and writing keep scopes indistinct, and make the same name live in both. -/
lemma respected_indistinctSince (s₀ t₀ : Scope) : Respected (IndistinctSince s₀ t₀) where
  value related x := related.1 x
  touch {s t} related x := by
    refine related.enliven (fun n => ?_) (liveNames_touch s x) (liveNames_touch t x)
    rw [value_touch, value_touch, related.1 n]
  assign {s t} related x v := by
    refine related.enliven (fun n => ?_) (liveNames_assign s x v) (liveNames_assign t x v)
    rw [value_assign, value_assign, related.1 n]

/-- Indistinctness and liveness are about values only, not about slots. -/
lemma value_congr (same : ∀ n, s.get? n = t.get? n) (n : String) : s.value n = t.value n := by
  rw [value, value, same n]

/-- Tables that hold the same have the same live names. -/
lemma liveNames_congr (same : ∀ n, s.get? n = t.get? n) : s.liveNames = t.liveNames := by
  ext n
  rw [liveNames, liveNames, Set.mem_ofPred_eq, Set.mem_ofPred_eq, same n]

end Scope

open Scope

/-- A program cannot tell an absent variable from one that is 0, nor see where the slots are. On tables
that give every name the same value, where an absent name counts as 0, an expression has the same
result on either engine: the same value, rejection or trap, or it is cut off on both. Afterwards the
tables still give every name the same value, and the names that have become live are the same on both
tables and on both engines. -/
theorem Engine.evaluate_indistinct {s t : Scope} (same : Indistinct s t) (fns : FunctionTable)
    (e : Expr) (depth : Nat) :
    ∃ T : Set String, ∀ engine : Engine,
      (engine.evaluate fns depth e s).1 = (engine.evaluate fns depth e t).1 ∧
      Indistinct (engine.evaluate fns depth e s).2 (engine.evaluate fns depth e t).2 ∧
      (engine.evaluate fns depth e s).2.liveNames = s.liveNames ∪ T ∧
      (engine.evaluate fns depth e t).2.liveNames = t.liveNames ∪ T := by
  have start : IndistinctSince s t s t := ⟨same, ∅, by simp, by simp⟩
  have run : Match (IndistinctSince s t) (e.run fns depth s) (e.run fns depth t) :=
    e.eval_respects (respected_indistinctSince s t) s t start
  obtain ⟨result, values, T, first, second⟩ := run
  refine ⟨T, fun engine => ?_⟩
  -- an engine leaves the values that the tree leaves, whatever slots it uses
  obtain ⟨after₁, same₁, eq₁⟩ := engine.evaluate_eq fns depth e s
  obtain ⟨after₂, same₂, eq₂⟩ := engine.evaluate_eq fns depth e t
  rw [eq₁, eq₂]
  refine ⟨?_, fun n => ?_, (liveNames_congr same₁).trans first, (liveNames_congr same₂).trans second⟩
  · rw [result]
  · calc after₁.value n
      _ = (e.run fns depth s).2.value n := value_congr same₁ n
      _ = (e.run fns depth t).2.value n := values n
      _ = after₂.value n := (value_congr same₂ n).symm

/-- Two tables with their slots in another order, of which one has `x` live and 0 and the other has
only a slot for `y`. A division by `x` traps on both, after it has read both names. -/
theorem Engine.evaluate_indistinct_division :
    let s := (Scope.empty.assign "x" 0).assign "k" 5
    let t := (Scope.empty.assign "k" 5).reserve "y"
    let e : Expr := .assign (.var "k") (.binary .div (.var "y") (.var "x"))
    s.slot "k" ≠ t.slot "k" ∧ s.get? "x" ≠ t.get? "x" ∧ Indistinct s t ∧
      ∃ T : Set String, ∀ engine : Engine,
        (engine.evaluate .empty 1 e s).1 = .error (.trap .divideByZero) ∧
        (engine.evaluate .empty 1 e t).1 = .error (.trap .divideByZero) ∧
        (engine.evaluate .empty 1 e s).2.liveNames = s.liveNames ∪ T ∧
        (engine.evaluate .empty 1 e t).2.liveNames = t.liveNames ∪ T := by
  intro s t e
  have same : Indistinct s t := by
    intro n
    by_cases k : n = "k" <;> by_cases x : n = "x" <;>
      simp [s, t, value, get?_assign, k, x]
  obtain ⟨T, agree⟩ := Engine.evaluate_indistinct same .empty e 1
  refine ⟨by decide, by decide, same, T, fun engine => ?_⟩
  obtain ⟨result, -, first, second⟩ := agree engine
  have trapped : (engine.evaluate .empty 1 e s).1 = .error (.trap .divideByZero) := by
    obtain ⟨after, -, ran⟩ := engine.evaluate_eq .empty 1 e s
    have stopped : (e.run .empty 1 s).1 = .error (.trap .divideByZero) := by decide +kernel
    rw [ran, stopped]
    rfl
  exact ⟨trapped, result.symm.trans trapped, first, second⟩

end Reckon
