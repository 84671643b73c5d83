import Mathlib.Tactic.Lemma
import Reckon.Expr.Eval
import Reckon.Scope.Lemmas

/-!
# What evaluation can tell apart

Evaluation sees a scope through `value` and changes it through `touch` and `assign`. So a relation of
scopes that these three respect (`Scope.Respected`) is kept by the evaluation of any expression, which
has the same result on both sides (`Expr.eval_respects`). One such relation is to have the same live
variables, wherever their slots are (`Scope.respected_get?`).
-/

namespace Reckon

namespace Run

variable {σ τ ε α β : Type} {R : σ → τ → Prop} {s : σ} {t : τ}

/-- Two runs have the same result and leave related states. -/
def Match (R : σ → τ → Prop) (x : Except (Stop ε) α × σ) (y : Except (Stop ε) α × τ) : Prop :=
  x.1 = y.1 ∧ R x.2 y.2

/-- Sequences match if their parts do. -/
lemma Match.bind {m : Run σ ε α} {m' : Run τ ε α} {f : α → Run σ ε β} {f' : α → Run τ ε β}
    (first : Match R (m s) (m' t))
    (second : ∀ a s t, R s t → Match R (f a s) (f' a t)) : Match R ((m >>= f) s) ((m' >>= f') t) := by
  rw [bind_apply, bind_apply]
  generalize m s = x at first
  generalize m' t = y at first
  obtain ⟨r, s'⟩ := x
  obtain ⟨r', t'⟩ := y
  obtain ⟨same, related⟩ := first
  cases same
  cases r with
  | error e => exact ⟨rfl, related⟩
  | ok a => exact second a s' t' related

end Run

open Run

/-- What evaluation does to a scope respects the relation, and it cannot tell related scopes apart. -/
structure Scope.Respected (R : Scope → Scope → Prop) : Prop where
  value : ∀ {s t}, R s t → ∀ x, s.value x = t.value x
  touch : ∀ {s t}, R s t → ∀ x, R (s.touch x) (t.touch x)
  assign : ∀ {s t}, R s t → ∀ x v, R (s.assign x v) (t.assign x v)

namespace Expr

variable {R : Scope → Scope → Prop} {fns : FunctionTable}
  {enter : Definition → List Int64 → Except (Stop Rejection) Int64}

/-- Arguments have the same values in related scopes. -/
lemma evalArgs_respects {es : List Expr}
    (all : ∀ e ∈ es, ∀ s t, R s t → Match R (e.eval fns enter s) (e.eval fns enter t)) :
    ∀ s t, R s t → Match R (evalArgs fns enter es s) (evalArgs fns enter es t) := by
  induction es with
  | nil => exact fun s t related => ⟨rfl, related⟩
  | cons e es ih =>
    intro s t related
    simp only [evalArgs]
    apply Match.bind (all e (by simp) s t related)
    intro v s t related
    apply Match.bind (ih (fun e mem => all e (by simp [mem])) s t related)
    intro vs s t related
    exact ⟨rfl, related⟩

/-- An expression has the same result in related scopes and leaves related scopes. -/
lemma eval_respects (respected : Scope.Respected R) (e : Expr) :
    ∀ s t, R s t → Match R (e.eval fns enter s) (e.eval fns enter t) := by
  induction e using Expr.induction with
  | lit v =>
    intro s t related
    simp only [eval]
    exact ⟨rfl, related⟩
  | var x =>
    intro s t related
    simp only [eval, Run.bind_apply, Run.get_apply, Run.set_apply, Run.pure_apply,
      respected.value related x]
    exact ⟨rfl, respected.touch related x⟩
  | assign target value _ ih =>
    intro s t related
    cases target with
    | var x =>
      simp only [eval]
      apply Match.bind (ih s t related)
      intro v s t related
      exact ⟨rfl, respected.assign related x v⟩
    | _ =>
      simp only [eval]
      exact ⟨rfl, related⟩
  | binary op left right ihl ihr =>
    intro s t related
    simp only [eval]
    apply Match.bind (ihl s t related)
    intro l s t related
    apply Match.bind (ihr s t related)
    intro r s t related
    rw [Run.trapping_apply, Run.trapping_apply]
    exact ⟨rfl, related⟩
  | cond test whenTrue whenFalse iht iha ihb =>
    intro s t related
    simp only [eval]
    apply Match.bind (iht s t related)
    intro v s t related
    split
    · exact ihb s t related
    · exact iha s t related
  | call f args ih =>
    intro s t related
    cases eval_call_cases fns f args with
    | inl entered =>
      obtain ⟨d, found, fits⟩ := entered
      rw [eval_call found fits]
      apply Match.bind (evalArgs_respects ih s t related)
      intro vs s t related
      exact ⟨rfl, related⟩
    | inr refused =>
      obtain ⟨reason, evaluated⟩ := refused
      rw [evaluated]
      exact ⟨rfl, related⟩

end Expr

/-- Where slots are cannot be told apart by evaluation. -/
lemma Scope.respected_get? : Respected fun s t => ∀ x, s.get? x = t.get? x where
  value same x := by simp only [value, same x]
  touch same x y := by simp only [get?_touch, value, same]
  assign same x v y := by simp only [get?_assign, same]

/-- Scopes with the same live variables show the same. -/
lemma Scope.text_congr {s t : Scope} (same : ∀ x, s.get? x = t.get? x) : s.text = t.text := by
  have live : s.live = t.live := by
    apply Catalogue.ext_find?
    intro x
    rw [find?_live, find?_live, same x]
  rw [text, text, live]

end Reckon
