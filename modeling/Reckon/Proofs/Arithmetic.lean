import Mathlib.Data.Int.ModEq
import Mathlib.Tactic.NormNum
import Reckon.Proofs.Agreement

/-!
# Arithmetic

What the operators compute, said in the integers: sums, differences and products are exact modulo
2^64, comparisons compare integers, and quotients and remainders obey the law of division.

* `Operator.apply_of_integer`: the value of a sum, a difference or a product is the only one congruent to it.
* `Operator.division_law`: the quotient times the divisor and the remainder make up the dividend.
* `Expr.run_negate`, `Engine.evaluate_negate`: the product with -1 is the difference from 0, in a run of
  the tree and on either engine.
* `arithmetic_exact`: these together.
-/

namespace Reckon

namespace Operator

/-- The operation on integers that an operator stands for, if it is one that never traps or
compares. -/
def integer? : Operator → Option (Int → Int → Int)
  | .add => some fun l r => l + r
  | .sub => some fun l r => l - r
  | .mul => some fun l r => l * r
  | _ => none

/-- The relation of integers that a comparison asks for. -/
def relation? : Operator → Option (Int → Int → Bool)
  | .gt => some fun l r => decide (r < l)
  | .lt => some fun l r => decide (l < r)
  | .ge => some fun l r => decide (r ≤ l)
  | .le => some fun l r => decide (l ≤ r)
  | .eq => some fun l r => decide (l = r)
  | .ne => some fun l r => decide (l ≠ r)
  | _ => none

variable {l r v : Int64} {i : Int}

/-- There is one value for each residue modulo 2^64. -/
lemma toInt_modEq_iff : v.toInt ≡ i [ZMOD 2 ^ 64] ↔ v = Int64.ofInt i := by
  have here := Int64.ofInt_eq_iff_bmod_eq_toInt i v
  have lower := v.le_toInt
  have upper := v.toInt_lt
  rw [eq_comm, here, Int.ModEq, Int.bmod_def]
  norm_num at lower upper ⊢
  split <;> omega

/-- The value of a sum, a difference or a product is the only one that is congruent to it modulo
2^64. -/
lemma apply_of_integer {op : Operator} {f : Int → Int → Int} (stands : op.integer? = some f) (l r : Int64) :
    ∃ v, op.apply l r = .ok v ∧ ∀ w : Int64, w = v ↔ w.toInt ≡ f l.toInt r.toInt [ZMOD 2 ^ 64] := by
  refine ⟨Int64.ofInt (f l.toInt r.toInt), ?_, fun w => toInt_modEq_iff.symm⟩
  cases op <;> cases stands <;>
    simp [apply, Int64.ofInt_add, Int64.ofInt_sub, Int64.ofInt_mul]

/-- A comparison is 1 where it holds of the exact values, and 0 elsewhere. -/
lemma apply_of_relation {op : Operator} {p : Int → Int → Bool} (asks : op.relation? = some p)
    (l r : Int64) : op.apply l r = .ok (if p l.toInt r.toInt then 1 else 0) := by
  cases op <;> cases asks <;>
    simp [apply, truth, Int64.lt_iff_toInt_lt, Int64.le_iff_toInt_le, ← Int64.toInt_inj]

/-- The quotient times the divisor and the remainder make up the dividend, with wrapping. -/
lemma div_mul_add_mod (l r : Int64) : l / r * r + l % r = l := by
  have quotient : l / r = Int64.ofInt (l.toInt.tdiv r.toInt) := by
    rw [← Int64.toInt_inj, Int64.toInt_div, Int64.toInt_ofInt]
  have remainder : l % r = Int64.ofInt (l.toInt.tmod r.toInt) := by
    rw [← Int64.toInt_mod, Int64.ofInt_toInt]
  calc l / r * r + l % r
    _ = Int64.ofInt (l.toInt.tdiv r.toInt * r.toInt + l.toInt.tmod r.toInt) := by
      rw [Int64.ofInt_add, Int64.ofInt_mul, ← quotient, ← remainder, Int64.ofInt_toInt]
    _ = l := by rw [Int.tdiv_mul_add_tmod, Int64.ofInt_toInt]

/-- A divisor that is not 0 has an exact value that is not 0. -/
lemma toInt_ne_zero (divisor : r ≠ 0) : r.toInt ≠ 0 := by
  intro zero
  exact divisor (Int64.toInt_inj.1 zero)

/-- A remainder is smaller than the divisor. -/
lemma abs_mod_lt (divisor : r ≠ 0) : |(l % r).toInt| < |r.toInt| := by
  have positive : 0 < r.toInt.natAbs := Int.natAbs_pos.2 (toInt_ne_zero divisor)
  rw [Int64.toInt_mod, Int.abs_eq_natAbs, Int.abs_eq_natAbs, Int.natAbs_tmod]
  exact_mod_cast Nat.mod_lt _ positive

/-- A remainder is 0 or has the sign of the dividend. -/
lemma sign_mod (l r : Int64) : l % r = 0 ∨ (l % r).toInt.sign = l.toInt.sign := by
  have sign := Int.sign_tmod l.toInt r.toInt
  rw [← Int64.toInt_mod] at sign
  split at sign
  · exact .inl (Int64.toInt_inj.1 (Int.sign_eq_zero_iff_zero.1 sign))
  · exact .inr sign

/-- A quotient is truncated towards zero, but for the one that is too large. -/
lemma div_truncated (l r : Int64) :
    if l = .minValue ∧ r = -1 then l / r = .minValue ∧ l % r = 0
    else (l / r).toInt = l.toInt.tdiv r.toInt := by
  split
  · rename_i least
    obtain ⟨rfl, rfl⟩ := least
    exact ⟨Int64.minValue_div_neg_one, by decide⟩
  · rename_i other
    by_cases least : l = .minValue
    · exact Int64.toInt_div_of_ne_right l r fun negative => other ⟨least, negative⟩
    · exact Int64.toInt_div_of_ne_left l r least

/-- Only a zero divisor traps, and for all others there are the quotient and the remainder. -/
lemma division_law (divisor : r ≠ 0) :
    ∃ q m, Operator.div.apply l r = .ok q ∧ Operator.rem.apply l r = .ok m ∧
      (do Operator.add.apply (← Operator.mul.apply q r) m) = .ok l ∧
      |m.toInt| < |r.toInt| ∧ (m = 0 ∨ m.toInt.sign = l.toInt.sign) ∧
      if l = .minValue ∧ r = -1 then q = .minValue ∧ m = 0
      else q.toInt = l.toInt.tdiv r.toInt := by
  refine ⟨l / r, l % r, if_neg divisor, if_neg divisor, ?_, abs_mod_lt divisor, sign_mod l r,
    div_truncated l r⟩
  exact congrArg Except.ok (div_mul_add_mod l r)

/-- The product with -1 is the difference from 0. -/
lemma mul_neg_one (x : Int64) : Operator.mul.apply x (-1) = Operator.sub.apply 0 x := by
  have same : x * -1 = 0 - x := by rw [Int64.mul_neg, Int64.mul_one, Int64.zero_sub]
  exact congrArg Except.ok same

end Operator

/-- The run of a negative is that of its operand, with the value taken from 0. -/
lemma Expr.run_negate (fns : FunctionTable) (depth : Nat) (e : Expr) (s : Scope) :
    e.negate.run fns depth s = ((e.run fns depth s).1.map (0 - ·), (e.run fns depth s).2) := by
  have same : ∀ x : Int64, x * -1 = 0 - x := fun x => Except.ok.inj (Operator.mul_neg_one x)
  simp only [Expr.run, negate, eval, Run.bind_apply, Run.pure_apply, Run.trapping_apply,
    Operator.apply]
  rcases e.eval fns (Definition.call fns depth) s with ⟨_ | x, t⟩
  · rfl
  · exact Prod.ext (congrArg Except.ok (same x)) rfl

/-- On either engine, too, a negative is the difference of its operand from 0, and it leaves the same
values. -/
lemma Engine.evaluate_negate (engine : Engine) (fns : FunctionTable) (depth : Nat) (e : Expr)
    (s : Scope) :
    (engine.evaluate fns depth e.negate s).1 =
        (engine.evaluate fns depth e s).1.map (fun x => { x with value := 0 - x.value }) ∧
      ∀ n, (engine.evaluate fns depth e.negate s).2.get? n =
        (engine.evaluate fns depth e s).2.get? n := by
  obtain ⟨t, left, ran⟩ := engine.evaluate_eq fns depth e s
  obtain ⟨t', left', ran'⟩ := engine.evaluate_eq fns depth e.negate s
  rw [e.run_negate] at left' ran'
  rw [ran, ran']
  refine ⟨?_, fun n => (left' n).trans (left n).symm⟩
  rcases (e.run fns depth s).1 with (_ | _ | _) | _ <;> rfl

/-- Arithmetic is exact. Of the symbols only the sign of assignment has no value. A sum, a difference
and a product are the values congruent to them modulo 2^64, of which there is one each; a comparison is
1 or 0 as the integers compare. A quotient and a remainder trap exactly if the divisor is 0, and else
they make up the dividend: the remainder is smaller than the divisor and 0 or of the dividend's sign,
and the quotient is truncated towards zero, but for that of the least value by -1, which is the least
value again without a remainder. The negative of an expression is the difference of its value from 0 on
either engine, and its negative in turn has the value of the expression. -/
theorem arithmetic_exact (l r : Int64) :
    (∀ s : Symbol, s.eval? l r = none ↔ s = .assign) ∧
    (∀ op f, Operator.integer? op = some f → ∃ v, op.apply l r = .ok v ∧
      ∀ w : Int64, w = v ↔ w.toInt ≡ f l.toInt r.toInt [ZMOD 2 ^ 64]) ∧
    (∀ op p, Operator.relation? op = some p →
      op.apply l r = .ok (if p l.toInt r.toInt then 1 else 0)) ∧
    (∀ t, Operator.div.apply l r = .error t ↔ r = 0 ∧ t = .divideByZero) ∧
    (∀ t, Operator.rem.apply l r = .error t ↔ r = 0 ∧ t = .remainderByZero) ∧
    (r ≠ 0 → ∃ q m, Operator.div.apply l r = .ok q ∧ Operator.rem.apply l r = .ok m ∧
      (do Operator.add.apply (← Operator.mul.apply q r) m) = .ok l ∧
      |m.toInt| < |r.toInt| ∧ (m = 0 ∨ m.toInt.sign = l.toInt.sign) ∧
      if l = .minValue ∧ r = -1 then q = .minValue ∧ m = 0
      else q.toInt = l.toInt.tdiv r.toInt) ∧
    Operator.mul.apply l (-1) = Operator.sub.apply 0 l ∧
    ∀ (engine : Engine) (fns : FunctionTable) (depth : Nat) (e : Expr) (s : Scope),
      (engine.evaluate fns depth e.negate s).1 =
          (engine.evaluate fns depth e s).1.map (fun x => { x with value := 0 - x.value }) ∧
        (engine.evaluate fns depth e.negate.negate s).1 = (engine.evaluate fns depth e s).1 := by
  refine ⟨fun s => ?_, fun op f stands => Operator.apply_of_integer stands l r,
    fun op p asks => Operator.apply_of_relation asks l r, fun t => ?_, fun t => ?_,
    Operator.division_law, Operator.mul_neg_one l, fun engine fns depth e s => ?_⟩
  · cases s <;> simp [Symbol.eval?]
  · by_cases zero : r = 0 <;> simp [Operator.apply, zero, eq_comm]
  · by_cases zero : r = 0 <;> simp [Operator.apply, zero, eq_comm]
  · have once := (engine.evaluate_negate fns depth e s).1
    refine ⟨once, ?_⟩
    rw [(engine.evaluate_negate fns depth e.negate s).1, once]
    rcases (engine.evaluate fns depth e s).1 with _ | x
    · rfl
    · have twice : 0 - (0 - x.value) = x.value := by
        rw [Int64.zero_sub, Int64.zero_sub, Int64.neg_neg]
      exact congrArg (fun v => Except.ok { x with value := v }) twice

/-- The least value: its quotient by -1 is itself, its product with itself is 0, and it is its own
negative, also as the value of a variable on either engine. -/
theorem arithmetic_exact_least :
    let least := Int64.minValue
    let s := Scope.empty.assign "x" least
    least ≠ 0 ∧ (-1 : Int64) ≠ 0 ∧
    (∃ q m, Operator.div.apply least (-1) = .ok q ∧ Operator.rem.apply least (-1) = .ok m ∧
      q = least ∧ m = 0) ∧
    (∃ v, Operator.mul.apply least least = .ok v ∧ v = 0) ∧
    ∀ engine : Engine, (engine.evaluate .empty 0 (Expr.var "x").negate s).1 = .ok ⟨least, #[]⟩ := by
  intro least s
  obtain ⟨-, -, -, -, -, law, -, negation⟩ := arithmetic_exact least (-1)
  obtain ⟨-, product, -⟩ := arithmetic_exact least least
  have divisor : (-1 : Int64) ≠ 0 := by decide
  refine ⟨by decide, divisor, ?_, ?_, fun engine => ?_⟩
  · obtain ⟨q, m, quotient, remainder, -, -, -, ends⟩ := law divisor
    rw [if_pos ⟨rfl, rfl⟩] at ends
    exact ⟨q, m, quotient, remainder, ends⟩
  · obtain ⟨v, value, only⟩ := product .mul _ rfl
    have congruent : (0 : Int64).toInt ≡ least.toInt * least.toInt [ZMOD 2 ^ 64] := by
      rw [show least.toInt = -2 ^ 63 from Int64.toInt_minValue, Int64.toInt_zero, Int.ModEq]
      norm_num
    exact ⟨v, value, ((only 0).2 congruent).symm⟩
  · have value : (engine.evaluate .empty 0 (.var "x") s).1 = .ok ⟨least, #[]⟩ := by
      obtain ⟨after, -, ran⟩ := engine.evaluate_eq .empty 0 (.var "x") s
      rw [ran]
      rfl
    have negative : 0 - least = least := by decide
    rw [(negation engine .empty 0 (.var "x") s).1, value]
    exact congrArg (fun v => Except.ok (Evaluation.mk v #[])) negative

end Reckon
