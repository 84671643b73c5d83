import Reckon.Proofs.Parsing.Sound

/-!
# What is derived is read

What a rule derives, the parser reads by that rule, if nothing follows with which it would go on
(`complete`). The proof is by induction on the derivation, with one lemma about each kind of node. In
each of them the token behind a part shows that the parser stops there: the operators that can follow an
operand bind looser than those in it.
-/

namespace Reckon

open Token (Kind)
open Reckon.Parser

namespace Grammar

variable {callable : String → Bool} {rule : Rule} {level : Level} {ts rest : List Token} {e : Expr}
  {k : Kind} {ks ls ms : List Kind}

/-- With a token of this kind the parser goes on, when it has read something by the rule. -/
def Rule.GoesOn : Rule → Kind → Prop
  | .assignment, k => k = .symbol .assign ∨ k = .question ∨ ∃ op, k = .symbol (.value op)
  | .conditional, k => k = .question ∨ ∃ op, k = .symbol (.value op)
  | .chain level, k => ∃ op, k = .symbol (.value op) ∧ rank op.level ≤ rank level
  | .factor, _ => False

/-- In front of anything with which the parser would not go on, the kinds are read as the expression. -/
def Complete (callable : String → Bool) (rule : Rule) (ks : List Kind) (e : Expr) : Prop :=
  ∀ ts rest, Passes ks ts rest → ¬rule.GoesOn (nextKind rest) → Reads (rule.read callable ts) e rest

section Chains

/-- An operand goes on with operators that bind tighter than those of its chain. -/
lemma goesOn_operand (h : (operand level).GoesOn k) :
    ∃ op, k = .symbol (.value op) ∧ rank op.level < rank level := by
  cases level with
  | product => cases h
  | sum | test =>
    obtain ⟨op, eq, le⟩ := h
    exact ⟨op, eq, Nat.lt_succ_of_le le⟩

/-- A chain goes on with whatever its operands go on with. -/
lemma goesOn_chain_of_operand (h : (operand level).GoesOn k) : (Rule.chain level).GoesOn k := by
  obtain ⟨op, eq, lt⟩ := goesOn_operand h
  exact ⟨op, eq, Nat.le_of_lt lt⟩

/-- No operand goes on with an operator of the chain that it stands in. -/
lemma not_goesOn_operand {op : Operator} (same : op.level = level) :
    ¬(operand level).GoesOn (.symbol (.value op)) := by
  intro goes
  obtain ⟨op', eq, lt⟩ := goesOn_operand goes
  cases eq
  rw [same] at lt
  exact Nat.lt_irrefl _ lt

/-- Where a chain does not go on, none of its operators stands. -/
lemma operator?_of_not_goesOn (stops : ¬(Rule.chain level).GoesOn k) : level.operator? k = none := by
  cases h : level.operator? k with
  | none => rfl
  | some op =>
    obtain ⟨rfl, rfl⟩ := operator?_eq_some_iff.1 h
    exact absurd ⟨op, rfl, Nat.le_refl _⟩ stops

/-- The operators of a chain are read, each with its operand, and the operand before them stops there. -/
lemma complete_chainRest (left : Expr) {more : List (Operator × Phrase)}
    (levels : ∀ x ∈ more, x.1.level = level)
    (operands : ∀ x ∈ more, Complete callable (operand level) x.2.kinds x.2.expr)
    (passes : Passes (more.flatMap link) ts rest)
    (stops : ¬(Rule.chain level).GoesOn (nextKind rest)) :
    Reads (chainRest callable level left ts)
        (more.foldl (fun left x => .binary x.1 left x.2.expr) left) rest ∧
      ¬(operand level).GoesOn (nextKind ts) := by
  induction more generalizing left ts with
  | nil =>
    obtain rfl : ts = rest := passes
    refine ⟨reads_chainRest.2 (.inl ⟨operator?_of_not_goesOn stops, rfl, rfl⟩), ?_⟩
    intro goes
    exact stops (goesOn_chain_of_operand goes)
  | cons x more ih =>
    obtain ⟨same, levels⟩ := List.forall_mem_cons.1 levels
    obtain ⟨first, operands⟩ := List.forall_mem_cons.1 operands
    obtain ⟨mid, ⟨inner, next, passes⟩, tail⟩ := passes_append.1 passes
    obtain ⟨others, ends⟩ := ih (.binary x.1 left x.2.expr) levels operands tail
    have read := first inner mid passes ends
    rw [read_operand] at read
    constructor
    · exact reads_chainRest.2 (.inr ⟨x.1, inner, ⟨same, next⟩, x.2.expr, mid, read, others⟩)
    · rw [next.nextKind_eq]
      exact not_goesOn_operand same

/-- A chain is read operand by operand. -/
lemma complete_chain {more : List (Operator × Phrase)} (h : Complete callable (operand level) ks e)
    (levels : ∀ x ∈ more, x.1.level = level)
    (operands : ∀ x ∈ more, Complete callable (operand level) x.2.kinds x.2.expr) :
    Complete callable (.chain level) (ks ++ more.flatMap link)
      (more.foldl (fun left x => .binary x.1 left x.2.expr) e) := by
  intro ts rest passes stops
  obtain ⟨mid, passes, tail⟩ := passes_append.1 passes
  obtain ⟨others, ends⟩ := complete_chainRest e levels operands tail stops
  have read := h ts mid passes ends
  rw [read_operand] at read
  exact reads_chain.2 ⟨e, mid, read, others⟩

end Chains

section Conditionals

/-- A conditional without its question mark is the chain of its test. -/
lemma complete_test (h : Complete callable (.chain .test) ks e) :
    Complete callable .conditional ks e := by
  intro ts rest passes stops
  have read : Reads (chain callable .test ts) e rest := by
    apply h ts rest passes
    intro ⟨op, eq, _⟩
    exact stops (.inr ⟨op, eq⟩)
  exact reads_conditional.2 ⟨e, rest, read, .inl ⟨fun eq => stops (.inl eq), rfl, rfl⟩⟩

/-- A conditional is read with its test and its arms. -/
lemma complete_cond {t a b : Expr} (ht : Complete callable (.chain .test) ks t)
    (ha : Complete callable (.chain .test) ls a) (hb : Complete callable .conditional ms b) :
    Complete callable .conditional (ks ++ .question :: ls ++ .colon :: ms) (.cond t a b) := by
  intro ts rest passes stops
  obtain ⟨mid', passes, inner', colon, tail⟩ := passes_append.1 passes
  obtain ⟨mid, passes, inner, question, passesA⟩ := passes_append.1 passes
  have readT := ht ts mid passes (by simp [Rule.GoesOn, question.nextKind_eq])
  have readA := ha inner mid' passesA (by simp [Rule.GoesOn, colon.nextKind_eq])
  have readB := hb inner' rest tail stops
  exact reads_conditional.2
    ⟨t, mid, readT, .inr ⟨inner, question, a, mid', readA, inner', colon, b, readB, rfl⟩⟩

end Conditionals

section Assignments

/-- An assignment without its sign is a conditional. -/
lemma complete_plain (h : Complete callable .conditional ks e) :
    Complete callable .assignment ks e := by
  intro ts rest passes stops
  have read := h ts rest passes fun goes => stops (.inr goes)
  exact reads_assignment.2 ⟨e, rest, read, .inl ⟨fun eq => stops (.inl eq), rfl, rfl⟩⟩

/-- An assignment is read with its target and its right side. -/
lemma complete_assign {target value : Expr} (ht : Complete callable .conditional ks target)
    (hv : Complete callable .assignment ls value) :
    Complete callable .assignment (ks ++ .symbol .assign :: ls) (.assign target value) := by
  intro ts rest passes stops
  obtain ⟨mid, passes, inner, sign, tail⟩ := passes_append.1 passes
  have readT := ht ts mid passes (by simp [Rule.GoesOn, sign.nextKind_eq])
  have readV := hv inner rest tail stops
  exact reads_assignment.2 ⟨target, mid, readT, .inr ⟨inner, sign, value, readV, rfl⟩⟩

end Assignments

section Factors

/-- A sign is read with the factor behind it. -/
lemma complete_minus {sign : Kind} (isSign : sign = .symbol (.value .sub) ∨ sign = .tilde)
    (h : Complete callable .factor ks e) : Complete callable .factor (sign :: ks) e.negate := by
  intro ts rest ⟨more, next, passes⟩ stops
  have read := h more rest passes stops
  exact (reads_factor_minus next isSign).2 ⟨e, read, rfl⟩

/-- An integer is read as a literal. -/
lemma complete_integer {v : Int64} : Complete callable .factor [.integer v] (.lit v) := by
  intro ts rest ⟨more, next, eq⟩ _
  cases eq
  exact (reads_factor_integer next).2 ⟨rfl, rfl⟩

/-- A name that is no function is read as a variable. -/
lemma complete_name {x : String} (free : callable x = false) :
    Complete callable .factor [.identifier x] (.var x) := by
  intro ts rest ⟨more, next, eq⟩ _
  cases eq
  exact (reads_factor_name next free).2 ⟨rfl, rfl⟩

/-- Arguments that derive expressions are read, if nothing follows with which the last one or the list
would go on. -/
lemma complete_argumentList {parts : List Phrase} (filled : parts ≠ [])
    (all : ∀ a ∈ parts, Complete callable .assignment a.kinds a.expr)
    (passes : Passes (listed (parts.map Phrase.kinds)) ts rest)
    (stops : ¬Rule.assignment.GoesOn (nextKind rest)) (ends : nextKind rest ≠ .comma) :
    Reads (argumentList callable ts) (parts.map Phrase.expr) rest := by
  induction parts generalizing ts with
  | nil => exact absurd rfl filled
  | cons a parts ih =>
    obtain ⟨first, all⟩ := List.forall_mem_cons.1 all
    cases parts with
    | nil =>
      rw [List.map_cons, List.map_nil, listed_singleton] at passes
      have read := first ts rest passes stops
      exact reads_argumentList.2 ⟨a.expr, rest, read, .inl ⟨ends, rfl, rfl⟩⟩
    | cons b parts =>
      rw [List.map_cons, List.map_cons, listed_cons_cons] at passes
      obtain ⟨mid, passes, inner, comma, tail⟩ := passes_append.1 passes
      have read := first ts mid passes (by simp [Rule.GoesOn, comma.nextKind_eq])
      have others := ih (List.cons_ne_nil b parts) all tail
      exact reads_argumentList.2 ⟨a.expr, mid, read, .inr ⟨inner, comma, _, others, rfl⟩⟩

/-- Parts with commas between them start like the first one. -/
lemma nextKind_of_listed {kinds : List Kind} {parts : List (List Kind)}
    (passes : Passes (listed ((k :: kinds) :: parts)) ts rest) : nextKind ts = k := by
  obtain ⟨tail, eq⟩ := exists_listed_cons (k :: kinds) parts
  rw [eq] at passes
  obtain ⟨_, next, _⟩ := passes
  exact next.nextKind_eq

/-- A call is read with its arguments. -/
lemma complete_call {f : String} {args : List Phrase} (known : callable f = true)
    (derives : ∀ a ∈ args, Derives callable .assignment a.kinds a.expr)
    (all : ∀ a ∈ args, Complete callable .assignment a.kinds a.expr) :
    Complete callable .factor
      (.identifier f :: .lparen :: listed (args.map Phrase.kinds) ++ [.rparen])
      (.call f (args.map Phrase.expr)) := by
  intro ts rest ⟨more, next, inner, paren, passes⟩ _
  obtain ⟨mid, inside, _, close, eq⟩ := passes_append.1 passes
  cases eq
  refine (reads_factor_call next known).2 ⟨inner, paren, _, reads_arguments.2 ?_, rfl⟩
  cases args with
  | nil =>
    cases inside
    exact .inr ⟨rest, close, rfl, rfl⟩
  | cons a args =>
    have read := complete_argumentList (List.cons_ne_nil a args) all inside
      (by simp [Rule.GoesOn, close.nextKind_eq]) (by simp [close.nextKind_eq])
    -- an argument does not start with the parenthesis that would end an empty list
    obtain ⟨k, kinds, eq, opens, -⟩ := (derives a (by simp)).starts
    rw [List.map_cons, eq] at inside
    rw [← nextKind_of_listed inside] at opens
    exact .inl ⟨opens, mid, read, close⟩

/-- What stands in parentheses is read as by itself. -/
lemma complete_parens (h : Complete callable .assignment ks e) :
    Complete callable .factor (.lparen :: ks ++ [.rparen]) e := by
  intro ts rest ⟨more, next, passes⟩ _
  obtain ⟨mid, inside, _, close, eq⟩ := passes_append.1 passes
  cases eq
  have read := h more mid inside (by simp [Rule.GoesOn, close.nextKind_eq])
  exact (reads_factor_parens next).2 ⟨mid, read, close⟩

end Factors

/-- What a rule derives, the parser reads by that rule. -/
lemma complete (h : Derives callable rule ks e) : Complete callable rule ks e := by
  induction h with
  | plain _ ih => exact complete_plain ih
  | assign _ _ iht ihv => exact complete_assign iht ihv
  | test _ ih => exact complete_test ih
  | cond _ _ _ iht iha ihb => exact complete_cond iht iha ihb
  | chain _ levels _ ih ihs => exact complete_chain ih levels ihs
  | minus sign _ ih => exact complete_minus sign ih
  | integer => exact complete_integer
  | name free => exact complete_name free
  | call known derives ihs => exact complete_call known derives ihs
  | parens _ ih => exact complete_parens ih

end Grammar

end Reckon
