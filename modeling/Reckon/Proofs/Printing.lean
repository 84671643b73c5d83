import Reckon.Proofs.Spelling
import Reckon.Proofs.Grammar

/-!
# Infix form

The words of a statement in infix form. A part of an expression stands in parentheses if the rule
that derives it is looser than its place requires, and nowhere else (`Grammar.enclose`); a product
with -1 on its right is a minus sign with a factor behind it. The words derive what they are the
words of, if it is `Writable`: names are identifiers and used as what they are, and literals are not
negative, but for the -1 of a sign.

* `Expr.Writable.derives`, `Expr.Writable.spelled`: the words of a writable expression derive it,
  and each of them has a written form.
* `Expr.writable_of_derives`: nothing else derives from words that have written forms.
* `Statement.forms_words`, `Statement.writable_of_forms`: the same of whole statements.
-/

namespace Reckon

open Token (Kind isIdentifier)

namespace Grammar

/-- How tightly a rule binds, from 0 to 5. -/
def Rule.tightness : Rule → Nat
  | .assignment => 0
  | .conditional => 1
  | .chain .test => 2
  | .chain .sum => 3
  | .chain .product => 4
  | .factor => 5

/-- The rule that derives whatever has nothing of the kind that the rule adds. -/
def Rule.tighter : Rule → Rule
  | .assignment => .conditional
  | .conditional => .chain .test
  | .chain level => operand level
  | .factor => .factor

/-- The words of an expression that the rule `own` derives, where the rule `required` is to derive
it: in parentheses if its rule is looser. -/
def enclose (required own : Rule) (ks : List Kind) : List Kind :=
  if required.tightness ≤ own.tightness then ks else .lparen :: ks ++ [.rparen]

variable {callable : String → Bool} {rule own : Rule} {ks ls : List Kind} {e left right : Expr}
  {op : Operator}

/-- No rule binds tighter than that of a factor. -/
lemma Rule.tightness_le (rule : Rule) : rule.tightness ≤ 5 := by
  cases rule with
  | chain level => cases level <;> decide
  | _ => decide

/-- No two rules bind equally tight. -/
lemma Rule.tightness_injective {rule rule' : Rule} (same : rule.tightness = rule'.tightness) :
    rule = rule' := by
  rcases rule with _ | _ | level | _ <;> rcases rule' with _ | _ | level' | _ <;>
    (try cases level) <;> (try cases level') <;> first | rfl | cases same

/-- The tighter rule is the next one. -/
lemma Rule.tightness_tighter (loose : rule.tightness < 5) :
    rule.tighter.tightness = rule.tightness + 1 := by
  cases rule with
  | chain level => cases level <;> rfl
  | factor => exact absurd loose (Nat.lt_irrefl 5)
  | _ => rfl

/-- What the tighter rule derives, a rule derives as well. -/
lemma Derives.of_tighter (h : Derives callable rule.tighter ks e) : Derives callable rule ks e := by
  cases rule with
  | assignment => exact .plain h
  | conditional => exact .test h
  | chain level =>
    have alone := @Derives.chain callable level ks e [] h nofun nofun
    rwa [List.flatMap_nil, List.append_nil] at alone
  | factor => exact h

/-- What a rule derives, every looser rule does. -/
lemma Derives.loosen (h : Derives callable own ks e) (le : rule.tightness ≤ own.tightness) :
    Derives callable rule ks e := by
  induction gap : own.tightness - rule.tightness generalizing rule with
  | zero =>
    rw [Rule.tightness_injective (show rule.tightness = own.tightness by omega)]
    exact h
  | succ n ih =>
    have top := own.tightness_le
    have step := Rule.tightness_tighter (show rule.tightness < 5 by omega)
    exact (ih (by omega) (by omega)).of_tighter

/-- Enclosed as its place requires, an expression derives there. -/
lemma Derives.enclose (h : Derives callable own ks e) (required : Rule) :
    Derives callable required (enclose required own ks) e := by
  rw [Grammar.enclose]
  split
  · rename_i le
    exact h.loosen le
  · exact (Derives.parens (h.loosen (Nat.zero_le _))).loosen required.tightness_le

/-- A chain is longer by an operator and its right operand. -/
lemma Derives.extend (h : Derives callable (.chain op.level) ks left)
    (h' : Derives callable (operand op.level) ls right) :
    Derives callable (.chain op.level) (ks ++ .symbol (.value op) :: ls)
      (.binary op left right) := by
  cases h with
  | @chain _ ks first more start levels operands =>
    have longer := @Derives.chain callable op.level ks first (more ++ [(op, ⟨ls, right⟩)]) start
      (fun x mem => by
        cases List.mem_append.1 mem with
        | inl mem => exact levels x mem
        | inr mem => rw [List.mem_singleton.1 mem])
      (fun x mem => by
        cases List.mem_append.1 mem with
        | inl mem => exact operands x mem
        | inr mem =>
          rw [List.mem_singleton.1 mem]
          exact h')
    -- the tree of a chain grows at its top, where the last operator is linked
    simpa [link] using longer

end Grammar

open Grammar

namespace Expr

/-- Whether an operator with this on its right is a sign: a product with -1. -/
def negates : Operator → Expr → Bool
  | .mul, .lit v => v == -1
  | _, _ => false

mutual

/-- The words of an expression in infix form, where the rule `required` is to derive it. -/
def words (required : Rule) : Expr → List Kind
  | .lit v => [.integer v]
  | .var x => [.identifier x]
  | .call f args => .identifier f :: .lparen :: listed (argWords args) ++ [.rparen]
  | .binary op left right =>
    if negates op right then .symbol (.value .sub) :: words .factor left
    else enclose required (.chain op.level)
      (words (.chain op.level) left ++ .symbol (.value op) :: words (operand op.level) right)
  | .cond test whenTrue whenFalse =>
    enclose required .conditional
      (words (.chain .test) test ++ .question :: words (.chain .test) whenTrue ++
        .colon :: words .conditional whenFalse)
  | .assign target value =>
    enclose required .assignment
      (words .conditional target ++ .symbol .assign :: words .assignment value)

/-- The words of each argument of a call. -/
def argWords : List Expr → List (List Kind)
  | [] => []
  | e :: es => words .assignment e :: argWords es

end

/-- The words of arguments are those of each of them. -/
lemma argWords_eq_map (es : List Expr) : argWords es = es.map (words .assignment) := by
  induction es with
  | nil => rfl
  | cons e es ih => simp [argWords, ih]

/-- The expression has a written form, where the `callable` names are those of functions. -/
inductive Writable (callable : String → Bool) : Expr → Prop where
  | lit {v} : 0 ≤ v → Writable callable (.lit v)
  | var {x} : isIdentifier x = true → callable x = false → Writable callable (.var x)
  | assign {target value} : Writable callable target → Writable callable value →
      Writable callable (.assign target value)
  | binary {op left right} : Writable callable left → Writable callable right →
      Writable callable (.binary op left right)
  | minus {e} : Writable callable e → Writable callable (.binary .mul e (.lit (-1)))
  | cond {test whenTrue whenFalse} : Writable callable test → Writable callable whenTrue →
      Writable callable whenFalse → Writable callable (.cond test whenTrue whenFalse)
  | call {f args} : isIdentifier f = true → callable f = true →
      (∀ a ∈ args, Writable callable a) → Writable callable (.call f args)

end Expr

namespace Token

variable {k : Kind} {ks ls : List Kind} {parts : List (List Kind)}

/-- Words have written forms if the first one and the others have. -/
lemma spelled_cons : Spelled (k :: ks) ↔ (∃ lexeme, k.SpelledBy lexeme) ∧ Spelled ks :=
  List.forall_mem_cons

/-- Words have written forms if both their parts have. -/
lemma spelled_append : Spelled (ks ++ ls) ↔ Spelled ks ∧ Spelled ls :=
  List.forall_mem_append

/-- A name has a written form if it is an identifier. -/
lemma spelled_identifier {x : String} :
    (∃ lexeme, (Kind.identifier x).SpelledBy lexeme) ↔ isIdentifier x = true :=
  ⟨fun ⟨_, h⟩ => h.1, fun h => ⟨_, h, rfl⟩⟩

/-- A literal has a written form if it is not negative. -/
lemma spelled_integer {v : Int64} : (∃ lexeme, (Kind.integer v).SpelledBy lexeme) ↔ 0 ≤ v :=
  ⟨fun ⟨_, h⟩ => nonneg_of_spelledBy h, fun le => ⟨_, spelledBy_decimal le⟩⟩

/-- Parts with commas between them have written forms if each part has. -/
lemma spelled_listed : Spelled (listed parts) ↔ ∀ part ∈ parts, Spelled part := by
  induction parts with
  | nil => simp [listed, Spelled]
  | cons part parts ih =>
    cases parts with
    | nil => simp
    | cons next parts =>
      have comma : ∃ lexeme, Kind.comma.SpelledBy lexeme := ⟨_, rfl⟩
      rw [listed_cons_cons, spelled_append, spelled_cons, ih, and_iff_right comma]
      exact List.forall_mem_cons.symm

/-- Parentheses have written forms. -/
lemma Spelled.enclose {required own : Rule} (h : Spelled ks) :
    Spelled (enclose required own ks) := by
  rw [Grammar.enclose]
  split
  · exact h
  · rw [List.cons_append, spelled_cons, spelled_append, spelled_cons]
    exact ⟨⟨_, rfl⟩, h, ⟨_, rfl⟩, nofun⟩

end Token

open Token

namespace Expr

variable {callable : String → Bool} {e : Expr} {rule : Rule} {ks : List Kind} {op : Operator}

/-- A literal that is not negative makes no sign. -/
lemma Writable.not_negates (h : Writable callable e) (op : Operator) : negates op e = false := by
  cases h with
  | @lit v le =>
    have other : (v == -1) = false := by
      rw [beq_eq_false_iff_ne]
      rintro rfl
      exact absurd le (by decide)
    cases op <;> first | exact other | rfl
  | _ => cases op <;> rfl

/-- The words of a writable expression derive it, wherever it is to stand. -/
lemma Writable.derives (h : Writable callable e) :
    ∀ rule, Derives callable rule (e.words rule) e := by
  induction h with
  | lit => exact fun rule => Derives.integer.loosen rule.tightness_le
  | var _ name => exact fun rule => (Derives.name name).loosen rule.tightness_le
  | assign _ _ iht ihv => exact fun rule => (Derives.assign (iht _) (ihv _)).enclose rule
  | @binary op left right _ h ihl ihr =>
    intro rule
    rw [words, h.not_negates]
    exact ((ihl _).extend (ihr _)).enclose rule
  | minus _ ih => exact fun rule => (Derives.minus (.inl rfl) (ih _)).loosen rule.tightness_le
  | cond _ _ _ iht iha ihb => exact fun rule => (Derives.cond (iht _) (iha _) (ihb _)).enclose rule
  | @call f args _ function _ ih =>
    intro rule
    have phrases : ∀ a ∈ args.map fun a => Phrase.mk (a.words .assignment) a,
        Derives callable .assignment a.kinds a.expr := by
      intro a mem
      obtain ⟨a, inside, rfl⟩ := List.mem_map.1 mem
      exact ih a inside _
    have call := (Derives.call function phrases).loosen rule.tightness_le
    rw [words, argWords_eq_map]
    simpa [Function.comp_def] using call

/-- The words of a writable expression have written forms. -/
lemma Writable.spelled (h : Writable callable e) : ∀ rule, Spelled (e.words rule) := by
  induction h with
  | lit le => exact fun _ => spelled_cons.2 ⟨spelled_integer.2 le, nofun⟩
  | var ident => exact fun _ => spelled_cons.2 ⟨spelled_identifier.2 ident, nofun⟩
  | assign _ _ iht ihv =>
    intro rule
    apply Spelled.enclose
    rw [spelled_append, spelled_cons]
    exact ⟨iht _, ⟨_, rfl⟩, ihv _⟩
  | binary _ h ihl ihr =>
    intro rule
    rw [words, h.not_negates]
    apply Spelled.enclose
    rw [spelled_append, spelled_cons]
    exact ⟨ihl _, ⟨_, rfl⟩, ihr _⟩
  | minus _ ih => exact fun _ => spelled_cons.2 ⟨⟨_, rfl⟩, ih _⟩
  | cond _ _ _ iht iha ihb =>
    intro rule
    apply Spelled.enclose
    rw [spelled_append, spelled_append, spelled_cons, spelled_cons]
    exact ⟨⟨iht _, ⟨_, rfl⟩, iha _⟩, ⟨_, rfl⟩, ihb _⟩
  | @call f args ident _ _ ih =>
    intro rule
    rw [words, argWords_eq_map, List.cons_append, spelled_cons, List.cons_append, spelled_cons,
      spelled_append, spelled_listed, spelled_cons]
    refine ⟨spelled_identifier.2 ident, ⟨_, rfl⟩, fun part mem => ?_, ⟨_, rfl⟩, nofun⟩
    obtain ⟨a, inside, rfl⟩ := List.mem_map.1 mem
    exact ih a inside _

/-- A chain of writable parts is writable. -/
lemma Writable.foldl {more : List (Operator × Phrase)} (h : Writable callable e)
    (all : ∀ x ∈ more, Writable callable x.2.expr) :
    Writable callable (more.foldl (fun left x => .binary x.1 left x.2.expr) e) := by
  induction more generalizing e with
  | nil => exact h
  | cons x more ih =>
    obtain ⟨first, others⟩ := List.forall_mem_cons.1 all
    exact ih (.binary h first) others

/-- What derives from words with spellings is writable. -/
lemma writable_of_derives (h : Derives callable rule ks e) (spelled : Spelled ks) :
    Writable callable e := by
  induction h with
  | plain _ ih | test _ ih => exact ih spelled
  | assign _ _ iht ihv =>
    rw [spelled_append, spelled_cons] at spelled
    exact .assign (iht spelled.1) (ihv spelled.2.2)
  | cond _ _ _ iht iha ihb =>
    rw [spelled_append, spelled_append, spelled_cons, spelled_cons] at spelled
    obtain ⟨⟨first, -, second⟩, -, third⟩ := spelled
    exact .cond (iht first) (iha second) (ihb third)
  | @chain level ks e more _ _ _ ih ihs =>
    rw [spelled_append] at spelled
    refine (ih spelled.1).foldl fun x mem => ihs x mem fun k inside => spelled.2 k ?_
    exact List.mem_flatMap.2 ⟨x, mem, List.mem_cons_of_mem _ inside⟩
  | minus _ _ ih =>
    rw [spelled_cons] at spelled
    exact .minus (ih spelled.2)
  | integer =>
    rw [spelled_cons, spelled_integer] at spelled
    exact .lit spelled.1
  | name plain =>
    rw [spelled_cons, spelled_identifier] at spelled
    exact .var spelled.1 plain
  | @call f args function _ ih =>
    rw [List.cons_append, spelled_cons, List.cons_append, spelled_cons, spelled_append,
      spelled_listed, spelled_identifier] at spelled
    obtain ⟨ident, -, parts, -⟩ := spelled
    refine .call ident function fun a mem => ?_
    obtain ⟨a, inside, rfl⟩ := List.mem_map.1 mem
    exact ih a inside (parts _ (List.mem_map_of_mem inside))
  | parens _ ih =>
    -- parentheses leave nothing in the tree
    rw [List.cons_append, spelled_cons, spelled_append] at spelled
    exact ih spelled.2.1

end Expr

namespace Statement

/-- The words of a statement. -/
def words : Statement → List Kind
  | .evaluate e => e.words .assignment
  | .define d =>
    .deffn :: .identifier d.name :: .lparen :: listed (d.params.map fun x => [.identifier x]) ++
      .rparen :: .symbol .assign :: d.body.words .assignment

/-- The statement has a written form. The name that a definition defines is that of a function in
its body; it and the parameters may be any identifiers. -/
def Writable (callable : String → Bool) : Statement → Prop
  | .evaluate e => e.Writable callable
  | .define d => isIdentifier d.name = true ∧ (∀ x ∈ d.params, isIdentifier x = true) ∧
      d.body.Writable fun n => n == d.name || callable n

variable {callable : String → Bool} {statement : Statement} {ks : List Kind}

/-- A list of parameters has a written form if each of them is an identifier. -/
lemma spelled_parameters {params : List String} :
    Spelled (listed (params.map fun x => [.identifier x])) ↔
      ∀ x ∈ params, isIdentifier x = true := by
  rw [spelled_listed, List.forall_mem_map]
  refine forall₂_congr fun x _ => ?_
  rw [spelled_cons, spelled_identifier]
  exact and_iff_left nofun

/-- The words of a writable statement form it. -/
lemma Writable.forms (h : statement.Writable callable) :
    Forms callable statement.words statement := by
  cases statement with
  | evaluate e =>
    have h : e.Writable callable := h
    exact .evaluate (h.derives .assignment)
  | define d => exact .define (h.2.2.derives .assignment)

/-- The words of a writable statement have written forms. -/
lemma Writable.spelled (h : statement.Writable callable) : Spelled statement.words := by
  cases statement with
  | evaluate e =>
    have h : e.Writable callable := h
    exact h.spelled .assignment
  | define d =>
    obtain ⟨name, params, body⟩ := h
    simp only [words, List.cons_append, spelled_cons, spelled_append, spelled_identifier,
      spelled_parameters]
    exact ⟨⟨_, rfl⟩, name, ⟨_, rfl⟩, params, ⟨_, rfl⟩, ⟨_, rfl⟩, body.spelled .assignment⟩

/-- What words with written forms form is writable. -/
lemma writable_of_forms (h : Forms callable ks statement) (spelled : Spelled ks) :
    statement.Writable callable := by
  cases h with
  | evaluate h => exact Expr.writable_of_derives h spelled
  | define h =>
    simp only [List.cons_append, spelled_cons, spelled_append, spelled_identifier,
      spelled_parameters] at spelled
    obtain ⟨-, name, -, params, -, -, body⟩ := spelled
    exact ⟨name, params, Expr.writable_of_derives h body⟩

end Statement

end Reckon
