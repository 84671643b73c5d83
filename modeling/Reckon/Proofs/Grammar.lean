import Mathlib.Tactic.Lemma
import Reckon.Statement.Parser

/-!
# The grammar of a line

What a line says, written as a grammar: the kinds of its tokens derive an expression
(`Grammar.Derives`) or a whole statement (`Grammar.Forms`). The rules are those that the parser names,

```
statement   := deffn name '(' [name {',' name}] ')' '=' assignment | assignment
assignment  := conditional ['=' assignment]
conditional := test ['?' test ':' conditional]
test        := sum {relation sum}
sum         := product {('+' | '-') product}
product     := factor {('*' | '/' | '%') factor}
factor      := ('-' | '~') factor | integer | name
             | function '(' [assignment {',' assignment}] ')' | '(' assignment ')'
```

where a repetition is a list of what is repeated. A chain of operators nests to the left, so its
expression is a left fold.
-/

namespace Reckon

open Token (Kind)

namespace Grammar

/-- The rules for expressions, the loosest first. A chain is a test, a sum or a product. -/
inductive Rule where
  | assignment
  | conditional
  | chain (level : Level)
  | factor

/-- The rule for what the operators of one binding join. -/
def operand : Level → Rule
  | .product => .factor
  | .sum => .chain .product
  | .test => .chain .sum

/-- What holds of factors, and of a rule if it holds of the next tighter one, holds of all rules. -/
lemma Rule.ascend {P : Rule → Prop} (factor : P .factor)
    (chain : ∀ level, P (operand level) → P (.chain level))
    (conditional : P (.chain .test) → P .conditional)
    (assignment : P .conditional → P .assignment) (rule : Rule) : P rule := by
  have product : P (.chain .product) := chain .product factor
  have sum : P (.chain .sum) := chain .sum product
  have test : P (.chain .test) := chain .test sum
  cases rule with
  | assignment => exact assignment (conditional test)
  | conditional => exact conditional test
  | chain level =>
    cases level with
    | product => exact product
    | sum => exact sum
    | test => exact test
  | factor => exact factor

/-- An expression that is repeated in a rule, with the kinds that derive it. -/
structure Phrase where
  kinds : List Kind
  expr : Expr

/-- Parts with a comma between any two. -/
def listed (parts : List (List Kind)) : List Kind := [Kind.comma].intercalate parts

/-- An operator and what stands behind it, as they follow an operand in a chain. -/
def link (x : Operator × Phrase) : List Kind := .symbol (.value x.1) :: x.2.kinds

/-- The rule derives the expression from the kinds, where the `callable` names are those of
functions. -/
inductive Derives (callable : String → Bool) : Rule → List Kind → Expr → Prop where
  | plain {ks e} : Derives callable .conditional ks e → Derives callable .assignment ks e
  | assign {ks target ls value} :
      Derives callable .conditional ks target → Derives callable .assignment ls value →
      Derives callable .assignment (ks ++ .symbol .assign :: ls) (.assign target value)
  | test {ks e} : Derives callable (.chain .test) ks e → Derives callable .conditional ks e
  | cond {ks test ls whenTrue ms whenFalse} :
      Derives callable (.chain .test) ks test → Derives callable (.chain .test) ls whenTrue →
      Derives callable .conditional ms whenFalse →
      Derives callable .conditional (ks ++ .question :: ls ++ .colon :: ms)
        (.cond test whenTrue whenFalse)
  | chain {level ks e} {more : List (Operator × Phrase)} :
      Derives callable (operand level) ks e → (∀ x ∈ more, x.1.level = level) →
      (∀ x ∈ more, Derives callable (operand level) x.2.kinds x.2.expr) →
      Derives callable (.chain level) (ks ++ more.flatMap link)
        (more.foldl (fun left x => .binary x.1 left x.2.expr) e)
  | minus {sign ks e} : sign = .symbol (.value .sub) ∨ sign = .tilde →
      Derives callable .factor ks e →
      Derives callable .factor (sign :: ks) (.binary .mul e (.lit (-1)))
  | integer {v} : Derives callable .factor [.integer v] (.lit v)
  | name {x} : callable x = false → Derives callable .factor [.identifier x] (.var x)
  | call {f} {args : List Phrase} : callable f = true →
      (∀ a ∈ args, Derives callable .assignment a.kinds a.expr) →
      Derives callable .factor (.identifier f :: .lparen :: listed (args.map Phrase.kinds) ++ [.rparen])
        (.call f (args.map Phrase.expr))
  | parens {ks e} : Derives callable .assignment ks e →
      Derives callable .factor (.lparen :: ks ++ [.rparen]) e

/-- The kinds derive the statement. In the body of a definition, and only there, the name that it
defines is that of a function. -/
inductive Forms (callable : String → Bool) : List Kind → Statement → Prop where
  | define {name params ks body} : Derives (fun n => n == name || callable n) .assignment ks body →
      Forms callable
        (.deffn :: .identifier name :: .lparen :: listed (params.map fun x => [.identifier x]) ++
          .rparen :: .symbol .assign :: ks)
        (.define ⟨name, params, body⟩)
  | evaluate {ks e} : Derives callable .assignment ks e → Forms callable ks (.evaluate e)

variable {callable : String → Bool} {rule : Rule} {ks : List Kind} {e : Expr}

/-- There are no commas around a single part. -/
@[simp] lemma listed_singleton (part : List Kind) : listed [part] = part := by
  simp [listed, List.intercalate]

/-- Between a part and the next one stands a comma. -/
lemma listed_cons_cons (part next : List Kind) (parts : List (List Kind)) :
    listed (part :: next :: parts) = part ++ .comma :: listed (next :: parts) := by
  simp [listed, List.intercalate]

/-- A list starts with its first part. -/
lemma exists_listed_cons (part : List Kind) (parts : List (List Kind)) :
    ∃ tail, listed (part :: parts) = part ++ tail := by
  cases parts with
  | nil => exact ⟨[], by simp⟩
  | cons next parts => exact ⟨_, listed_cons_cons part next parts⟩

/-- In a list there are its parts and commas. -/
lemma mem_listed {k : Kind} {parts : List (List Kind)} (mem : k ∈ listed parts) :
    k = .comma ∨ ∃ part ∈ parts, k ∈ part := by
  induction parts with
  | nil => cases mem
  | cons part parts ih =>
    cases parts with
    | nil => exact .inr ⟨part, by simp, by simpa using mem⟩
    | cons next parts =>
      rw [listed_cons_cons, List.mem_append, List.mem_cons] at mem
      rcases mem with here | comma | there
      · exact .inr ⟨part, by simp, here⟩
      · exact .inl comma
      · cases ih there with
        | inl comma => exact .inl comma
        | inr h =>
          obtain ⟨part, mem, inside⟩ := h
          exact .inr ⟨part, by simp [mem], inside⟩

/-- What derives an expression starts with a token, which neither closes a parenthesis, nor is a colon,
nor starts a definition. -/
lemma Derives.starts (h : Derives callable rule ks e) :
    ∃ k rest, ks = k :: rest ∧ k ≠ .rparen ∧ k ≠ .colon ∧ k ≠ .deffn := by
  induction h with
  | plain _ ih | test _ ih => exact ih
  | assign _ _ ih | cond _ _ _ ih | chain _ _ _ ih =>
    obtain ⟨k, rest, rfl, starts⟩ := ih
    exact ⟨k, _, rfl, starts⟩
  | minus sign =>
    refine ⟨_, _, rfl, ?_⟩
    rcases sign with rfl | rfl <;> exact ⟨nofun, nofun, nofun⟩
  | integer | name | call | parens => exact ⟨_, _, rfl, nofun, nofun, nofun⟩

/-- The end of the line derives nothing. -/
lemma Derives.eof_not_mem (h : Derives callable rule ks e) : Kind.eof ∉ ks := by
  induction h with
  | plain _ ih | test _ ih => exact ih
  | assign _ _ ihk ihl => simp [ihk, ihl]
  | cond _ _ _ ihk ihl ihm => simp [ihk, ihl, ihm]
  | chain _ _ _ ihk ihl =>
    intro mem
    cases List.mem_append.1 mem with
    | inl mem => exact ihk mem
    | inr mem =>
      obtain ⟨x, inside, mem⟩ := List.mem_flatMap.1 mem
      cases List.mem_cons.1 mem with
      | inl eq => cases eq
      | inr mem => exact ihl x inside mem
  | minus sign _ ih => rcases sign with rfl | rfl <;> simp [ih]
  | integer | name => simp
  | @call f args _ _ ih =>
    intro mem
    have mem : Kind.eof ∈ listed (args.map Phrase.kinds) := by simpa using mem
    cases mem_listed mem with
    | inl eq => cases eq
    | inr h =>
      obtain ⟨part, isPart, mem⟩ := h
      obtain ⟨a, inside, rfl⟩ := List.mem_map.1 isPart
      exact ih a inside mem
  | parens _ ih => simp [ih]

/-- What derives a statement starts with a token other than a colon. -/
lemma Forms.starts {statement : Statement} (h : Forms callable ks statement) :
    ∃ k rest, ks = k :: rest ∧ k ≠ .colon := by
  cases h with
  | define => exact ⟨_, _, rfl, nofun⟩
  | evaluate h =>
    obtain ⟨k, rest, rfl, -, other, -⟩ := h.starts
    exact ⟨k, rest, rfl, other⟩

/-- The end of the line is no part of a statement. -/
lemma Forms.eof_not_mem {statement : Statement} (h : Forms callable ks statement) : Kind.eof ∉ ks := by
  cases h with
  | @define name params ks _ body =>
    intro mem
    have mem : Kind.eof ∈ listed (params.map fun x => [.identifier x]) ∨ Kind.eof ∈ ks := by
      simpa using mem
    cases mem with
    | inl mem =>
      cases mem_listed mem with
      | inl eq => cases eq
      | inr h =>
        obtain ⟨part, inside, mem⟩ := h
        obtain ⟨x, -, rfl⟩ := List.mem_map.1 inside
        simp at mem
    | inr mem => exact body.eof_not_mem mem
  | evaluate h => exact h.eof_not_mem

end Grammar

end Reckon
