import Mathlib.Data.List.TakeWhile
import Reckon.Proofs.Parsing.Complete

/-!
# The parser accepts its grammar

The main statement is `Statement.ofTokens_iff_forms`: tokens make a statement exactly if those before the
end of the line derive it by the grammar, and they derive no other one. It rests on what the parser reads
by the rules for expressions (`Grammar.sound`, `Grammar.complete`).
-/

namespace Reckon

open Token (Kind)

namespace Parser

/-- The kinds of the tokens before the end of the line. -/
def beforeEnd (line : List Token) : List Kind := (line.map Token.kind).takeWhile (· ≠ .eof)

/-- A line goes up to its end. -/
lemma passes_beforeEnd (line : List Token) :
    ∃ rest, Passes (beforeEnd line) line rest ∧ nextKind rest = .eof := by
  induction line with
  | nil => exact ⟨[], .nil, rfl⟩
  | cons t line ih =>
    cases decEq t.kind .eof with
    | isTrue atEnd =>
      have none : beforeEnd (t :: line) = [] := by simp [beforeEnd, atEnd]
      rw [none]
      exact ⟨t :: line, .nil, atEnd⟩
    | isFalse other =>
      have some : beforeEnd (t :: line) = t.kind :: beforeEnd line := by simp [beforeEnd, other]
      obtain ⟨rest, passes, atEnd⟩ := ih
      rw [some]
      exact ⟨rest, (next_cons.2 ⟨rfl, rfl⟩).passes passes, atEnd⟩

/-- What stands in front of the end of the line is all that is before it. -/
lemma beforeEnd_of_passes {ks : List Kind} {ts rest : List Token} (passes : Passes ks ts rest)
    (none : Kind.eof ∉ ks) (atEnd : nextKind rest = .eof) : beforeEnd ts = ks := by
  induction ks generalizing ts with
  | nil =>
    obtain rfl : ts = rest := passes
    cases ts with
    | nil => rfl
    | cons t ts =>
      have atEnd : t.kind = .eof := atEnd
      simp [beforeEnd, atEnd]
  | cons k ks ih =>
    obtain ⟨mid, ⟨t, rfl, rfl⟩, passes⟩ := passes
    obtain ⟨other, none⟩ := List.ne_and_not_mem_of_not_mem_cons none
    have tail : beforeEnd mid = ks := ih passes none
    rw [← tail]
    simp [beforeEnd, Ne.symm other]

end Parser

open Reckon.Parser

namespace Grammar

variable {callable : String → Bool} {ts rest : List Token} {names : List String} {ks : List Kind}
  {statement statement' : Statement}

section Parameters

/-- The names read as parameters are those with commas between them. -/
lemma passes_of_nameList (h : Reads (nameList ts) names rest) :
    names ≠ [] ∧ Passes (listed (names.map fun x => [.identifier x])) ts rest := by
  induction len : ts.length using Nat.strongRecOn generalizing ts names with
  | ind _ ih =>
    obtain ⟨x, mid, next, h⟩ := reads_nameList.1 h
    cases h with
    | inl h =>
      obtain ⟨-, rfl, rfl⟩ := h
      exact ⟨nofun, next.passes .nil⟩
    | inr h =>
      obtain ⟨inner, comma, others, read, rfl⟩ := h
      have shorter : inner.length < ts.length := Nat.lt_trans comma.lt next.lt
      obtain ⟨filled, tail⟩ := ih inner.length (len ▸ shorter) read rfl
      obtain ⟨y, names, rfl⟩ := List.exists_cons_of_ne_nil filled
      refine ⟨nofun, ?_⟩
      rw [List.map_cons, List.map_cons, listed_cons_cons]
      exact next.passes (comma.passes tail)

/-- Names with commas between them are read, if no comma follows. -/
lemma reads_nameList_of_passes (filled : names ≠ [])
    (passes : Passes (listed (names.map fun x => [.identifier x])) ts rest)
    (ends : nextKind rest ≠ .comma) : Reads (nameList ts) names rest := by
  induction names generalizing ts with
  | nil => exact absurd rfl filled
  | cons x names ih =>
    cases names with
    | nil =>
      obtain ⟨mid, next, eq⟩ := passes
      cases eq
      exact reads_nameList.2 ⟨x, rest, next, .inl ⟨ends, rfl, rfl⟩⟩
    | cons y names =>
      rw [List.map_cons, List.map_cons, listed_cons_cons] at passes
      obtain ⟨mid, next, inner, comma, tail⟩ := passes
      have others := ih (List.cons_ne_nil y names) tail
      exact reads_nameList.2 ⟨x, mid, next, .inr ⟨inner, comma, _, others, rfl⟩⟩

/-- Parameters are names with commas between them, and the parenthesis that closes them. -/
lemma reads_parameters_iff : Reads (parameters ts) names rest ↔
    Passes (listed (names.map fun x => [.identifier x]) ++ [.rparen]) ts rest := by
  rw [reads_parameters]
  refine ⟨fun h => ?_, fun passes => ?_⟩
  · cases h with
    | inl h =>
      obtain ⟨-, mid, read, close⟩ := h
      exact (passes_of_nameList read).2.append (close.passes .nil)
    | inr h =>
      obtain ⟨_, close, rfl, rfl⟩ := h
      exact close.passes .nil
  · obtain ⟨mid, inside, _, close, eq⟩ := passes_append.1 passes
    cases eq
    cases names with
    | nil =>
      cases inside
      exact .inr ⟨rest, close, rfl, rfl⟩
    | cons x names =>
      have read := reads_nameList_of_passes (List.cons_ne_nil x names) inside
        (by simp [close.nextKind_eq])
      have start : nextKind ts = .identifier x := nextKind_of_listed inside
      exact .inl ⟨by simp [start], mid, read, close⟩

end Parameters

section Definitions

variable {name : String} {params : List String} {body : Expr}

/-- What is read as a definition is its head and what derives its body. -/
lemma passes_of_definition (h : Reads (definition callable ts) ⟨name, params, body⟩ rest) :
    ∃ ks, Derives (fun n => n == name || callable n) .assignment ks body ∧
      Passes (.identifier name :: .lparen :: listed (params.map fun x => [.identifier x]) ++
        .rparen :: .symbol .assign :: ks) ts rest := by
  obtain ⟨_, mid, named, inner, paren, _, behind, readParams, start, sign, _, readBody, eq⟩ :=
    reads_definition.1 h
  cases eq
  obtain ⟨ks, passes, derives⟩ := sound _ .assignment start body rest readBody
  obtain ⟨close, inside, _, rparen, eq⟩ := passes_append.1 (reads_parameters_iff.1 readParams)
  cases eq
  have tail := inside.append (rparen.passes (sign.passes passes))
  exact ⟨ks, derives, named.passes (paren.passes tail)⟩

/-- A head and what derives a body are read as a definition, if nothing follows with which the body would
go on. -/
lemma reads_definition_of_passes
    (derives : Derives (fun n => n == name || callable n) .assignment ks body)
    (passes : Passes (.identifier name :: .lparen :: listed (params.map fun x => [.identifier x]) ++
      .rparen :: .symbol .assign :: ks) ts rest)
    (stops : ¬Rule.assignment.GoesOn (nextKind rest)) :
    Reads (definition callable ts) ⟨name, params, body⟩ rest := by
  obtain ⟨mid, named, inner, paren, passes⟩ := passes
  obtain ⟨close, inside, behind, rparen, start, sign, tail⟩ := passes_append.1 passes
  have readParams := reads_parameters_iff.2 (inside.append (rparen.passes .nil))
  have readBody := complete derives start rest tail stops
  exact reads_definition.2 ⟨name, mid, named, inner, paren, params, behind, readParams, start, sign,
    body, readBody, rfl⟩

end Definitions

/-- What the parser makes of a line, the tokens before its end derive. -/
lemma forms_of_statement (h : Parser.statement callable ts = .ok statement) :
    Forms callable (beforeEnd ts) statement := by
  cases statement_eq_ok_iff.1 h with
  | inl h =>
    obtain ⟨-, e, rest, read, atEnd, rfl⟩ := h
    obtain ⟨ks, passes, derives⟩ := sound _ .assignment ts e rest read
    rw [beforeEnd_of_passes passes derives.eof_not_mem atEnd]
    exact .evaluate derives
  | inr h =>
    obtain ⟨more, deffn, ⟨name, params, body⟩, rest, read, atEnd, rfl⟩ := h
    obtain ⟨ks, derives, passes⟩ := passes_of_definition read
    have forms : Forms callable _ (.define ⟨name, params, body⟩) := .define derives
    rw [beforeEnd_of_passes (deffn.passes passes) forms.eof_not_mem atEnd]
    exact forms

/-- What the tokens before the end of a line derive, the parser makes of it. -/
lemma statement_of_forms (h : Forms callable (beforeEnd ts) statement) :
    Parser.statement callable ts = .ok statement := by
  obtain ⟨rest, passes, atEnd⟩ := passes_beforeEnd ts
  have stops : ¬Rule.assignment.GoesOn (nextKind rest) := by simp [Rule.GoesOn, atEnd]
  generalize beforeEnd ts = ks at h passes
  cases h with
  | @define name params _ body derives =>
    obtain ⟨more, deffn, passes⟩ := passes
    have read := reads_definition_of_passes derives passes stops
    exact statement_eq_ok_iff.2 (.inr ⟨more, deffn, _, rest, read, atEnd, rfl⟩)
  | @evaluate _ e derives =>
    obtain ⟨k, kinds, rfl, -, -, start⟩ := derives.starts
    have read := complete derives ts rest passes stops
    obtain ⟨_, next, _⟩ := passes
    rw [← next.nextKind_eq] at start
    exact statement_eq_ok_iff.2 (.inl ⟨start, e, rest, read, atEnd, rfl⟩)

/-- Kinds derive one statement only. -/
lemma Forms.unique (h : Forms callable ks statement) (h' : Forms callable ks statement') :
    statement = statement' := by
  -- any places will do, since the parser looks at the kinds only
  have line : beforeEnd (ks.map fun k => ⟨k, ⟨0, 0⟩⟩) = ks := by
    have kept : ∀ k ∈ ks, k ≠ .eof := fun k mem eq => h.eof_not_mem (eq ▸ mem)
    simpa [beforeEnd, Function.comp_def, List.takeWhile_eq_self_iff] using kept
  rw [← line] at h h'
  have eq := (statement_of_forms h).symm.trans (statement_of_forms h')
  cases eq
  rfl

end Grammar

namespace Statement

open Grammar

/-- The tokens of a line make a statement if the parser reads it. -/
lemma ofTokens_eq_ok_iff {fns : FunctionTable} {line : List Token} {statement : Statement} :
    ofTokens fns line = .ok statement ↔ Parser.statement fns.contains line = .ok statement := by
  rw [ofTokens]
  cases Parser.statement fns.contains line <;> simp

/-- The parser accepts exactly its grammar. Tokens make a statement exactly if the kinds of those before
the end of the line derive it; they derive no other one; and neither the places of the tokens nor what
stands behind the end of the line has any part in it. -/
theorem ofTokens_iff_forms (fns : FunctionTable) :
    (∀ line statement, ofTokens fns line = .ok statement ↔
      Forms fns.contains (beforeEnd line) statement) ∧
    (∀ kinds statement statement', Forms fns.contains kinds statement →
      Forms fns.contains kinds statement' → statement = statement') ∧
    ∀ line line', beforeEnd line = beforeEnd line' → ∀ statement,
      ofTokens fns line = .ok statement ↔ ofTokens fns line' = .ok statement := by
  have iff_forms : ∀ line statement, ofTokens fns line = .ok statement ↔
      Forms fns.contains (beforeEnd line) statement := by
    intro line statement
    rw [ofTokens_eq_ok_iff]
    exact ⟨forms_of_statement, statement_of_forms⟩
  refine ⟨iff_forms, fun kinds statement statement' h h' => h.unique h', ?_⟩
  intro line line' same statement
  rw [iff_forms, iff_forms, same]

/-- A definition whose body calls it, with a sign, a product and a sum in it, on two lines that differ in
the places of the tokens and in what stands behind the end. -/
theorem ofTokens_iff_forms_recursion :
    let kinds : List Kind := [.deffn, .identifier "g", .lparen, .identifier "a", .rparen,
      .symbol .assign, .symbol (.value .sub), .identifier "a", .symbol (.value .mul), .integer 2,
      .symbol (.value .add), .identifier "g", .lparen, .integer 1, .rparen]
    let line : List Token := (kinds ++ [Kind.eof, Kind.rparen]).map (⟨·, ⟨0, 0⟩⟩)
    let line' : List Token := kinds.map (⟨·, ⟨7, 9⟩⟩)
    let body : Expr := .binary .add
      (.binary .mul (.binary .mul (.var "a") (.lit (-1))) (.lit 2)) (.call "g" [.lit 1])
    let fns : FunctionTable := .empty
    Forms fns.contains kinds (.define ⟨"g", ["a"], body⟩) ∧
      (∀ statement, Forms fns.contains kinds statement →
        statement = .define ⟨"g", ["a"], body⟩) ∧
      ofTokens fns line = .ok (.define ⟨"g", ["a"], body⟩) ∧
      ofTokens fns line' = .ok (.define ⟨"g", ["a"], body⟩) := by
  intro kinds line line' body fns
  obtain ⟨iff_forms, unique, same⟩ := ofTokens_iff_forms fns
  have made : ofTokens fns line = .ok (.define ⟨"g", ["a"], body⟩) := by cbv
  have before : beforeEnd line = kinds := by decide
  have before' : beforeEnd line' = kinds := by decide
  have forms : Forms fns.contains kinds (.define ⟨"g", ["a"], body⟩) :=
    before ▸ (iff_forms line _).1 made
  refine ⟨forms, fun statement h => unique kinds _ _ h forms, made, ?_⟩
  exact (same line line' (before.trans before'.symm) _).1 made

end Statement

end Reckon
