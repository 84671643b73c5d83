import Reckon.Proofs.Reading

/-!
# Where the parser fails

The functions of the parser described once more by the functions that they call, for the case that they
fail: a part fails, behind parts that are read, or a token that has to follow does not. An unexpected
token is reported with the tokens from there on; the name of a function without arguments is reported
alone.

As for what is read, there is one lemma about each way in which parts are put together (`fails_bind`,
`fails_bind_pure`, `fails_expect_bind`, `fails_closed`), and about each way in which the next token
decides (`fails_accept`, `fails_unless`).
-/

namespace Reckon.Parser

open Token (Kind)

variable {α β : Type} {n m : Nat} {callable : String → Bool} {level : Level}
  {ts more : List Token} {k : Kind} {left : Expr} {f : Failure}

section Parts

/-- A sequence fails in its first part, or in its second part behind what the first part read. -/
lemma fails_bind {first : Except Failure (Parsed β m)} {next : Parsed β m → Except Failure α}
    {Q : β → List Token → Prop}
    (second : ∀ b mid fewer, next ⟨b, mid, fewer⟩ = .error f ↔ Q b mid) :
    (first >>= next) = .error f ↔ first = .error f ∨ ∃ b mid, Reads first b mid ∧ Q b mid := by
  cases first with
  | error f' =>
    refine ⟨fun h => .inl (congrArg Except.error (Except.error.inj h)), fun h => ?_⟩
    cases h with
    | inl h => exact congrArg Except.error (Except.error.inj h)
    | inr h =>
      obtain ⟨b, mid, read, -⟩ := h
      exact absurd read not_reads_error
  | ok p =>
    obtain ⟨b, mid, fewer⟩ := p
    refine ⟨fun h => .inr ⟨b, mid, ⟨fewer, rfl⟩, (second b mid fewer).1 h⟩, fun h => ?_⟩
    cases h with
    | inl h => cases h
    | inr h =>
      obtain ⟨b', mid', read, q⟩ := h
      obtain ⟨e, e'⟩ := reads_ok.1 read
      subst e e'
      exact (second b' mid' fewer).2 q

/-- A value is no failure. -/
lemma pure_ne_error {a : α} : (pure a : Except Failure α) ≠ .error f := nofun

/-- To wrap up what was read does not fail. -/
lemma fails_bind_pure {first : Except Failure (Parsed β m)} {g : Parsed β m → α} :
    (first >>= fun p => pure (g p)) = .error f ↔ first = .error f := by
  cases first with
  | error f' => exact ⟨fun h => by cases h; rfl, fun h => by cases h; rfl⟩
  | ok p => exact ⟨nofun, nofun⟩

/-- A token that is expected is missing where another one stands. -/
lemma fails_expect (notEnd : k ≠ .eof) :
    expect k ts = .error f ↔ nextKind ts ≠ k ∧ f = .unexpected (.token k) ts := by
  cases next_or_ne k notEnd ts with
  | inl h =>
    obtain ⟨mid, next⟩ := h
    have ⟨_, read⟩ : Reads (expect k ts) () mid := reads_expect.2 next
    rw [read]
    exact ⟨nofun, fun h => absurd next.nextKind_eq h.1⟩
  | inr other =>
    rw [expect, accept?_of_ne other]
    exact ⟨fun h => ⟨other, (Except.error.inj h).symm⟩, fun h => congrArg Except.error h.2.symm⟩

/-- A token that has to follow does not, or what stands behind it fails. -/
lemma fails_expect_bind {next : Parsed Unit ts.length → Except Failure α} {Q : List Token → Prop}
    (notEnd : k ≠ .eof) (second : ∀ mid fewer, next ⟨(), mid, fewer⟩ = .error f ↔ Q mid) :
    (expect k ts >>= next) = .error f ↔
      (nextKind ts ≠ k ∧ f = .unexpected (.token k) ts) ∨ ∃ mid, Next k ts mid ∧ Q mid := by
  refine (fails_bind (Q := fun _ => Q) fun _ => second).trans ?_
  rw [fails_expect notEnd]
  simp only [reads_expect, exists_const]

/-- What has to be closed by a token fails, or the token does not follow. -/
lemma fails_closed {first : Except Failure (Parsed β m)}
    {g : (p : Parsed β m) → Parsed Unit p.rest.length → α} (notEnd : k ≠ .eof) :
    (first >>= fun p => expect k p.rest >>= fun q => pure (g p q)) = .error f ↔
      first = .error f ∨
        ∃ b mid, Reads first b mid ∧ nextKind mid ≠ k ∧ f = .unexpected (.token k) mid := by
  refine fails_bind fun b mid fewer => ?_
  have closing : (expect k mid >>= fun q => pure (g ⟨b, mid, fewer⟩ q)) = .error f ↔
      expect k mid = .error f := fails_bind_pure
  exact closing.trans (fails_expect notEnd)

/-- The next token decides, where it does not fail if it is not of the kind. -/
lemma fails_accept {P : Prop} {B : List Token → Prop} (notEnd : k ≠ .eof)
    (absent : accept? k ts = none → ¬P)
    (present : ∀ more fewer, accept? k ts = some ⟨(), more, fewer⟩ → (P ↔ B more)) :
    P ↔ ∃ more, Next k ts more ∧ B more := by
  have either := iff_accept notEnd (fun none => iff_false_intro (absent none)) present
  rwa [and_false, false_or] at either

/-- The next token decides, where it does not fail if it is of the kind. -/
lemma fails_unless {P A : Prop} (notEnd : k ≠ .eof) (absent : accept? k ts = none → (P ↔ A))
    (present : ∀ more fewer, accept? k ts = some ⟨(), more, fewer⟩ → ¬P) :
    P ↔ nextKind ts ≠ k ∧ A := by
  have either : P ↔ (nextKind ts ≠ k ∧ A) ∨ ∃ more, Next k ts more ∧ False :=
    iff_accept notEnd absent fun more fewer some => iff_false_intro (present more fewer some)
  simpa using either

end Parts

section Expressions

/-- An assignment fails in its target or, behind its sign, in its value. -/
lemma fails_assignment : assignment callable ts = .error f ↔
    conditional callable ts = .error f ∨
      ∃ target mid, Reads (conditional callable ts) target mid ∧
        ∃ more, Next (.symbol .assign) mid more ∧ assignment callable more = .error f := by
  rw [assignment]
  refine fails_bind fun target mid _ => ?_
  apply fails_accept
  · decide
  · intro absent
    simp only [absent]
    exact pure_ne_error
  · intro more _ accepted
    simp only [accepted]
    exact fails_bind_pure

/-- A conditional fails in its test, in one of its arms, or for want of a colon. -/
lemma fails_conditional : conditional callable ts = .error f ↔
    chain callable .test ts = .error f ∨
      ∃ test mid, Reads (chain callable .test ts) test mid ∧
        ∃ more, Next .question mid more ∧ (chain callable .test more = .error f ∨
          ∃ whenTrue mid', Reads (chain callable .test more) whenTrue mid' ∧
            ((nextKind mid' ≠ .colon ∧ f = .unexpected (.token .colon) mid') ∨
              ∃ more', Next .colon mid' more' ∧ conditional callable more' = .error f)) := by
  rw [conditional]
  refine fails_bind fun test mid _ => ?_
  apply fails_accept
  · decide
  · intro absent
    simp only [absent]
    exact pure_ne_error
  · intro more _ accepted
    simp only [accepted]
    refine fails_bind fun whenTrue mid' _ => ?_
    refine fails_expect_bind (by decide) fun more' _ => ?_
    exact fails_bind_pure

/-- A chain fails in its first operand or behind it. -/
lemma fails_chain : chain callable level ts = .error f ↔
    operand callable level ts = .error f ∨
      ∃ first mid, Reads (operand callable level ts) first mid ∧
        chainRest callable level first mid = .error f := by
  rw [chain]
  refine fails_bind fun first mid _ => ?_
  exact fails_bind_pure

/-- Behind an operand a chain fails only behind an operator of its binding. -/
lemma fails_chainRest : chainRest callable level left ts = .error f ↔
    ∃ op more, (op.level = level ∧ Next (.symbol (.value op)) ts more) ∧
      (operand callable level more = .error f ∨
        ∃ right mid, Reads (operand callable level more) right mid ∧
          chainRest callable level (.binary op left right) mid = .error f) := by
  have either : chainRest callable level left ts = .error f ↔
      (level.operator? (nextKind ts) = none ∧ False) ∨
      ∃ op more, (op.level = level ∧ Next (.symbol (.value op)) ts more) ∧
        (operand callable level more = .error f ∨
          ∃ right mid, Reads (operand callable level more) right mid ∧
            chainRest callable level (.binary op left right) mid = .error f) := by
    rw [chainRest]
    apply iff_acceptOperator
    · intro absent
      simp only [absent]
      exact iff_false_intro pure_ne_error
    · intro op more _ accepted
      simp only [accepted]
      refine fails_bind fun right mid _ => ?_
      exact fails_bind_pure
  rwa [and_false, false_or] at either

section Factor

/-- A sign fails where the factor behind it does. -/
lemma fails_factor_minus (next : Next k ts more) (sign : k = .symbol (.value .sub) ∨ k = .tilde) :
    factor callable ts = .error f ↔ factor callable more = .error f := by
  obtain ⟨_, taken⟩ := take?_of_next next
  rw [factor]
  cases sign with
  | inl sign | inr sign =>
    subst sign
    simp only [taken]
    exact fails_bind_pure

/-- A call fails in its arguments or for want of a parenthesis that opens them. -/
lemma fails_factor_call {x : String} (next : Next (.identifier x) ts more)
    (known : callable x = true) : factor callable ts = .error f ↔
      (nextKind more ≠ .lparen ∧ f = .missingArguments x) ∨
        ∃ inner, Next .lparen more inner ∧ arguments callable inner = .error f := by
  obtain ⟨_, taken⟩ := take?_of_next next
  rw [factor]
  simp only [taken, known, if_true]
  apply iff_accept
  · decide
  · intro absent
    simp only [absent]
    exact ⟨fun h => (Except.error.inj h).symm, fun h => congrArg Except.error h.symm⟩
  · intro inner _ accepted
    simp only [accepted]
    exact fails_bind_pure

/-- An expression in parentheses fails where it does itself, or where its closing parenthesis is
missing. -/
lemma fails_factor_parens (next : Next .lparen ts more) : factor callable ts = .error f ↔
    assignment callable more = .error f ∨
      ∃ e mid, Reads (assignment callable more) e mid ∧
        nextKind mid ≠ .rparen ∧ f = .unexpected (.token .rparen) mid := by
  obtain ⟨_, taken⟩ := take?_of_next next
  rw [factor]
  simp only [taken]
  exact fails_closed (by decide)

/-- An integer is a factor, and so is a name that is not that of a function. -/
lemma factor_ne_error (next : Next k ts more)
    (single : (∃ v, k = .integer v) ∨ ∃ x, k = .identifier x ∧ callable x = false) :
    factor callable ts ≠ .error f := by
  intro h
  rcases single with ⟨v, rfl⟩ | ⟨x, rfl, free⟩
  · obtain ⟨_, read⟩ := (reads_factor_integer next).2 ⟨rfl, rfl⟩
    cases read.symm.trans h
  · obtain ⟨_, read⟩ := (reads_factor_name next free).2 ⟨rfl, rfl⟩
    cases read.symm.trans h

end Factor

/-- Arguments fail in one of them or for want of the parenthesis that closes them. -/
lemma fails_arguments : arguments callable ts = .error f ↔
    nextKind ts ≠ .rparen ∧ (argumentList callable ts = .error f ∨
      ∃ args mid, Reads (argumentList callable ts) args mid ∧
        nextKind mid ≠ .rparen ∧ f = .unexpected (.token .rparen) mid) := by
  rw [arguments]
  apply fails_unless
  · decide
  · intro absent
    simp only [absent]
    exact fails_closed (by decide)
  · intro more _ accepted
    simp only [accepted]
    exact pure_ne_error

/-- A list of arguments fails where one of them does. -/
lemma fails_argumentList : argumentList callable ts = .error f ↔
    assignment callable ts = .error f ∨
      ∃ arg mid, Reads (assignment callable ts) arg mid ∧
        ∃ more, Next .comma mid more ∧ argumentList callable more = .error f := by
  rw [argumentList]
  refine fails_bind fun arg mid _ => ?_
  apply fails_accept
  · decide
  · intro absent
    simp only [absent]
    exact pure_ne_error
  · intro more _ accepted
    simp only [accepted]
    exact fails_bind_pure

end Expressions

section Statements

/-- A name that has to follow does not, or what stands behind it fails. -/
lemma fails_identifier_bind {next : Parsed String ts.length → Except Failure α}
    {Q : String → List Token → Prop}
    (second : ∀ x mid fewer, next ⟨x, mid, fewer⟩ = .error f ↔ Q x mid) :
    (identifier ts >>= next) = .error f ↔
      ((∀ x, nextKind ts ≠ .identifier x) ∧ f = .unexpected .identifier ts) ∨
        ∃ x mid, Next (.identifier x) ts mid ∧ Q x mid := by
  refine (fails_bind second).trans (or_congr ?_ (by simp only [reads_identifier]))
  cases ts with
  | nil => simp [identifier, take?, nextKind, eq_comm]
  | cons t ts => cases h : t.kind <;> simp [identifier, take?, nextKind, h, eq_comm]

/-- A list of names fails where a name is missing. -/
lemma fails_nameList : nameList ts = .error f ↔
    ((∀ x, nextKind ts ≠ .identifier x) ∧ f = .unexpected .identifier ts) ∨
      ∃ x mid, Next (.identifier x) ts mid ∧
        ∃ more, Next .comma mid more ∧ nameList more = .error f := by
  rw [nameList]
  refine fails_identifier_bind fun x mid _ => ?_
  apply fails_accept
  · decide
  · intro absent
    simp only [absent]
    exact pure_ne_error
  · intro more _ accepted
    simp only [accepted]
    exact fails_bind_pure

/-- Parameters fail in one of them or for want of the parenthesis that closes them. -/
lemma fails_parameters : parameters ts = .error f ↔
    nextKind ts ≠ .rparen ∧ (nameList ts = .error f ∨
      ∃ names mid, Reads (nameList ts) names mid ∧
        nextKind mid ≠ .rparen ∧ f = .unexpected (.token .rparen) mid) := by
  rw [parameters]
  apply fails_unless
  · decide
  · intro absent
    simp only [absent]
    exact fails_closed (by decide)
  · intro more _ accepted
    simp only [accepted]
    exact pure_ne_error

/-- A definition fails in a part of its head or in its body. -/
lemma fails_definition : definition callable ts = .error f ↔
    ((∀ x, nextKind ts ≠ .identifier x) ∧ f = .unexpected .identifier ts) ∨
      ∃ name mid, Next (.identifier name) ts mid ∧
        ((nextKind mid ≠ .lparen ∧ f = .unexpected (.token .lparen) mid) ∨
          ∃ inner, Next .lparen mid inner ∧ (parameters inner = .error f ∨
            ∃ params behind, Reads (parameters inner) params behind ∧
              ((nextKind behind ≠ .symbol .assign ∧
                  f = .unexpected (.token (.symbol .assign)) behind) ∨
                ∃ start, Next (.symbol .assign) behind start ∧
                  assignment (fun n => n == name || callable n) start = .error f))) := by
  rw [definition]
  refine fails_identifier_bind fun name mid _ => ?_
  refine fails_expect_bind (by decide) fun inner _ => ?_
  refine fails_bind fun params behind _ => ?_
  refine fails_expect_bind (by decide) fun start _ => ?_
  exact fails_bind_pure

/-- What has to reach the end of the line fails, or something follows. -/
lemma fails_endOfLine {first : Except Failure (Parsed β m)} {g : β → Statement} :
    (do
      let p ← first
      endOfLine p.rest
      return g p.value) = .error f ↔ first = .error f ∨
        ∃ b rest, Reads first b rest ∧ nextKind rest ≠ .eof ∧ f = .unexpected (.token .eof) rest := by
  refine fails_bind fun b rest _ => ?_
  show (endOfLine rest >>= fun _ => pure (g b)) = .error f ↔ _
  cases decEq (nextKind rest) .eof with
  | isTrue atEnd =>
    rw [endOfLine, if_pos atEnd]
    exact ⟨fun h => absurd h pure_ne_error, fun h => absurd atEnd h.1⟩
  | isFalse other =>
    rw [endOfLine, if_neg other]
    exact ⟨fun h => ⟨other, (Except.error.inj h).symm⟩, fun h => congrArg Except.error h.2.symm⟩

/-- A statement fails where its expression or its definition does, or where something stands behind it.
-/
lemma fails_statement : statement callable ts = .error f ↔
    (nextKind ts ≠ .deffn ∧ (assignment callable ts = .error f ∨
      ∃ e rest, Reads (assignment callable ts) e rest ∧
        nextKind rest ≠ .eof ∧ f = .unexpected (.token .eof) rest)) ∨
      ∃ more, Next .deffn ts more ∧ (definition callable more = .error f ∨
        ∃ d rest, Reads (definition callable more) d rest ∧
          nextKind rest ≠ .eof ∧ f = .unexpected (.token .eof) rest) := by
  rw [statement]
  apply iff_accept
  · decide
  · intro absent
    simp only [absent]
    exact fails_endOfLine
  · intro more _ accepted
    simp only [accepted]
    exact fails_endOfLine

end Statements

end Reckon.Parser
