import Mathlib.Tactic.Lemma
import Reckon.Statement.Parser

/-!
# What the parser reads

Each function of the parser described by the functions that it calls: it reads a value and leaves the
tokens `rest` (`Reads`) exactly if these read its parts, one behind the other. The proof that the tokens
left are fewer, which a result of the parser carries, is of no concern here.

The functions are put together in few ways, and there is one lemma about each: one part is read behind
another (`reads_bind_congr`), what was read is wrapped up (`reads_bind_pure`) or closed by a token
(`reads_closed`), and the next token decides (`iff_accept`).
-/

namespace Reckon.Parser

open Token (Kind)

variable {α β : Type} {n m : Nat} {callable : String → Bool} {level : Level}
  {ts rest more : List Token} {k : Kind} {v : α} {e left : Expr}

/-- The result is a value with these tokens behind it. -/
def Reads (result : Except Failure (Parsed α n)) (v : α) (rest : List Token) : Prop :=
  ∃ fewer, result = .ok ⟨v, rest, fewer⟩

/-- The next token is of this kind, and these tokens are behind it. -/
def Next (k : Kind) (ts rest : List Token) : Prop := ∃ t : Token, t.kind = k ∧ ts = t :: rest

section Next

/-- Behind a token there are fewer. -/
lemma Next.lt (h : Next k ts rest) : rest.length < ts.length := by
  obtain ⟨t, -, e⟩ := h
  subst e
  exact Nat.lt_succ_self _

/-- The next token has the kind that is next. -/
lemma Next.nextKind_eq (h : Next k ts rest) : nextKind ts = k := by
  obtain ⟨t, e, e'⟩ := h
  subst e'
  exact e

/-- There is one way to go on behind the next token. -/
lemma Next.unique (h : Next k ts rest) (h' : Next k ts more) : rest = more := by
  obtain ⟨t, -, e⟩ := h
  obtain ⟨t', -, e'⟩ := h'
  cases e.symm.trans e'
  rfl

/-- At the end there is no next token. -/
lemma not_next_nil : ¬Next k [] rest := nofun

/-- The next token is the first one. -/
lemma next_cons {t : Token} : Next k (t :: ts) rest ↔ t.kind = k ∧ rest = ts := by
  refine ⟨fun h => ?_, fun ⟨kind, e⟩ => ?_⟩
  · obtain ⟨t', kind, e⟩ := h
    cases e
    exact ⟨kind, rfl⟩
  · subst e
    exact ⟨t, kind, rfl⟩

/-- The next token is of the kind or of another one. -/
lemma next_or_ne (k : Kind) (notEnd : k ≠ .eof) (ts : List Token) :
    (∃ more, Next k ts more) ∨ nextKind ts ≠ k := by
  cases ts with
  | nil => exact .inr notEnd.symm
  | cons t ts =>
    cases decEq t.kind k with
    | isTrue same => exact .inl ⟨ts, t, same, rfl⟩
    | isFalse differ => exact .inr differ

/-- The next token is taken. -/
lemma take?_of_next (h : Next k ts rest) : ∃ fewer, take? ts = some ⟨k, rest, fewer⟩ := by
  have lt := h.lt
  obtain ⟨t, e, e'⟩ := h
  subst e e'
  exact ⟨lt, rfl⟩

/-- A token of the kind that is asked for is taken. -/
lemma accept?_of_next (h : Next k ts rest) : ∃ fewer, accept? k ts = some ⟨(), rest, fewer⟩ := by
  obtain ⟨fewer, taken⟩ := take?_of_next h
  exact ⟨fewer, by simp [accept?, taken]⟩

/-- A token of another kind is left. -/
lemma accept?_of_ne (h : nextKind ts ≠ k) : accept? k ts = none := by
  cases ts with
  | nil => rfl
  | cons t ts => exact if_neg h

/-- The next token decides: a statement is one thing if it is of the kind and another if it is not. -/
lemma iff_accept {P A : Prop} {B : List Token → Prop} (notEnd : k ≠ .eof)
    (absent : accept? k ts = none → (P ↔ A))
    (present : ∀ more fewer, accept? k ts = some ⟨(), more, fewer⟩ → (P ↔ B more)) :
    P ↔ (nextKind ts ≠ k ∧ A) ∨ ∃ more, Next k ts more ∧ B more := by
  cases next_or_ne k notEnd ts with
  | inl h =>
    obtain ⟨more, next⟩ := h
    obtain ⟨fewer, accepted⟩ := accept?_of_next next
    refine (present more fewer accepted).trans ⟨fun b => .inr ⟨more, next, b⟩, fun h => ?_⟩
    cases h with
    | inl h => exact absurd next.nextKind_eq h.1
    | inr h =>
      obtain ⟨more', next', b⟩ := h
      exact next.unique next' ▸ b
  | inr other =>
    refine (absent (accept?_of_ne other)).trans ⟨fun a => .inl ⟨other, a⟩, fun h => ?_⟩
    cases h with
    | inl h => exact h.2
    | inr h =>
      obtain ⟨more, next, -⟩ := h
      exact absurd next.nextKind_eq other

/-- The tokens that are operators of a binding. -/
lemma operator?_eq_some_iff {op : Operator} :
    level.operator? k = some op ↔ k = .symbol (.value op) ∧ op.level = level := by
  cases k with
  | symbol s =>
    cases s with
    | assign => exact ⟨nofun, nofun⟩
    | value op' =>
      refine ⟨fun h => ?_, fun ⟨e, same⟩ => ?_⟩
      · obtain ⟨same, e⟩ := Option.ite_none_right_eq_some.1 h
        cases e
        exact ⟨rfl, same⟩
      · cases e
        exact if_pos same
  | _ => exact ⟨nofun, nofun⟩

/-- The next token decides, by whether it is an operator of the binding. -/
lemma iff_acceptOperator {P A : Prop} {B : Operator → List Token → Prop}
    (absent : acceptOperator? level ts = none → (P ↔ A))
    (present : ∀ op more fewer, acceptOperator? level ts = some ⟨op, more, fewer⟩ → (P ↔ B op more)) :
    P ↔ (level.operator? (nextKind ts) = none ∧ A) ∨
      ∃ op more, (op.level = level ∧ Next (.symbol (.value op)) ts more) ∧ B op more := by
  cases ts with
  | nil =>
    refine (absent rfl).trans ⟨fun a => .inl ⟨rfl, a⟩, fun h => ?_⟩
    cases h with
    | inl h => exact h.2
    | inr h =>
      obtain ⟨op, more, ⟨-, next⟩, -⟩ := h
      exact absurd next not_next_nil
  | cons t ts =>
    cases h : level.operator? t.kind with
    | none =>
      have refused : acceptOperator? level (t :: ts) = none := by simp [acceptOperator?, take?, h]
      refine (absent refused).trans ⟨fun a => .inl ⟨h, a⟩, fun h' => ?_⟩
      cases h' with
      | inl h' => exact h'.2
      | inr h' =>
        obtain ⟨op, more, ⟨same, next⟩, -⟩ := h'
        have found := operator?_eq_some_iff.2 ⟨next.nextKind_eq, same⟩
        cases found.symm.trans h
    | some op =>
      obtain ⟨kind, same⟩ := operator?_eq_some_iff.1 h
      have accepted : acceptOperator? level (t :: ts) = some ⟨op, ts, by simp⟩ := by
        simp [acceptOperator?, take?, h]
      refine (present op ts _ accepted).trans
        ⟨fun b => .inr ⟨op, ts, ⟨same, t, kind, rfl⟩, b⟩, fun h' => ?_⟩
      cases h' with
      | inl h' => cases h.symm.trans h'.1
      | inr h' =>
        obtain ⟨op', more, ⟨-, next⟩, b⟩ := h'
        obtain ⟨kind', e⟩ := next_cons.1 next
        cases kind.symm.trans kind'
        cases e
        exact b

end Next

section Reads

/-- What is read leaves fewer tokens. -/
lemma Reads.lt {result : Except Failure (Parsed α n)} (h : Reads result v rest) :
    rest.length < n := by
  obtain ⟨fewer, -⟩ := h
  exact fewer

/-- A result is read as its value and leaves its rest. -/
lemma reads_ok {p : Parsed α n} : Reads (.ok p) v rest ↔ v = p.value ∧ rest = p.rest := by
  obtain ⟨value, left, fewer⟩ := p
  refine ⟨fun h => ?_, fun ⟨e, e'⟩ => ?_⟩
  · obtain ⟨_, e⟩ := h
    cases e
    exact ⟨rfl, rfl⟩
  · subst e e'
    exact ⟨fewer, rfl⟩

/-- A failure reads nothing. -/
lemma not_reads_error {f : Failure} : ¬Reads (.error f : Except Failure (Parsed α n)) v rest := nofun

/-- A sequence reads its second part from where its first part stopped. -/
lemma reads_bind_congr {first : Except Failure (Parsed β m)}
    {next : Parsed β m → Except Failure (Parsed α n)} {Q : β → List Token → Prop}
    (second : ∀ b mid fewer, Reads (next ⟨b, mid, fewer⟩) v rest ↔ Q b mid) :
    Reads (first >>= next) v rest ↔ ∃ b mid, Reads first b mid ∧ Q b mid := by
  cases first with
  | error f =>
    refine ⟨fun h => absurd h not_reads_error, fun h => ?_⟩
    obtain ⟨b, mid, read, -⟩ := h
    exact absurd read not_reads_error
  | ok p =>
    obtain ⟨b, mid, fewer⟩ := p
    refine ⟨fun h => ⟨b, mid, ⟨fewer, rfl⟩, (second b mid fewer).1 h⟩, fun h => ?_⟩
    obtain ⟨b', mid', read, q⟩ := h
    obtain ⟨e, e'⟩ := reads_ok.1 read
    subst e e'
    exact (second b' mid' fewer).2 q

/-- What was read may be wrapped up. -/
lemma reads_bind_pure (f : β → α) {first : Except Failure (Parsed β m)}
    {fewer : ∀ p : Parsed β m, p.rest.length < n} :
    Reads (first >>= fun p => pure ⟨f p.value, p.rest, fewer p⟩) v rest ↔
      ∃ b, Reads first b rest ∧ v = f b := by
  refine (reads_bind_congr (Q := fun b mid => v = f b ∧ rest = mid) fun _ _ _ => reads_ok).trans
    ⟨fun h => ?_, fun h => ?_⟩
  · obtain ⟨b, mid, read, e, e'⟩ := h
    subst e'
    exact ⟨b, read, e⟩
  · obtain ⟨b, read, e⟩ := h
    exact ⟨b, rest, read, e, rfl⟩

/-- The bound on what is left does not matter. -/
lemma reads_rebound {first : Except Failure (Parsed α m)}
    {fewer : ∀ p : Parsed α m, p.rest.length < n} :
    Reads (first >>= fun p => pure ⟨p.value, p.rest, fewer p⟩) v rest ↔ Reads first v rest := by
  refine (reads_bind_pure id).trans ⟨fun h => ?_, fun h => ⟨v, h, rfl⟩⟩
  obtain ⟨b, read, e⟩ := h
  cases e
  exact read

/-- A token that is expected is read if it is next. -/
lemma reads_expect {u : Unit} : Reads (expect k ts) u rest ↔ Next k ts rest := by
  cases ts with
  | nil => exact ⟨nofun, nofun⟩
  | cons t ts =>
    rw [next_cons]
    cases decEq t.kind k with
    | isTrue same => simp [expect, accept?, take?, same, reads_ok]
    | isFalse differ => simp [expect, accept?, take?, differ, not_reads_error]

/-- A name is read if it is next. -/
lemma reads_identifier {x : String} : Reads (identifier ts) x rest ↔ Next (.identifier x) ts rest := by
  cases ts with
  | nil => exact ⟨nofun, nofun⟩
  | cons t ts =>
    rw [next_cons]
    cases h : t.kind <;> simp [identifier, take?, h, reads_ok, not_reads_error, eq_comm]

/-- A token that is expected comes next. -/
lemma reads_expect_congr {next : Parsed Unit ts.length → Except Failure (Parsed α n)}
    {Q : List Token → Prop} (second : ∀ mid fewer, Reads (next ⟨(), mid, fewer⟩) v rest ↔ Q mid) :
    Reads (expect k ts >>= next) v rest ↔ ∃ mid, Next k ts mid ∧ Q mid := by
  refine (reads_bind_congr (Q := fun _ => Q) fun _ => second).trans ⟨fun h => ?_, fun h => ?_⟩
  · obtain ⟨u, mid, read, q⟩ := h
    exact ⟨mid, reads_expect.1 read, q⟩
  · obtain ⟨mid, next, q⟩ := h
    exact ⟨(), mid, reads_expect.2 next, q⟩

/-- What was read may be closed by a token. -/
lemma reads_closed {first : Except Failure (Parsed α m)}
    {fewer : ∀ (p : Parsed α m) (q : Parsed Unit p.rest.length), q.rest.length < n} :
    Reads (first >>= fun p => expect k p.rest >>= fun q => pure ⟨p.value, q.rest, fewer p q⟩) v rest ↔
      ∃ mid, Reads first v mid ∧ Next k mid rest := by
  refine (reads_bind_congr (Q := fun b mid => ∃ end', Next k mid end' ∧ v = b ∧ rest = end')
    fun _ _ _ => reads_expect_congr fun _ _ => reads_ok).trans ⟨fun h => ?_, fun h => ?_⟩
  · obtain ⟨b, mid, read, end', next, e, e'⟩ := h
    subst e e'
    exact ⟨mid, read, next⟩
  · obtain ⟨mid, read, next⟩ := h
    exact ⟨v, mid, read, rest, next, rfl, rfl⟩

end Reads

section Expressions

/-- An assignment is a conditional and, behind its sign, the value. -/
lemma reads_assignment : Reads (assignment callable ts) e rest ↔
    ∃ target mid, Reads (conditional callable ts) target mid ∧
      ((nextKind mid ≠ .symbol .assign ∧ e = target ∧ rest = mid) ∨
        ∃ more, Next (.symbol .assign) mid more ∧
          ∃ value, Reads (assignment callable more) value rest ∧ e = .assign target value) := by
  rw [assignment]
  refine reads_bind_congr fun target mid _ => ?_
  apply iff_accept
  · decide
  · intro absent
    simp only [absent]
    exact reads_ok
  · intro more _ accepted
    simp only [accepted]
    exact reads_bind_pure (Expr.assign target)

/-- A conditional is a test and, behind a question mark, what follows from it. -/
lemma reads_conditional : Reads (conditional callable ts) e rest ↔
    ∃ test mid, Reads (chain callable .test ts) test mid ∧
      ((nextKind mid ≠ .question ∧ e = test ∧ rest = mid) ∨
        ∃ more, Next .question mid more ∧
          ∃ whenTrue mid', Reads (chain callable .test more) whenTrue mid' ∧
            ∃ more', Next .colon mid' more' ∧
              ∃ whenFalse, Reads (conditional callable more') whenFalse rest ∧
                e = .cond test whenTrue whenFalse) := by
  rw [conditional]
  refine reads_bind_congr fun test mid _ => ?_
  apply iff_accept
  · decide
  · intro absent
    simp only [absent]
    exact reads_ok
  · intro more _ accepted
    simp only [accepted]
    refine reads_bind_congr fun whenTrue mid' _ => ?_
    refine reads_expect_congr fun more' _ => ?_
    exact reads_bind_pure (Expr.cond test whenTrue)

/-- A chain is an operand and what the operators behind it make of it. -/
lemma reads_chain : Reads (chain callable level ts) e rest ↔
    ∃ first mid, Reads (operand callable level ts) first mid ∧
      Reads (chainRest callable level first mid) e rest := by
  rw [chain]
  refine reads_bind_congr fun first mid _ => ?_
  exact reads_rebound

/-- A chain goes on behind an operator of its binding and ends before any other token. -/
lemma reads_chainRest : Reads (chainRest callable level left ts) e rest ↔
    (level.operator? (nextKind ts) = none ∧ e = left ∧ rest = ts) ∨
      ∃ op more, (op.level = level ∧ Next (.symbol (.value op)) ts more) ∧
        ∃ right mid, Reads (operand callable level more) right mid ∧
          Reads (chainRest callable level (.binary op left right) mid) e rest := by
  rw [chainRest]
  apply iff_acceptOperator
  · intro absent
    simp only [absent]
    exact reads_ok
  · intro op more _ accepted
    simp only [accepted]
    refine reads_bind_congr fun right mid _ => ?_
    exact reads_rebound

section Factor

/-- Behind a sign there is another factor. -/
lemma reads_factor_minus (next : Next k ts more) (sign : k = .symbol (.value .sub) ∨ k = .tilde) :
    Reads (factor callable ts) e rest ↔
      ∃ operand, Reads (factor callable more) operand rest ∧ e = operand.negate := by
  obtain ⟨_, taken⟩ := take?_of_next next
  rw [factor]
  cases sign with
  | inl sign | inr sign =>
    subst sign
    simp only [taken]
    exact reads_bind_pure Expr.negate

/-- An integer is a factor. -/
lemma reads_factor_integer {v : Int64} (next : Next (.integer v) ts more) :
    Reads (factor callable ts) e rest ↔ e = .lit v ∧ rest = more := by
  obtain ⟨_, taken⟩ := take?_of_next next
  rw [factor]
  simp only [taken]
  exact reads_ok

/-- A name that is not that of a function is a factor. -/
lemma reads_factor_name {x : String} (next : Next (.identifier x) ts more)
    (free : callable x = false) : Reads (factor callable ts) e rest ↔ e = .var x ∧ rest = more := by
  obtain ⟨_, taken⟩ := take?_of_next next
  rw [factor]
  simp only [taken, free]
  exact reads_ok

/-- Behind the name of a function there are its arguments. -/
lemma reads_factor_call {f : String} (next : Next (.identifier f) ts more)
    (known : callable f = true) : Reads (factor callable ts) e rest ↔
      ∃ inner, Next .lparen more inner ∧
        ∃ args, Reads (arguments callable inner) args rest ∧ e = .call f args := by
  obtain ⟨_, taken⟩ := take?_of_next next
  have either : Reads (factor callable ts) e rest ↔ (nextKind more ≠ .lparen ∧ False) ∨
      ∃ inner, Next .lparen more inner ∧
        ∃ args, Reads (arguments callable inner) args rest ∧ e = .call f args := by
    rw [factor]
    simp only [taken, known, if_true]
    apply iff_accept
    · decide
    · intro absent
      simp only [absent, not_reads_error]
    · intro inner _ accepted
      simp only [accepted]
      exact reads_bind_pure (Expr.call f)
  rwa [and_false, false_or] at either

/-- Between parentheses there is an assignment. -/
lemma reads_factor_parens (next : Next .lparen ts more) :
    Reads (factor callable ts) e rest ↔
      ∃ mid, Reads (assignment callable more) e mid ∧ Next .rparen mid rest := by
  obtain ⟨_, taken⟩ := take?_of_next next
  rw [factor]
  simp only [taken]
  exact reads_closed

/-- The tokens that a factor starts with. -/
def StartsFactor (k : Kind) : Prop :=
  (k = .symbol (.value .sub) ∨ k = .tilde) ∨ (∃ v, k = .integer v) ∨ (∃ x, k = .identifier x) ∨
    k = .lparen

/-- A factor fails where none starts. -/
lemma factor_of_not_starts (other : ¬StartsFactor (nextKind ts)) :
    factor callable ts = .error (.unexpected .expression ts) := by
  cases ts with
  | nil => rw [factor]; rfl
  | cons t more =>
    have ⟨_, taken⟩ : ∃ fewer, take? (t :: more) = some ⟨t.kind, more, fewer⟩ :=
      take?_of_next (next_cons.2 ⟨rfl, rfl⟩)
    rw [factor]
    simp only [taken]
    split
    case h_6 => rfl
    all_goals
      rename_i eq
      simp only [Option.some.injEq, Parsed.mk.injEq] at eq
      exact absurd (by simp [StartsFactor, nextKind, eq.1]) other

/-- There is a token, if one starts a factor. -/
lemma StartsFactor.next (starts : StartsFactor (nextKind ts)) : ∃ more, Next (nextKind ts) ts more := by
  cases ts with
  | nil => simp [StartsFactor, nextKind] at starts
  | cons t more => exact ⟨more, next_cons.2 ⟨rfl, rfl⟩⟩

/-- No other token starts a factor. -/
lemma starts_of_reads_factor (h : Reads (factor callable ts) e rest) :
    ∃ k more, Next k ts more ∧ StartsFactor k := by
  by_cases starts : StartsFactor (nextKind ts)
  · obtain ⟨more, next⟩ := starts.next
    exact ⟨nextKind ts, more, next, starts⟩
  · rw [factor_of_not_starts starts] at h
    exact absurd h not_reads_error

end Factor

/-- The arguments of a call end at the parenthesis, which may follow at once. -/
lemma reads_arguments {args : List Expr} : Reads (arguments callable ts) args rest ↔
    (nextKind ts ≠ .rparen ∧
        ∃ mid, Reads (argumentList callable ts) args mid ∧ Next .rparen mid rest) ∨
      ∃ more, Next .rparen ts more ∧ args = [] ∧ rest = more := by
  rw [arguments]
  apply iff_accept
  · decide
  · intro absent
    simp only [absent]
    exact reads_closed
  · intro more _ accepted
    simp only [accepted]
    exact reads_ok

/-- Behind an argument there is a comma with further arguments, or the list ends. -/
lemma reads_argumentList {args : List Expr} : Reads (argumentList callable ts) args rest ↔
    ∃ arg mid, Reads (assignment callable ts) arg mid ∧
      ((nextKind mid ≠ .comma ∧ args = [arg] ∧ rest = mid) ∨
        ∃ more, Next .comma mid more ∧
          ∃ others, Reads (argumentList callable more) others rest ∧ args = arg :: others) := by
  rw [argumentList]
  refine reads_bind_congr fun arg mid _ => ?_
  apply iff_accept
  · decide
  · intro absent
    simp only [absent]
    exact reads_ok
  · intro more _ accepted
    simp only [accepted]
    exact reads_bind_pure (List.cons arg)

end Expressions

section Statements

/-- Behind a parameter there is a comma with further parameters, or the list ends. -/
lemma reads_nameList {names : List String} : Reads (nameList ts) names rest ↔
    ∃ x mid, Next (.identifier x) ts mid ∧
      ((nextKind mid ≠ .comma ∧ names = [x] ∧ rest = mid) ∨
        ∃ more, Next .comma mid more ∧
          ∃ others, Reads (nameList more) others rest ∧ names = x :: others) := by
  rw [nameList]
  simp only [← reads_identifier]
  refine reads_bind_congr fun x mid _ => ?_
  apply iff_accept
  · decide
  · intro absent
    simp only [absent]
    exact reads_ok
  · intro more _ accepted
    simp only [accepted]
    exact reads_bind_pure (List.cons x)

/-- The parameters of a definition end at the parenthesis, which may follow at once. -/
lemma reads_parameters {names : List String} : Reads (parameters ts) names rest ↔
    (nextKind ts ≠ .rparen ∧ ∃ mid, Reads (nameList ts) names mid ∧ Next .rparen mid rest) ∨
      ∃ more, Next .rparen ts more ∧ names = [] ∧ rest = more := by
  rw [parameters]
  apply iff_accept
  · decide
  · intro absent
    simp only [absent]
    exact reads_closed
  · intro more _ accepted
    simp only [accepted]
    exact reads_ok

/-- A definition is a head, the sign of assignment, and a body in which its name may be called. -/
lemma reads_definition {d : Definition} : Reads (definition callable ts) d rest ↔
    ∃ name mid, Next (.identifier name) ts mid ∧
      ∃ inner, Next .lparen mid inner ∧
        ∃ params behind, Reads (parameters inner) params behind ∧
          ∃ start, Next (.symbol .assign) behind start ∧
            ∃ body, Reads (assignment (fun n => n == name || callable n) start) body rest ∧
              d = ⟨name, params, body⟩ := by
  rw [definition]
  simp only [← reads_identifier]
  refine reads_bind_congr fun name mid _ => ?_
  refine reads_expect_congr fun inner _ => ?_
  refine reads_bind_congr fun params behind _ => ?_
  refine reads_expect_congr fun start _ => ?_
  exact reads_bind_pure (Definition.mk name params)

/-- What a line says is what is read up to its end. -/
lemma endOfLine_eq_ok_iff {first : Except Failure (Parsed β m)} {f : β → Statement} {s : Statement} :
    (do
      let p ← first
      endOfLine p.rest
      return f p.value) = .ok s ↔ ∃ b rest, Reads first b rest ∧ nextKind rest = .eof ∧ s = f b := by
  refine ⟨fun h => ?_, fun h => ?_⟩
  · cases first with
    | error _ => cases h
    | ok p =>
      have h : (endOfLine p.rest >>= fun _ => pure (f p.value)) = .ok s := h
      cases decEq (nextKind p.rest) .eof with
      | isTrue atEnd =>
        rw [endOfLine, if_pos atEnd] at h
        cases h
        exact ⟨p.value, p.rest, reads_ok.2 ⟨rfl, rfl⟩, atEnd, rfl⟩
      | isFalse other =>
        rw [endOfLine, if_neg other] at h
        cases h
  · obtain ⟨b, rest, ⟨_, e⟩, atEnd, e'⟩ := h
    subst e e'
    show (endOfLine rest >>= fun _ => pure (f b)) = .ok (f b)
    rw [endOfLine, if_pos atEnd]
    rfl

/-- A line is a definition behind its keyword, or an assignment. -/
lemma statement_eq_ok_iff {s : Statement} : statement callable ts = .ok s ↔
    (nextKind ts ≠ .deffn ∧ ∃ e rest, Reads (assignment callable ts) e rest ∧
        nextKind rest = .eof ∧ s = .evaluate e) ∨
      ∃ more, Next .deffn ts more ∧ ∃ d rest, Reads (definition callable more) d rest ∧
        nextKind rest = .eof ∧ s = .define d := by
  rw [statement]
  apply iff_accept
  · decide
  · intro absent
    simp only [absent]
    exact endOfLine_eq_ok_iff
  · intro more _ accepted
    simp only [accepted]
    exact endOfLine_eq_ok_iff

end Statements

end Reckon.Parser
