import Reckon.Proofs.Failing
import Reckon.Proofs.Parsing.Complete

/-!
# The parser fails at the earliest wrong token

When the parser fails by a rule, what it has passed by then can still be completed to something that
the rule derives, and with the token that is next it can not: the parser fails on all tokens that start
in this way (`Earliest`). For the rules of expressions this is `locates`, by induction on the number of
tokens as in the proof of `sound`; for a whole line it is `locates_statement`.

All steps are of two kinds. A failure inside a part is one of the whole, if what completes the part can
be completed further and the parser comes to the part again on other tokens (`Earliest.behind`); it does,
since a part in front that is derived is read again in front of the same token (`complete`). Where the
parser expects a token behind a part and another one follows, the part has to be read again in front of
that one. The parser then stops behind it for the reason for which it did before (`stops`).
-/

namespace Reckon

open Token (Kind)

namespace Parser

variable {ks ls : List Kind} {ts ts' mid rest rest' : List Token}

/-- Which token is next behind passed tokens decides which one is next in front of them. -/
lemma nextKind_eq_of_passes (passes : Passes ks ts rest) (passes' : Passes ks ts' rest')
    (same : nextKind rest' = nextKind rest) : nextKind ts' = nextKind ts := by
  cases ks with
  | nil =>
    cases passes
    cases passes'
    exact same
  | cons k ks =>
    obtain ⟨_, next, -⟩ := passes
    obtain ⟨_, next', -⟩ := passes'
    rw [next.nextKind_eq, next'.nextKind_eq]

/-- The parser gives a failure. -/
def Fails {α : Type} (result : Except Failure α) : Prop := ∃ f, result = .error f

/-- The failure is in front of `rest`, behind tokens of these kinds: there the unexpected token is, or
the callable name without its arguments is the last one. -/
def Failure.LiesAt (callable : String → Bool) (ks : List Kind) (rest : List Token) : Failure → Prop
  | .unexpected _ ts => ts = rest
  | .missingArguments name =>
    callable name = true ∧ nextKind rest ≠ .lparen ∧ ∃ front, ks = front ++ [.identifier name]

/-- The failure is at the earliest wrong token of `ts`, the first one of `rest`. The tokens before it
start something that is derived, and the parser fails on all tokens that go as far. -/
structure Earliest (callable : String → Bool) (derives : List Kind → Prop)
    (fails : List Token → Prop) (ts : List Token) (f : Failure) (ks : List Kind)
    (rest : List Token) : Prop where
  passes : Passes ks ts rest
  lies : f.LiesAt callable ks rest
  viable : ∃ more, derives (ks ++ more)
  stuck : ∀ ts' rest', Passes ks ts' rest' → nextKind rest' = nextKind rest → fails ts'

/-- A failure lies where it did with more kinds in front. -/
lemma Failure.LiesAt.behind {callable : String → Bool} {f : Failure} (front : List Kind)
    (lies : f.LiesAt callable ks rest) : f.LiesAt callable (front ++ ks) rest := by
  cases f with
  | unexpected expected ts => exact lies
  | missingArguments name =>
    obtain ⟨known, other, before, rfl⟩ := lies
    exact ⟨known, other, front ++ before, by simp⟩

/-- A failure in a part, behind passed tokens, is one of the whole. -/
lemma Earliest.behind {callable : String → Bool} {derives derives' : List Kind → Prop}
    {fails fails' : List Token → Prop} {f : Failure} {front : List Kind} {inner : List Token}
    (h : Earliest callable derives fails inner f ks rest) (passes : Passes front ts inner)
    (extend : ∀ ls, derives ls → ∃ more, derives' (front ++ ls ++ more))
    (carry : ∀ ts' inner', Passes front ts' inner' → nextKind inner' = nextKind inner →
      fails inner' → fails' ts') : Earliest callable derives' fails' ts f (front ++ ks) rest where
  passes := passes.append h.passes
  lies := h.lies.behind front
  viable := by
    obtain ⟨more, derived⟩ := h.viable
    obtain ⟨more', derived'⟩ := extend _ derived
    exact ⟨more ++ more', by simpa using derived'⟩
  stuck ts' rest' passes' same := by
    obtain ⟨inner', first, second⟩ := passes_append.1 passes'
    have next : nextKind inner' = nextKind inner := nextKind_eq_of_passes h.passes second same
    exact carry ts' inner' first next (h.stuck inner' rest' second same)

end Parser

open Reckon.Parser

namespace Grammar

variable {callable : String → Bool} {rule : Rule} {level : Level} {ts all rest : List Token}
  {e left : Expr} {args : List Expr} {f : Failure} {k : Kind} {ks ls : List Kind}

section Stops

/-- Behind what was read by the rule, there is nothing with which the parser would have gone on. -/
def Stops (callable : String → Bool) (rule : Rule) : Prop :=
  ∀ ts e rest, Reads (rule.read callable ts) e rest → ¬rule.GoesOn (nextKind rest)

/-- A chain goes on with an operator of its own and with what its operands go on with. -/
lemma not_goesOn_chain (own : level.operator? k = none) (stops : ¬(operand level).GoesOn k) :
    ¬(Rule.chain level).GoesOn k := by
  intro ⟨op, eq, le⟩
  subst eq
  have other : op.level ≠ level := by
    intro same
    cases (operator?_eq_some_iff.2 ⟨rfl, same⟩).symm.trans own
  apply stops
  cases level with
  | product => cases h : op.level <;> simp_all
  | sum | test =>
    refine ⟨op, rfl, ?_⟩
    cases h : op.level <;> simp_all

/-- Behind the rest of a chain there is nothing with which the chain would have gone on. -/
lemma stops_chainRest (operands : Stops callable (operand level))
    (stops : ¬(operand level).GoesOn (nextKind ts))
    (h : Reads (chainRest callable level left ts) e rest) :
    ¬(Rule.chain level).GoesOn (nextKind rest) := by
  induction len : ts.length using Nat.strongRecOn generalizing ts left with
  | ind _ ih =>
    cases reads_chainRest.1 h with
    | inl h =>
      obtain ⟨own, -, rfl⟩ := h
      exact not_goesOn_chain own stops
    | inr h =>
      obtain ⟨op, inner, ⟨-, next⟩, right, mid, read, others⟩ := h
      have shorter : mid.length < ts.length := Nat.lt_trans read.lt next.lt
      rw [← read_operand] at read
      exact ih mid.length (len ▸ shorter) (operands inner right mid read) others rfl

/-- Behind a chain there is nothing with which it would have gone on, if this holds of its operands. -/
lemma stops_chain (operands : Stops callable (operand level)) : Stops callable (.chain level) := by
  intro ts e rest h
  obtain ⟨first, mid, read, others⟩ := reads_chain.1 h
  rw [← read_operand] at read
  exact stops_chainRest operands (operands ts first mid read) others

/-- The same holds of a conditional, if it holds of its test. -/
lemma stops_conditional (tests : Stops callable (.chain .test)) : Stops callable .conditional := by
  intro ts e rest h
  induction len : ts.length using Nat.strongRecOn generalizing ts e with
  | ind _ ih =>
    obtain ⟨test, mid, read, h⟩ := reads_conditional.1 h
    cases h with
    | inl h =>
      obtain ⟨other, -, rfl⟩ := h
      intro goes
      cases goes with
      | inl question => exact other question
      | inr operator =>
        obtain ⟨op, eq⟩ := operator
        refine tests ts test rest read ⟨op, eq, ?_⟩
        cases op.level <;> decide
    | inr h =>
      obtain ⟨more, question, a, mid', readA, more', colon, b, readB, -⟩ := h
      have shorter : more'.length < ts.length :=
        Nat.lt_trans (Nat.lt_trans colon.lt readA.lt) (Nat.lt_trans question.lt read.lt)
      exact ih more'.length (len ▸ shorter) more' b readB rfl

/-- The same holds of an assignment, if it holds of its target. -/
lemma stops_assignment (targets : Stops callable .conditional) : Stops callable .assignment := by
  intro ts e rest h
  induction len : ts.length using Nat.strongRecOn generalizing ts e with
  | ind _ ih =>
    obtain ⟨target, mid, read, h⟩ := reads_assignment.1 h
    cases h with
    | inl h =>
      obtain ⟨other, -, rfl⟩ := h
      intro goes
      cases goes with
      | inl sign => exact other sign
      | inr goes => exact targets ts target rest read goes
    | inr h =>
      obtain ⟨more, sign, value, readV, -⟩ := h
      have shorter : more.length < ts.length := Nat.lt_trans sign.lt read.lt
      exact ih more.length (len ▸ shorter) more value readV rfl

/-- The parser goes on as long as it can. -/
lemma stops (callable : String → Bool) (rule : Rule) : Stops callable rule := by
  induction rule using Rule.ascend with
  | factor => exact fun _ _ _ _ => id
  | chain level operands => exact stops_chain operands
  | conditional tests => exact stops_conditional tests
  | assignment targets => exact stops_assignment targets

/-- Behind arguments there is neither a comma nor anything with which the last one would have gone
on. -/
lemma stops_argumentList (h : Reads (argumentList callable ts) args rest) :
    ¬Rule.assignment.GoesOn (nextKind rest) ∧ nextKind rest ≠ .comma := by
  induction len : ts.length using Nat.strongRecOn generalizing ts args with
  | ind _ ih =>
    obtain ⟨arg, mid, read, h⟩ := reads_argumentList.1 h
    cases h with
    | inl h =>
      obtain ⟨other, -, rfl⟩ := h
      exact ⟨stops callable .assignment ts arg rest read, other⟩
    | inr h =>
      obtain ⟨inner, comma, others, readOthers, -⟩ := h
      have shorter : inner.length < ts.length := Nat.lt_trans comma.lt read.lt
      exact ih inner.length (len ▸ shorter) readOthers rfl

end Stops

/-- The rule derives something from the kinds. -/
def Rule.Derivable (callable : String → Bool) (rule : Rule) (ks : List Kind) : Prop :=
  ∃ e, Derives callable rule ks e

/-- By the rule, the parser fails at the earliest wrong one of these tokens. -/
def Locates (callable : String → Bool) (rule : Rule) (ts : List Token) : Prop :=
  ∀ f, rule.read callable ts = .error f →
    ∃ ks rest, Earliest callable (rule.Derivable callable) (fun ts => Fails (rule.read callable ts))
      ts f ks rest

/-- By any rule, the parser fails at the earliest wrong one of fewer tokens than these. -/
def LocatesBelow (callable : String → Bool) (all : List Token) : Prop :=
  ∀ rule (ts : List Token), ts.length < all.length → Locates callable rule ts

section Chains

/-- An operand alone is a chain. -/
lemma derives_chain_of_operand (h : Derives callable (operand level) ks e) :
    Derives callable (.chain level) ks e := by
  have derives : Derives callable (.chain level) (ks ++ [].flatMap link) e := .chain h nofun nofun
  simpa using derives

/-- An integer is derived by every rule. -/
lemma derives_integer (v : Int64) : Derives callable rule [.integer v] (.lit v) := by
  induction rule using Rule.ascend with
  | factor => exact .integer
  | chain level operand => exact derives_chain_of_operand operand
  | conditional test => exact .test test
  | assignment conditional => exact .plain conditional

/-- The kinds are those of operators of the binding, each with an operand behind it. -/
def Links (callable : String → Bool) (level : Level) (ks : List Kind) : Prop :=
  ∃ more : List (Operator × Phrase), (∀ x ∈ more, x.1.level = level) ∧
    (∀ x ∈ more, Derives callable (operand level) x.2.kinds x.2.expr) ∧ ks = more.flatMap link

/-- Links of a chain with one more in front of them. -/
lemma Links.cons {op : Operator} (same : op.level = level) (h : Derives callable (operand level) ks e)
    (links : Links callable level ls) :
    Links callable level (.symbol (.value op) :: ks ++ ls) := by
  obtain ⟨more, levels, operands, rfl⟩ := links
  exact ⟨(op, ⟨ks, e⟩) :: more, List.forall_mem_cons.2 ⟨same, levels⟩,
    List.forall_mem_cons.2 ⟨h, operands⟩, rfl⟩

/-- The rest of a chain fails at the earliest wrong token. -/
lemma locates_chainRest (below : LocatesBelow callable all) (lt : ts.length < all.length)
    (h : chainRest callable level left ts = .error f) :
    ∃ ks rest, Earliest callable (Links callable level)
      (fun ts => Fails (chainRest callable level left ts)) ts f ks rest := by
  induction len : ts.length using Nat.strongRecOn generalizing ts left with
  | ind _ ih =>
    obtain ⟨op, inner, ⟨same, next⟩, h⟩ := fails_chainRest.1 h
    cases h with
    | inl h =>
      rw [← read_operand] at h
      obtain ⟨ks, rest, located⟩ := below _ inner (Nat.lt_trans next.lt lt) f h
      refine ⟨_, rest, located.behind (next.passes .nil) ?_ ?_⟩
      · intro ls ⟨e, derives⟩
        exact ⟨[], Links.cons same derives ⟨[], nofun, nofun, rfl⟩⟩
      · intro ts' inner' ⟨_, next', eq⟩ _ ⟨f', fails⟩
        cases eq
        rw [read_operand] at fails
        exact ⟨f', fails_chainRest.2 ⟨op, inner', ⟨same, next'⟩, .inl fails⟩⟩
    | inr h =>
      obtain ⟨right, mid, read, h⟩ := h
      have shorter : mid.length < ts.length := Nat.lt_trans read.lt next.lt
      obtain ⟨ks, rest, located⟩ := ih mid.length (len ▸ shorter) (Nat.lt_trans shorter lt) h rfl
      rw [← read_operand] at read
      obtain ⟨ls, passes, derives⟩ := sound callable _ inner right mid read
      refine ⟨_, rest, located.behind (next.passes passes) ?_ ?_⟩
      · intro ms links
        exact ⟨[], by simpa using Links.cons same derives links⟩
      · intro ts' mid' ⟨inner', next', passes'⟩ sameNext ⟨f', fails⟩
        -- the chain failed behind another of its operators
        obtain ⟨op', _, ⟨same', behind⟩, -⟩ := fails_chainRest.1 h
        have read' := complete derives inner' mid' passes' (by
          rw [sameNext, behind.nextKind_eq]
          exact not_goesOn_operand same')
        rw [read_operand] at read'
        exact ⟨f', fails_chainRest.2 ⟨op, inner', ⟨same, next'⟩, .inr ⟨right, mid', read', fails⟩⟩⟩

/-- A chain fails at the earliest wrong token, if its first operand does. -/
lemma locates_chain (below : LocatesBelow callable ts) (first : Locates callable (operand level) ts) :
    Locates callable (.chain level) ts := by
  intro f h
  cases fails_chain.1 h with
  | inl h =>
    rw [← read_operand] at h
    obtain ⟨ks, rest, located⟩ := first f h
    refine ⟨_, rest, located.behind .nil ?_ ?_⟩
    · intro ls ⟨e, derives⟩
      exact ⟨[], e, by simpa using derives_chain_of_operand derives⟩
    · intro ts' inner' eq _ ⟨f', fails⟩
      cases eq
      rw [read_operand] at fails
      exact ⟨f', fails_chain.2 (.inl fails)⟩
  | inr h =>
    obtain ⟨e, mid, read, h⟩ := h
    obtain ⟨ks, rest, located⟩ := locates_chainRest below read.lt h
    rw [← read_operand] at read
    obtain ⟨ls, passes, derives⟩ := sound callable _ ts e mid read
    refine ⟨_, rest, located.behind passes ?_ ?_⟩
    · intro ms ⟨more, levels, operands, eq⟩
      cases eq
      exact ⟨[], _, by simpa using Derives.chain derives levels operands⟩
    · intro ts' mid' passes' sameNext ⟨f', fails⟩
      obtain ⟨op, _, ⟨same, behind⟩, -⟩ := fails_chainRest.1 h
      have read' := complete derives ts' mid' passes' (by
        rw [sameNext, behind.nextKind_eq]
        exact not_goesOn_operand same)
      rw [read_operand] at read'
      exact ⟨f', fails_chain.2 (.inr ⟨e, mid', read', fails⟩)⟩

end Chains

section Conditionals

/-- A conditional fails at the earliest wrong token, if its test does. -/
lemma locates_conditional (below : LocatesBelow callable ts)
    (test : Locates callable (.chain .test) ts) : Locates callable .conditional ts := by
  intro f h
  cases fails_conditional.1 h with
  | inl h =>
    obtain ⟨ks, rest, located⟩ := test f h
    refine ⟨_, rest, located.behind .nil ?_ ?_⟩
    · rintro ls ⟨e, derives⟩
      exact ⟨[], e, by simpa using Derives.test derives⟩
    · rintro ts' inner' eq _ ⟨f', fails⟩
      cases eq
      exact ⟨f', fails_conditional.2 (.inl fails)⟩
  | inr h =>
    obtain ⟨t, mid, readT, inner, question, h⟩ := h
    have shorter : inner.length < ts.length := Nat.lt_trans question.lt readT.lt
    obtain ⟨ks, passesT, derivesT⟩ := sound callable (.chain .test) ts t mid readT
    -- the test is read again in front of any other question mark
    have again : ∀ {ts' mid' inner'}, Passes ks ts' mid' → Next .question mid' inner' →
        Reads (chain callable .test ts') t mid' := fun passes question =>
      complete derivesT _ _ passes (by simp [Rule.GoesOn, question.nextKind_eq])
    cases h with
    | inl h =>
      obtain ⟨ls, rest, located⟩ := below (.chain .test) inner shorter f h
      refine ⟨_, rest, located.behind (passesT.append (question.passes .nil)) ?_ ?_⟩
      · rintro ls ⟨a, derivesA⟩
        have derives := Derives.cond derivesT derivesA (derives_integer 0)
        exact ⟨[.colon, .integer 0], _, by simpa using derives⟩
      · rintro ts' inner' passes' _ ⟨f', fails⟩
        obtain ⟨mid', passes', _, question', eq⟩ := passes_append.1 passes'
        cases eq
        have readT' := again passes' question'
        exact ⟨f', fails_conditional.2 (.inr ⟨t, mid', readT', inner', question', .inl fails⟩)⟩
    | inr h =>
      obtain ⟨a, mid', readA, h⟩ := h
      obtain ⟨ls, passesA, derivesA⟩ := sound callable (.chain .test) inner a mid' readA
      have passes := passesT.append (question.passes passesA)
      cases h with
      | inl h =>
        obtain ⟨other, rfl⟩ := h
        refine ⟨_, mid', passes, rfl, ?_, ?_⟩
        · have derives := Derives.cond derivesT derivesA (derives_integer 0)
          exact ⟨[.colon, .integer 0], _, by simpa using derives⟩
        · intro ts' rest' passes' same
          obtain ⟨mid'', passes', inner', question', passesA'⟩ := passes_append.1 passes'
          have readT' := again passes' question'
          have readA' := complete derivesA inner' rest' passesA'
            (same ▸ stops callable (.chain .test) inner a mid' readA)
          exact ⟨_, fails_conditional.2 (.inr ⟨t, mid'', readT', inner', question',
            .inr ⟨a, rest', readA', .inl ⟨same ▸ other, rfl⟩⟩⟩)⟩
      | inr h =>
        obtain ⟨inner', colon, h⟩ := h
        have shorter' : inner'.length < ts.length :=
          Nat.lt_trans (Nat.lt_trans colon.lt readA.lt) shorter
        obtain ⟨ms, rest, located⟩ := below .conditional inner' shorter' f h
        refine ⟨_, rest, located.behind (passes.append (colon.passes .nil)) ?_ ?_⟩
        · rintro ms ⟨b, derivesB⟩
          exact ⟨[], _, by simpa using Derives.cond derivesT derivesA derivesB⟩
        · rintro ts' end' passes' _ ⟨f', fails⟩
          obtain ⟨behind, passes', _, colon', eq⟩ := passes_append.1 passes'
          cases eq
          obtain ⟨mid'', passes', start, question', passesA'⟩ := passes_append.1 passes'
          have readT' := again passes' question'
          have readA' := complete derivesA start behind passesA'
            (by simp [Rule.GoesOn, colon'.nextKind_eq])
          exact ⟨f', fails_conditional.2 (.inr ⟨t, mid'', readT', start, question',
            .inr ⟨a, behind, readA', .inr ⟨end', colon', fails⟩⟩⟩)⟩

end Conditionals

section Assignments

/-- An assignment fails at the earliest wrong token, if its target does. -/
lemma locates_assignment (below : LocatesBelow callable ts)
    (target : Locates callable .conditional ts) : Locates callable .assignment ts := by
  intro f h
  cases fails_assignment.1 h with
  | inl h =>
    obtain ⟨ks, rest, located⟩ := target f h
    refine ⟨_, rest, located.behind .nil ?_ ?_⟩
    · intro ls ⟨e, derives⟩
      exact ⟨[], e, by simpa using Derives.plain derives⟩
    · intro ts' inner' eq _ ⟨f', fails⟩
      cases eq
      exact ⟨f', fails_assignment.2 (.inl fails)⟩
  | inr h =>
    obtain ⟨t, mid, read, inner, sign, h⟩ := h
    obtain ⟨ks, passes, derives⟩ := sound callable .conditional ts t mid read
    obtain ⟨ls, rest, located⟩ := below .assignment inner (Nat.lt_trans sign.lt read.lt) f h
    refine ⟨_, rest, located.behind (passes.append (sign.passes .nil)) ?_ ?_⟩
    · intro ls ⟨value, derivesV⟩
      exact ⟨[], _, by simpa using Derives.assign derives derivesV⟩
    · intro ts' inner' passes' _ ⟨f', fails⟩
      obtain ⟨mid', passes', _, sign', eq⟩ := passes_append.1 passes'
      cases eq
      have read' := complete derives ts' mid' passes' (by simp [Rule.GoesOn, sign'.nextKind_eq])
      exact ⟨f', fails_assignment.2 (.inr ⟨t, mid', read', inner', sign', fails⟩)⟩

end Assignments

section Factors

/-- The kinds are those of one or more expressions with a comma between any two. -/
def Listed (callable : String → Bool) (ks : List Kind) : Prop :=
  ∃ parts : List Phrase, parts ≠ [] ∧ (∀ a ∈ parts, Derives callable .assignment a.kinds a.expr) ∧
    ks = listed (parts.map Phrase.kinds)

/-- The kinds are those of arguments, with the parenthesis that closes them. -/
def Closed (callable : String → Bool) (ks : List Kind) : Prop :=
  ∃ parts : List Phrase, (∀ a ∈ parts, Derives callable .assignment a.kinds a.expr) ∧
    ks = listed (parts.map Phrase.kinds) ++ [.rparen]

/-- An argument alone is a list. -/
lemma Listed.single (h : Derives callable .assignment ks e) : Listed callable ks :=
  ⟨[⟨ks, e⟩], nofun, List.forall_mem_singleton.2 h, (listed_singleton ks).symm⟩

/-- A list with one more argument in front of it. -/
lemma Listed.cons (h : Derives callable .assignment ks e) (others : Listed callable ls) :
    Listed callable (ks ++ .comma :: ls) := by
  obtain ⟨parts, filled, derive, rfl⟩ := others
  refine ⟨⟨ks, e⟩ :: parts, nofun, List.forall_mem_cons.2 ⟨h, derive⟩, ?_⟩
  obtain ⟨part, parts, rfl⟩ := List.exists_cons_of_ne_nil filled
  exact (listed_cons_cons ks part.kinds (parts.map Phrase.kinds)).symm

/-- A list of arguments fails at the earliest wrong token. -/
lemma locates_argumentList (below : LocatesBelow callable all) (lt : ts.length < all.length)
    (h : argumentList callable ts = .error f) :
    ∃ ks rest, Earliest callable (Listed callable) (fun ts => Fails (argumentList callable ts))
      ts f ks rest := by
  induction len : ts.length using Nat.strongRecOn generalizing ts with
  | ind _ ih =>
    cases fails_argumentList.1 h with
    | inl h =>
      obtain ⟨ks, rest, located⟩ := below .assignment ts lt f h
      refine ⟨_, rest, located.behind .nil ?_ ?_⟩
      · intro ls ⟨e, derives⟩
        exact ⟨[], by simpa using Listed.single derives⟩
      · intro ts' inner' eq _ ⟨f', fails⟩
        cases eq
        exact ⟨f', fails_argumentList.2 (.inl fails)⟩
    | inr h =>
      obtain ⟨arg, mid, read, inner, comma, h⟩ := h
      have shorter : inner.length < ts.length := Nat.lt_trans comma.lt read.lt
      obtain ⟨ks, rest, located⟩ := ih inner.length (len ▸ shorter) (Nat.lt_trans shorter lt) h rfl
      obtain ⟨ls, passes, derives⟩ := sound callable .assignment ts arg mid read
      refine ⟨_, rest, located.behind (passes.append (comma.passes .nil)) ?_ ?_⟩
      · intro ms others
        exact ⟨[], by simpa using Listed.cons derives others⟩
      · intro ts' inner' passes' _ ⟨f', fails⟩
        obtain ⟨mid', passes', _, comma', eq⟩ := passes_append.1 passes'
        cases eq
        have read' := complete derives ts' mid' passes' (by simp [Rule.GoesOn, comma'.nextKind_eq])
        exact ⟨f', fails_argumentList.2 (.inr ⟨arg, mid', read', inner', comma', fails⟩)⟩

/-- Arguments up to their closing parenthesis fail at the earliest wrong token. -/
lemma locates_arguments (below : LocatesBelow callable all) (lt : ts.length < all.length)
    (h : arguments callable ts = .error f) :
    ∃ ks rest, Earliest callable (Closed callable) (fun ts => Fails (arguments callable ts))
      ts f ks rest := by
  obtain ⟨opens, h⟩ := fails_arguments.1 h
  cases h with
  | inl h =>
    obtain ⟨ks, rest, located⟩ := locates_argumentList below lt h
    refine ⟨_, rest, located.behind .nil ?_ ?_⟩
    · intro ls ⟨parts, _, derive, eq⟩
      exact ⟨[.rparen], parts, derive, by rw [eq]; rfl⟩
    · intro ts' inner' eq same ⟨f', fails⟩
      cases eq
      exact ⟨f', fails_arguments.2 ⟨same ▸ opens, .inl fails⟩⟩
  | inr h =>
    obtain ⟨args, mid, read, other, rfl⟩ := h
    obtain ⟨notAssignment, notComma⟩ := stops_argumentList read
    obtain ⟨parts, filled, derive, passes, rfl⟩ :=
      sound_argumentList (fun rule ts _ => sound callable rule ts) lt read
    refine ⟨_, mid, passes, rfl, ⟨[.rparen], parts, derive, rfl⟩, ?_⟩
    intro ts' rest' passes' same
    have read' := complete_argumentList filled (fun a mem => complete (derive a mem)) passes'
      (same ▸ notAssignment) (same ▸ notComma)
    have opens' : nextKind ts' ≠ .rparen := nextKind_eq_of_passes passes passes' same ▸ opens
    exact ⟨_, fails_arguments.2 ⟨opens', .inr ⟨_, rest', read', same ▸ other, rfl⟩⟩⟩

/-- A call fails at the earliest wrong token. -/
lemma locates_call {x : String} {more : List Token} (below : LocatesBelow callable ts)
    (next : Next (.identifier x) ts more) (known : callable x = true)
    (h : Parser.factor callable ts = .error f) :
    ∃ ks rest, Earliest callable (Rule.factor.Derivable callable)
      (fun ts => Fails (Parser.factor callable ts)) ts f ks rest := by
  cases (fails_factor_call next known).1 h with
  | inl h =>
    obtain ⟨other, rfl⟩ := h
    refine ⟨_, more, next.passes .nil, ⟨known, other, [], rfl⟩, ?_, ?_⟩
    · exact ⟨[.lparen, .rparen], _, @Derives.call callable x [] known nofun⟩
    · intro ts' rest' ⟨_, next', eq⟩ same
      cases eq
      exact ⟨_, (fails_factor_call next' known).2 (.inl ⟨same ▸ other, rfl⟩)⟩
  | inr h =>
    obtain ⟨inner, paren, h⟩ := h
    obtain ⟨ks, rest, located⟩ := locates_arguments below (Nat.lt_trans paren.lt next.lt) h
    refine ⟨_, rest, located.behind (next.passes (paren.passes .nil)) ?_ ?_⟩
    · intro ls ⟨parts, derive, eq⟩
      cases eq
      exact ⟨[], _, by simpa using Derives.call known derive⟩
    · intro ts' inner' ⟨_, next', _, paren', eq⟩ _ ⟨f', fails⟩
      cases eq
      exact ⟨f', (fails_factor_call next' known).2 (.inr ⟨inner', paren', fails⟩)⟩

/-- An expression in parentheses fails at the earliest wrong token. -/
lemma locates_parens {more : List Token} (below : LocatesBelow callable ts)
    (next : Next .lparen ts more) (h : Parser.factor callable ts = .error f) :
    ∃ ks rest, Earliest callable (Rule.factor.Derivable callable)
      (fun ts => Fails (Parser.factor callable ts)) ts f ks rest := by
  cases (fails_factor_parens next).1 h with
  | inl h =>
    obtain ⟨ks, rest, located⟩ := below .assignment more next.lt f h
    refine ⟨_, rest, located.behind (next.passes .nil) ?_ ?_⟩
    · intro ls ⟨e, derives⟩
      exact ⟨[.rparen], e, .parens derives⟩
    · intro ts' inner' ⟨_, next', eq⟩ _ ⟨f', fails⟩
      cases eq
      exact ⟨f', (fails_factor_parens next').2 (.inl fails)⟩
  | inr h =>
    obtain ⟨e, mid, read, other, rfl⟩ := h
    obtain ⟨ks, passes, derives⟩ := sound callable .assignment more e mid read
    refine ⟨_, mid, next.passes passes, rfl, ⟨[.rparen], e, .parens derives⟩, ?_⟩
    intro ts' rest' ⟨inner', next', passes'⟩ same
    have read' := complete derives inner' rest' passes'
      (same ▸ stops callable .assignment more e mid read)
    exact ⟨_, (fails_factor_parens next').2 (.inr ⟨e, rest', read', same ▸ other, rfl⟩)⟩

/-- A factor fails at the earliest wrong token. -/
lemma locates_factor (below : LocatesBelow callable ts) : Locates callable .factor ts := by
  intro f h
  have h : Parser.factor callable ts = .error f := h
  by_cases starts : StartsFactor (nextKind ts)
  · obtain ⟨more, next⟩ := starts.next
    rcases starts with sign | single | ⟨x, isName⟩ | paren
    · obtain ⟨ks, rest, located⟩ := below .factor more next.lt f ((fails_factor_minus next sign).1 h)
      refine ⟨_, rest, located.behind (next.passes .nil) ?_ ?_⟩
      · intro ls ⟨e, derives⟩
        exact ⟨[], _, by simpa using Derives.minus sign derives⟩
      · intro ts' inner' ⟨_, next', eq⟩ _ ⟨f', fails⟩
        cases eq
        exact ⟨f', (fails_factor_minus next' sign).2 fails⟩
    · exact absurd h (factor_ne_error next (.inl single))
    · cases known : callable x with
      | false => exact absurd h (factor_ne_error next (.inr ⟨x, isName, known⟩))
      | true => exact locates_call below (isName ▸ next) known h
    · exact locates_parens below (paren ▸ next) h
  · rw [factor_of_not_starts starts] at h
    cases h
    refine ⟨[], ts, .nil, rfl, ⟨[.integer 0], _, derives_integer 0⟩, ?_⟩
    intro ts' rest' eq same
    cases eq
    exact ⟨_, factor_of_not_starts (same ▸ starts)⟩

end Factors

/-- By every rule, the parser fails at the earliest wrong token. -/
lemma locates (callable : String → Bool) (rule : Rule) (ts : List Token) :
    Locates callable rule ts := by
  induction len : ts.length using Nat.strongRecOn generalizing rule ts with
  | ind _ ih =>
    have below : LocatesBelow callable ts :=
      fun rule ts' lt => ih ts'.length (len ▸ lt) rule ts' rfl
    -- on the same tokens, each rule rests on the next tighter one
    clear ih
    induction rule using Rule.ascend with
    | factor => exact locates_factor below
    | chain level operand => exact locates_chain below operand
    | conditional test => exact locates_conditional below test
    | assignment target => exact locates_assignment below target

end Grammar

end Reckon
