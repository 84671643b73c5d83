import Reckon.Proofs.Lexing
import Reckon.Proofs.Parsing
import Reckon.Proofs.Parsing.Earliest

/-!
# The place of a syntax error

A line that is not a statement is rejected at the earliest wrong token. The main statement is
`Statement.parse_error_earliest`: the tokens before the reported one start a line that is a statement
(`Statement.Viable`), and with the reported one they do not.

What the parser does on expressions is in `Grammar.locates`. Here the rules for lines are added
(`Grammar.locates_statement`), and the places that the lexer gives to tokens, of which no two are the
same (`starts_increasing`).
-/

namespace Reckon

open Token (Kind)
open Reckon.Parser

namespace Grammar

variable {callable : String → Bool} {ts : List Token} {f : Failure}

/-- The name is that of a function behind these kinds of a line: it is one of the callable ones, or the
kinds lead into the body of its definition. -/
def CallableBehind (callable : String → Bool) (front : List Kind) (name : String) : Prop :=
  callable name = true ∨ ∃ (params : List String) (body : List Kind),
    front = .deffn :: .identifier name :: .lparen :: listed (params.map fun x => [.identifier x]) ++
      .rparen :: .symbol .assign :: body

section Parameters

/-- The kinds are those of one or more names with a comma between any two. -/
def Named (ks : List Kind) : Prop :=
  ∃ names : List String, names ≠ [] ∧ ks = listed (names.map fun x => [.identifier x])

/-- A name alone is a list. -/
lemma Named.single (x : String) : Named [.identifier x] :=
  ⟨[x], nofun, (listed_singleton _).symm⟩

/-- A list with one more name in front of it. -/
lemma Named.cons {ks : List Kind} (x : String) (others : Named ks) :
    Named (.identifier x :: .comma :: ks) := by
  obtain ⟨names, filled, rfl⟩ := others
  obtain ⟨y, names, rfl⟩ := List.exists_cons_of_ne_nil filled
  exact ⟨x :: y :: names, nofun, (listed_cons_cons [.identifier x] [.identifier y] _).symm⟩

/-- Behind a list of names there is no comma. -/
lemma stops_nameList {names : List String} {rest : List Token}
    (h : Reads (nameList ts) names rest) : nextKind rest ≠ .comma := by
  induction len : ts.length using Nat.strongRecOn generalizing ts names with
  | ind _ ih =>
    obtain ⟨x, mid, next, h⟩ := reads_nameList.1 h
    cases h with
    | inl h =>
      obtain ⟨other, -, rfl⟩ := h
      exact other
    | inr h =>
      obtain ⟨inner, comma, others, read, -⟩ := h
      have shorter : inner.length < ts.length := Nat.lt_trans comma.lt next.lt
      exact ih inner.length (len ▸ shorter) read rfl

/-- A list of names fails at the earliest wrong token. -/
lemma locates_nameList (h : nameList ts = .error f) :
    ∃ ks rest, Earliest callable Named (fun ts => Fails (nameList ts)) ts f ks rest := by
  induction len : ts.length using Nat.strongRecOn generalizing ts with
  | ind _ ih =>
    cases fails_nameList.1 h with
    | inl h =>
      obtain ⟨other, rfl⟩ := h
      refine ⟨[], ts, .nil, rfl, ⟨_, Named.single "x"⟩, ?_⟩
      intro ts' rest' eq same
      cases eq
      exact ⟨_, fails_nameList.2 (.inl ⟨same ▸ other, rfl⟩)⟩
    | inr h =>
      obtain ⟨x, mid, next, inner, comma, h⟩ := h
      have shorter : inner.length < ts.length := Nat.lt_trans comma.lt next.lt
      obtain ⟨ks, rest, located⟩ := ih inner.length (len ▸ shorter) h rfl
      refine ⟨_, rest, located.behind (next.passes (comma.passes .nil)) ?_ ?_⟩
      · intro ls others
        exact ⟨[], by simpa using Named.cons x others⟩
      · intro ts' inner' ⟨mid', next', _, comma', eq⟩ _ ⟨f', fails⟩
        cases eq
        exact ⟨f', fails_nameList.2 (.inr ⟨x, mid', next', inner', comma', fails⟩)⟩

/-- The kinds are those of parameters, with the parenthesis that closes them. -/
def Declared (ks : List Kind) : Prop :=
  ∃ params : List String, ks = listed (params.map fun x => [.identifier x]) ++ [.rparen]

/-- Parameters up to their closing parenthesis fail at the earliest wrong token. -/
lemma locates_parameters (h : parameters ts = .error f) :
    ∃ ks rest, Earliest callable Declared (fun ts => Fails (parameters ts)) ts f ks rest := by
  obtain ⟨opens, h⟩ := fails_parameters.1 h
  cases h with
  | inl h =>
    obtain ⟨ks, rest, located⟩ := locates_nameList h
    refine ⟨_, rest, located.behind .nil ?_ ?_⟩
    · intro ls ⟨params, _, eq⟩
      exact ⟨[.rparen], params, by rw [eq]; rfl⟩
    · intro ts' inner' eq same ⟨f', fails⟩
      cases eq
      exact ⟨f', fails_parameters.2 ⟨same ▸ opens, .inl fails⟩⟩
  | inr h =>
    obtain ⟨names, mid, read, other, rfl⟩ := h
    obtain ⟨filled, passes⟩ := passes_of_nameList read
    refine ⟨_, mid, passes, rfl, ⟨[.rparen], names, rfl⟩, ?_⟩
    intro ts' rest' passes' same
    have read' := reads_nameList_of_passes filled passes' (same ▸ stops_nameList read)
    have opens' : nextKind ts' ≠ .rparen := nextKind_eq_of_passes passes passes' same ▸ opens
    exact ⟨_, fails_parameters.2 ⟨opens', .inr ⟨names, rest', read', same ▸ other, rfl⟩⟩⟩

end Parameters

section Definitions

/-- The kinds are those of a definition, without its keyword. -/
def Defines (callable : String → Bool) (ks : List Kind) : Prop :=
  ∃ name params body, Forms callable (.deffn :: ks) (.define ⟨name, params, body⟩)

/-- Any head is that of a definition. -/
lemma defines_zero (name : String) (params : List String) :
    Defines callable (.identifier name :: .lparen :: listed (params.map fun x => [.identifier x]) ++
      [.rparen, .symbol .assign, .integer 0]) :=
  ⟨name, params, _, .define (derives_integer 0)⟩

/-- What stands before the last kind goes past another one in front of it. -/
lemma exists_of_append_eq {before ks front : List Kind} {sign k : Kind} (differ : sign ≠ k)
    (eq : before ++ [sign] ++ ks = front ++ [k]) : ∃ body, front = before ++ [sign] ++ body := by
  cases List.eq_nil_or_concat ks with
  | inl none =>
    subst none
    rw [List.append_nil] at eq
    exact absurd (List.singleton_inj.1 (List.append_inj' eq rfl).2) differ
  | inr some =>
    obtain ⟨body, last, rfl⟩ := some
    rw [List.concat_eq_append, ← List.append_assoc] at eq
    exact ⟨body, (List.append_inj' eq rfl).1.symm⟩

/-- A definition fails at the earliest wrong token. Its own name is callable in its body only. -/
lemma locates_definition (h : definition callable ts = .error f) :
    ∃ known ks rest, Earliest known (Defines callable) (fun ts => Fails (definition callable ts))
        ts f ks rest ∧
      ∀ front name, known name = true → ks = front ++ [.identifier name] →
        CallableBehind callable (.deffn :: front) name := by
  have outside : ∀ (ks : List Kind) (front : List Kind) name, callable name = true →
      ks = front ++ [.identifier name] → CallableBehind callable (.deffn :: front) name :=
    fun _ _ _ known _ => .inl known
  rcases fails_definition.1 h with ⟨other, rfl⟩ | ⟨name, mid, named, h⟩
  · refine ⟨callable, [], ts, ⟨.nil, rfl, ⟨_, defines_zero "f" []⟩, ?_⟩, outside _⟩
    intro ts' rest' eq same
    cases eq
    exact ⟨_, fails_definition.2 (.inl ⟨same ▸ other, rfl⟩)⟩
  rcases h with ⟨other, rfl⟩ | ⟨inner, paren, h⟩
  · refine ⟨callable, _, mid, ⟨named.passes .nil, rfl, ⟨_, defines_zero name []⟩, ?_⟩, outside _⟩
    intro ts' rest' ⟨_, named', eq⟩ same
    cases eq
    exact ⟨_, fails_definition.2 (.inr ⟨name, rest', named', .inl ⟨same ▸ other, rfl⟩⟩)⟩
  rcases h with h | ⟨params, behind, read, h⟩
  · obtain ⟨ks, rest, located⟩ := locates_parameters h
    refine ⟨callable, _, rest, located.behind (named.passes (paren.passes .nil)) ?_ ?_, outside _⟩
    · intro ls ⟨params, eq⟩
      exact ⟨[.symbol .assign, .integer 0], by simpa [eq] using defines_zero name params⟩
    · intro ts' inner' ⟨mid', named', _, paren', eq⟩ _ ⟨f', fails⟩
      cases eq
      exact ⟨f', fails_definition.2 (.inr ⟨name, mid', named', .inr ⟨inner', paren', .inl fails⟩⟩)⟩
  have passes := named.passes (paren.passes (reads_parameters_iff.1 read))
  rcases h with ⟨other, rfl⟩ | ⟨start, sign, h⟩
  · refine ⟨callable, _, behind, ⟨passes, rfl, ⟨[.symbol .assign, .integer 0], ?_⟩, ?_⟩, outside _⟩
    · simpa using defines_zero name params
    · intro ts' rest' ⟨mid', named', inner', paren', passes'⟩ same
      have read' := reads_parameters_iff.2 passes'
      exact ⟨_, fails_definition.2 (.inr ⟨name, mid', named', .inr ⟨inner', paren',
        .inr ⟨params, rest', read', .inl ⟨same ▸ other, rfl⟩⟩⟩⟩)⟩
  · obtain ⟨ks, rest, located⟩ := locates _ .assignment start f h
    refine ⟨_, _, rest, located.behind (passes.append (sign.passes .nil)) ?_ ?_, ?_⟩
    · intro ls ⟨body, derives⟩
      exact ⟨[], name, params, body, by simpa using Forms.define derives⟩
    · intro ts' start' passes' _ ⟨f', fails⟩
      obtain ⟨behind', ⟨mid', named', inner', paren', passes'⟩, _, sign', eq⟩ :=
        passes_append.1 passes'
      cases eq
      have read' := reads_parameters_iff.2 passes'
      exact ⟨f', fails_definition.2 (.inr ⟨name, mid', named', .inr ⟨inner', paren',
        .inr ⟨params, behind', read', .inr ⟨start', sign', fails⟩⟩⟩⟩)⟩
    · intro front x known eq
      have differ : Kind.symbol .assign ≠ .identifier x := nofun
      obtain ⟨body, rfl⟩ := exists_of_append_eq differ eq
      cases Bool.or_eq_true_iff.1 known with
      | inl same =>
        cases eq_of_beq same
        exact .inr ⟨params, body, by simp⟩
      | inr known => exact .inl known

/-- Behind a definition there is nothing with which its body would have gone on. -/
lemma stops_definition {d : Definition} {rest : List Token}
    (h : Reads (definition callable ts) d rest) : ¬Rule.assignment.GoesOn (nextKind rest) := by
  obtain ⟨name, _, -, _, -, _, _, -, start, -, body, read, -⟩ := reads_definition.1 h
  exact stops _ .assignment start body rest read

end Definitions

/-- A line fails at the earliest wrong token. -/
lemma locates_statement (h : Parser.statement callable ts = .error f) :
    ∃ known ks rest, Earliest known (fun ks => ∃ statement, Forms callable ks statement)
        (fun ts => Fails (Parser.statement callable ts)) ts f ks rest ∧
      ∀ front name, known name = true → ks = front ++ [.identifier name] →
        CallableBehind callable front name := by
  have outside : ∀ (ks front : List Kind) name, callable name = true →
      ks = front ++ [.identifier name] → CallableBehind callable front name :=
    fun _ _ _ known _ => .inl known
  rcases fails_statement.1 h with ⟨start, h⟩ | ⟨more, deffn, h⟩
  · rcases h with h | ⟨e, rest, read, other, rfl⟩
    · obtain ⟨ks, rest, located⟩ := locates callable .assignment ts f h
      refine ⟨callable, _, rest, located.behind .nil ?_ ?_, outside _⟩
      · intro ls ⟨e, derives⟩
        exact ⟨[], _, by simpa using Forms.evaluate derives⟩
      · intro ts' inner' eq same ⟨f', fails⟩
        cases eq
        exact ⟨f', fails_statement.2 (.inl ⟨same ▸ start, .inl fails⟩)⟩
    · obtain ⟨ks, passes, derives⟩ := sound callable .assignment ts e rest read
      have forms : Forms callable (ks ++ []) (.evaluate e) := by simpa using Forms.evaluate derives
      refine ⟨callable, ks, rest, ⟨passes, rfl, ⟨[], _, forms⟩, ?_⟩, outside _⟩
      intro ts' rest' passes' same
      have read' := complete derives ts' rest' passes'
        (same ▸ stops callable .assignment ts e rest read)
      have start' : nextKind ts' ≠ .deffn := nextKind_eq_of_passes passes passes' same ▸ start
      exact ⟨_, fails_statement.2 (.inl ⟨start', .inr ⟨e, rest', read', same ▸ other, rfl⟩⟩)⟩
  · rcases h with h | ⟨⟨name, params, body⟩, rest, read, other, rfl⟩
    · obtain ⟨known, ks, rest, located, callables⟩ := locates_definition h
      refine ⟨known, _, rest, located.behind (deffn.passes .nil) ?_ ?_, ?_⟩
      · intro ls ⟨name, params, body, forms⟩
        exact ⟨[], _, by simpa using forms⟩
      · intro ts' inner' ⟨_, deffn', eq⟩ _ ⟨f', fails⟩
        cases eq
        exact ⟨f', fails_statement.2 (.inr ⟨inner', deffn', .inl fails⟩)⟩
      · intro front name isKnown eq
        cases front with
        | nil => cases eq
        | cons k front =>
          obtain ⟨rfl, eq'⟩ := List.cons.inj eq
          exact callables front name isKnown eq'
    · obtain ⟨ks, derives, passes⟩ := passes_of_definition read
      have forms : Forms callable _ (.define ⟨name, params, body⟩) := .define derives
      refine ⟨callable, _, rest, ⟨deffn.passes passes, rfl, ⟨[], _, by simpa using forms⟩, ?_⟩,
        outside _⟩
      intro ts' rest' ⟨more', deffn', passes'⟩ same
      have read' := reads_definition_of_passes derives passes' (same ▸ stops_definition read)
      exact ⟨_, fails_statement.2 (.inr ⟨more', deffn', .inr ⟨_, rest', read', same ▸ other, rfl⟩⟩)⟩

end Grammar

/-- No two words of a text start at the same place. -/
lemma Segmented.starts_increasing {offset : Nat} {text rest : List Char} {words : List Token}
    (h : Segmented offset text rest words) :
    words.Pairwise fun t u => t.span.start < u.span.start := by
  refine h.ordered.imp_of_mem fun {t u} mem _ le => ?_
  exact Nat.lt_of_lt_of_le (h.stand t mem).start_lt.2 le

/-- The tokens of a line start one behind the other, and the last one is the end of the line. -/
lemma starts_increasing {source : String} {line : List Token} (h : tokenize source = .ok line) :
    (line.Pairwise fun t u => t.span.start < u.span.start) ∧ Kind.eof ∈ line.map Token.kind := by
  obtain ⟨words, segmented, rfl⟩ := exists_segmented_of_tokenize h
  constructor
  · refine List.pairwise_append.2 ⟨segmented.starts_increasing, List.pairwise_singleton _ _, ?_⟩
    intro t mem u mem'
    rw [List.mem_singleton.1 mem', ← Token.byteSize_toList]
    have stop := (segmented.stand t mem).stop_le
    have start := (segmented.stand t mem).start_lt.2
    simp only
    omega
  · simp

namespace Statement

open Grammar

variable {fns : FunctionTable} {line : List Token} {f : Failure}

/-- The tokens start a line that is a statement. -/
def Viable (fns : FunctionTable) (front : List Token) : Prop :=
  ∃ more statement, ofTokens fns (front ++ more) = .ok statement

/-- Where a failure lies in a line that has an end, a token is that can not be there. -/
lemma exists_place (h : Parser.statement fns.contains line = .error f)
    (ends : Kind.eof ∈ line.map Token.kind) :
    ∃ known before t after, line = before ++ t :: after ∧
      f.LiesAt known (before.map Token.kind) (t :: after) ∧ Viable fns before ∧
      ¬Viable fns (before ++ [t]) ∧
      ∀ front name, known name = true → before.map Token.kind = front ++ [.identifier name] →
        CallableBehind fns.contains front name := by
  obtain ⟨known, ks, rest, located, callables⟩ := locates_statement h
  obtain ⟨before, rfl, rfl⟩ := passes_iff.1 located.passes
  obtain ⟨more, statement, forms⟩ := located.viable
  cases rest with
  | nil =>
    have inside : Kind.eof ∈ before.map Token.kind ++ more := by
      rw [List.append_nil] at ends
      exact List.mem_append_left more ends
    exact absurd inside forms.eof_not_mem
  | cons t after =>
    refine ⟨known, before, t, after, rfl, located.lies, ?_, ?_, callables⟩
    · have passes : Passes (before.map Token.kind ++ more) (before ++ more.map (⟨·, ⟨0, 0⟩⟩)) [] :=
        passes_iff.2 ⟨_, (List.append_nil _).symm, by simp [Function.comp_def]⟩
      rw [← beforeEnd_of_passes passes forms.eof_not_mem rfl] at forms
      exact ⟨_, statement, ofTokens_eq_ok_iff.2 (statement_of_forms forms)⟩
    · intro ⟨more, statement, accepted⟩
      rw [List.append_assoc, List.singleton_append] at accepted
      obtain ⟨f', fails⟩ := located.stuck _ (t :: more) (passes_iff.2 ⟨before, rfl, rfl⟩) rfl
      cases (ofTokens_eq_ok_iff.1 accepted).symm.trans fails

/-- A syntax error is reported at the earliest wrong token of the line. If a token is unexpected, it is
the only one that starts at the reported place; the tokens before it start a line that is a statement,
and with it they do not. If a function is named without arguments, its name is callable there and the
token behind it is no parenthesis; the tokens up to the name start a line that is a statement, and with
the token behind it they do not. -/
theorem parse_error_earliest (fns : FunctionTable) (source : String) (line : List Token)
    (tokenized : tokenize source = .ok line) :
    (∀ expected found position,
      parse fns source = .error (.grammatical (.unexpectedToken expected found position)) →
      ∃ before t after, line = before ++ t :: after ∧ t.kind = found ∧ t.span.start = position ∧
        (∀ u ∈ before ++ after, u.span.start ≠ position) ∧
        Viable fns before ∧ ¬Viable fns (before ++ [t])) ∧
    ∀ name, parse fns source = .error (.grammatical (.missingArguments name)) →
      ∃ before t u after, line = before ++ t :: u :: after ∧ t.kind = .identifier name ∧
        CallableBehind fns.contains (before.map Token.kind) name ∧ u.kind ≠ .lparen ∧
        Viable fns (before ++ [t]) ∧ ¬Viable fns (before ++ [t, u]) := by
  obtain ⟨increasing, ends⟩ := starts_increasing tokenized
  have failure : ∀ e, parse fns source = .error (.grammatical e) →
      ∃ f, Parser.statement fns.contains line = .error f ∧ f.report line = e := by
    intro e h
    rw [parse, tokenized] at h
    simp only [ofTokens] at h
    cases result : Parser.statement fns.contains line with
    | ok statement => simp [result] at h
    | error f => exact ⟨f, rfl, by simpa [result] using h⟩
  constructor
  · intro expected found position h
    obtain ⟨f, failed, report⟩ := failure _ h
    obtain ⟨known, before, t, after, rfl, lies, viable, wrong, -⟩ := exists_place failed ends
    cases f with
    | missingArguments => cases report
    | unexpected expected' rest =>
      cases lies
      cases report
      refine ⟨before, t, after, rfl, rfl, rfl, ?_, viable, wrong⟩
      obtain ⟨-, behind, across⟩ := List.pairwise_append.1 increasing
      intro u mem
      cases List.mem_append.1 mem with
      | inl mem => exact Nat.ne_of_lt (across u mem t (by simp))
      | inr mem => exact Nat.ne_of_gt ((List.pairwise_cons.1 behind).1 u mem)
  · intro name h
    obtain ⟨f, failed, report⟩ := failure _ h
    obtain ⟨known, before, u, after, rfl, lies, viable, wrong, callables⟩ := exists_place failed ends
    cases f with
    | unexpected => cases report
    | missingArguments =>
      cases report
      obtain ⟨isKnown, other, front, kinds⟩ := lies
      obtain ⟨first, last, rfl, rfl, lastKind⟩ := List.map_eq_append_iff.1 kinds
      obtain ⟨t, rfl, kind⟩ := List.map_eq_singleton_iff.1 lastKind
      refine ⟨first, t, u, after, by simp, kind, callables _ name isKnown kinds, other, viable, ?_⟩
      rwa [List.append_assoc] at wrong

/-- A parenthesis where an operand has to be, and a definition whose body names it without arguments. -/
theorem parse_error_earliest_recursion :
    let line : List Token := [⟨.integer 1, ⟨0, 1⟩⟩, ⟨.symbol (.value .add), ⟨2, 3⟩⟩, ⟨.rparen, ⟨4, 5⟩⟩,
      ⟨.eof, ⟨5, 5⟩⟩]
    let line' : List Token := [⟨.deffn, ⟨0, 5⟩⟩, ⟨.identifier "f", ⟨6, 7⟩⟩, ⟨.lparen, ⟨7, 8⟩⟩,
      ⟨.rparen, ⟨8, 9⟩⟩, ⟨.symbol .assign, ⟨9, 10⟩⟩, ⟨.identifier "f", ⟨10, 11⟩⟩,
      ⟨.symbol (.value .mul), ⟨11, 12⟩⟩, ⟨.integer 2, ⟨12, 13⟩⟩, ⟨.eof, ⟨13, 13⟩⟩]
    let fns : FunctionTable := .empty
    tokenize "1 + )" = .ok line ∧
      parse fns "1 + )" = .error (.grammatical (.unexpectedToken .expression .rparen 4)) ∧
      (∃ before t after, line = before ++ t :: after ∧ t.span.start = 4 ∧
        Viable fns before ∧ ¬Viable fns (before ++ [t])) ∧
      tokenize "deffn f()=f*2" = .ok line' ∧
      parse fns "deffn f()=f*2" = .error (.grammatical (.missingArguments "f")) ∧
      ∃ before t u after, line' = before ++ t :: u :: after ∧ t.kind = .identifier "f" ∧
        u.kind ≠ .lparen ∧ Viable fns (before ++ [t]) ∧ ¬Viable fns (before ++ [t, u]) := by
  intro line line' fns
  have tokenized : tokenize "1 + )" = .ok line := by decide +kernel
  have tokenized' : tokenize "deffn f()=f*2" = .ok line' := by decide +kernel
  have failed : parse fns "1 + )" =
      .error (.grammatical (.unexpectedToken .expression .rparen 4)) := by
    rw [parse, tokenized]
    cbv
  have failed' : parse fns "deffn f()=f*2" = .error (.grammatical (.missingArguments "f")) := by
    rw [parse, tokenized']
    cbv
  obtain ⟨before, t, after, eq, -, start, -, found⟩ :=
    (parse_error_earliest fns _ line tokenized).1 _ _ _ failed
  obtain ⟨before', t', u, after', eq', kind, -, found'⟩ :=
    (parse_error_earliest fns _ line' tokenized').2 _ failed'
  exact ⟨tokenized, failed, ⟨before, t, after, eq, start, found⟩, tokenized', failed',
    before', t', u, after', eq', kind, found'⟩

end Statement

end Reckon
