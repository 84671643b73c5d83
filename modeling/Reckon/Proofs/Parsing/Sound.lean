import Reckon.Proofs.Grammar
import Reckon.Proofs.Reading

/-!
# What the parser reads is derived

What the parser reads by a rule, the rule derives from the kinds of the tokens that were read (`sound`).
The proof is by induction on the number of tokens; on the same tokens each rule rests on the next tighter
one, as the parser descends.
-/

namespace Reckon

open Token (Kind)

namespace Parser

/-- The tokens of `ts` in front of `rest` are of these kinds. -/
def Passes : List Kind → List Token → List Token → Prop
  | [], ts, rest => ts = rest
  | k :: ks, ts, rest => ∃ mid, Next k ts mid ∧ Passes ks mid rest

/-- Without kinds no token is passed. -/
lemma Passes.nil {ts : List Token} : Passes [] ts ts := rfl

/-- A token and the kinds behind it pass together. -/
lemma Next.passes {k : Kind} {ks : List Kind} {ts mid rest : List Token} (next : Next k ts mid)
    (tail : Passes ks mid rest) : Passes (k :: ks) ts rest :=
  ⟨mid, next, tail⟩

/-- Kinds pass if their first part does and then their second. -/
lemma passes_append {ks ls : List Kind} {ts rest : List Token} :
    Passes (ks ++ ls) ts rest ↔ ∃ mid, Passes ks ts mid ∧ Passes ls mid rest := by
  induction ks generalizing ts with
  | nil =>
    refine ⟨fun h => ⟨ts, rfl, h⟩, fun ⟨mid, e, h⟩ => ?_⟩
    cases e
    exact h
  | cons k ks ih =>
    refine ⟨fun ⟨mid, next, h⟩ => ?_, fun ⟨mid', ⟨mid, next, first⟩, second⟩ => ?_⟩
    · obtain ⟨mid', first, second⟩ := ih.1 h
      exact ⟨mid', ⟨mid, next, first⟩, second⟩
    · exact ⟨mid, next, ih.2 ⟨mid', first, second⟩⟩

/-- Kinds that pass one after the other pass together. -/
lemma Passes.append {ks ls : List Kind} {ts mid rest : List Token} (first : Passes ks ts mid)
    (second : Passes ls mid rest) : Passes (ks ++ ls) ts rest :=
  passes_append.2 ⟨mid, first, second⟩

/-- Tokens are passed that stand in front and have the kinds. -/
lemma passes_iff {ks : List Kind} {ts rest : List Token} :
    Passes ks ts rest ↔ ∃ front, ts = front ++ rest ∧ front.map Token.kind = ks := by
  induction ks generalizing ts with
  | nil =>
    constructor
    · intro eq
      exact ⟨[], eq, rfl⟩
    · intro ⟨front, eq, kinds⟩
      rw [List.map_eq_nil_iff.1 kinds] at eq
      exact eq
  | cons k ks ih =>
    constructor
    · intro ⟨_, ⟨t, kind, eq⟩, passes⟩
      obtain ⟨front, rfl, rfl⟩ := ih.1 passes
      exact ⟨t :: front, eq, by rw [List.map_cons, kind]⟩
    · intro ⟨front, eq, kinds⟩
      obtain ⟨t, front, rfl, kind, kinds⟩ := List.map_eq_cons_iff.1 kinds
      exact ⟨front ++ rest, ⟨t, kind, eq⟩, ih.2 ⟨front, rfl, kinds⟩⟩

end Parser

open Reckon.Parser

namespace Grammar

variable {callable : String → Bool} {level : Level} {ts all rest : List Token} {e left : Expr}
  {args : List Expr}

/-- The function of the parser for a rule. -/
def Rule.read (callable : String → Bool) : Rule → (ts : List Token) → Parser.Result Expr ts
  | .assignment, ts => Parser.assignment callable ts
  | .conditional, ts => Parser.conditional callable ts
  | .chain level, ts => Parser.chain callable level ts
  | .factor, ts => Parser.factor callable ts

/-- An operand is read by its own rule. -/
lemma read_operand : (operand level).read callable ts = Parser.operand callable level ts := by
  cases level <;> rw [Parser.operand] <;> rfl

/-- What is read from these tokens by the rule, the rule derives. -/
def Sound (callable : String → Bool) (rule : Rule) (ts : List Token) : Prop :=
  ∀ e rest, Reads (rule.read callable ts) e rest →
    ∃ ks, Passes ks ts rest ∧ Derives callable rule ks e

/-- What is read from fewer tokens than these is derived, by any rule. -/
def SoundBelow (callable : String → Bool) (all : List Token) : Prop :=
  ∀ rule (ts : List Token), ts.length < all.length → Sound callable rule ts

/-- The operators read behind an operand are those of a chain, each with an operand behind it. -/
lemma sound_chainRest (below : SoundBelow callable all) (lt : ts.length < all.length)
    (h : Reads (chainRest callable level left ts) e rest) :
    ∃ more : List (Operator × Phrase), (∀ x ∈ more, x.1.level = level) ∧
      (∀ x ∈ more, Derives callable (operand level) x.2.kinds x.2.expr) ∧
      Passes (more.flatMap link) ts rest ∧
      e = more.foldl (fun left x => .binary x.1 left x.2.expr) left := by
  induction len : ts.length using Nat.strongRecOn generalizing ts left with
  | ind _ ih =>
    cases reads_chainRest.1 h with
    | inl h =>
      obtain ⟨-, rfl, rfl⟩ := h
      exact ⟨[], nofun, nofun, rfl, rfl⟩
    | inr h =>
      obtain ⟨op, inner, ⟨same, next⟩, right, mid, read, others⟩ := h
      rw [← read_operand] at read
      obtain ⟨ks, passes, derives⟩ := below _ inner (Nat.lt_trans next.lt lt) right mid read
      have shorter : mid.length < ts.length := Nat.lt_trans read.lt next.lt
      obtain ⟨more, levels, operands, tail, rfl⟩ :=
        ih mid.length (len ▸ shorter) (Nat.lt_trans shorter lt) others rfl
      refine ⟨(op, ⟨ks, right⟩) :: more, ?_, ?_, ?_, rfl⟩
      · exact List.forall_mem_cons.2 ⟨same, levels⟩
      · exact List.forall_mem_cons.2 ⟨derives, operands⟩
      · exact (next.passes passes).append tail

/-- The arguments read are assignments with commas between them. -/
lemma sound_argumentList (below : SoundBelow callable all) (lt : ts.length < all.length)
    (h : Reads (argumentList callable ts) args rest) :
    ∃ parts : List Phrase, parts ≠ [] ∧ (∀ a ∈ parts, Derives callable .assignment a.kinds a.expr) ∧
      Passes (listed (parts.map Phrase.kinds)) ts rest ∧ args = parts.map Phrase.expr := by
  induction len : ts.length using Nat.strongRecOn generalizing ts args with
  | ind _ ih =>
    obtain ⟨arg, mid, read, h⟩ := reads_argumentList.1 h
    obtain ⟨ks, passes, derives⟩ := below .assignment ts lt arg mid read
    cases h with
    | inl h =>
      obtain ⟨-, rfl, rfl⟩ := h
      refine ⟨[⟨ks, arg⟩], nofun, ?_, ?_, rfl⟩
      · exact List.forall_mem_singleton.2 derives
      · rw [List.map_singleton, listed_singleton]
        exact passes
    | inr h =>
      obtain ⟨inner, next, others, readOthers, rfl⟩ := h
      have shorter : inner.length < ts.length := Nat.lt_trans next.lt read.lt
      obtain ⟨parts, filled, allDerive, tail, rfl⟩ :=
        ih inner.length (len ▸ shorter) (Nat.lt_trans shorter lt) readOthers rfl
      refine ⟨⟨ks, arg⟩ :: parts, nofun, List.forall_mem_cons.2 ⟨derives, allDerive⟩, ?_, rfl⟩
      obtain ⟨part, parts, rfl⟩ := List.exists_cons_of_ne_nil filled
      rw [List.map_cons, List.map_cons, listed_cons_cons]
      exact passes.append (next.passes tail)

/-- The arguments read between parentheses are none or a list. -/
lemma sound_arguments (below : SoundBelow callable all) (lt : ts.length < all.length)
    (h : Reads (arguments callable ts) args rest) :
    ∃ parts : List Phrase, (∀ a ∈ parts, Derives callable .assignment a.kinds a.expr) ∧
      Passes (listed (parts.map Phrase.kinds) ++ [.rparen]) ts rest ∧
      args = parts.map Phrase.expr := by
  cases reads_arguments.1 h with
  | inl h =>
    obtain ⟨-, mid, read, close⟩ := h
    obtain ⟨parts, -, allDerive, passes, rfl⟩ := sound_argumentList below lt read
    exact ⟨parts, allDerive, passes.append (close.passes .nil), rfl⟩
  | inr h =>
    obtain ⟨_, close, rfl, rfl⟩ := h
    exact ⟨[], nofun, close.passes .nil, rfl⟩

/-- A factor is read as one, if everything shorter is read by its rule. -/
lemma sound_factor (below : SoundBelow callable ts) : Sound callable .factor ts := by
  intro e rest h
  have h : Reads (Parser.factor callable ts) e rest := h
  obtain ⟨k, more, next, kind⟩ := starts_of_reads_factor h
  rcases kind with sign | ⟨v, rfl⟩ | ⟨x, rfl⟩ | rfl
  · obtain ⟨operand, read, rfl⟩ := (reads_factor_minus next sign).1 h
    obtain ⟨ks, passes, derives⟩ := below .factor more next.lt operand rest read
    exact ⟨k :: ks, next.passes passes, .minus sign derives⟩
  · obtain ⟨rfl, rfl⟩ := (reads_factor_integer next).1 h
    exact ⟨[.integer v], next.passes .nil, .integer⟩
  · cases known : callable x with
    | false =>
      obtain ⟨rfl, rfl⟩ := (reads_factor_name next known).1 h
      exact ⟨[.identifier x], next.passes .nil, .name known⟩
    | true =>
      obtain ⟨inner, paren, args, read, rfl⟩ := (reads_factor_call next known).1 h
      obtain ⟨parts, allDerive, passes, rfl⟩ :=
        sound_arguments below (Nat.lt_trans paren.lt next.lt) read
      exact ⟨_, next.passes (paren.passes passes), .call known allDerive⟩
  · obtain ⟨mid, read, close⟩ := (reads_factor_parens next).1 h
    obtain ⟨ks, passes, derives⟩ := below .assignment more next.lt e mid read
    exact ⟨_, next.passes (passes.append (close.passes .nil)), .parens derives⟩

/-- A chain is read as one, if its first operand is and everything shorter is. -/
lemma sound_chain (below : SoundBelow callable ts) (first : Sound callable (operand level) ts) :
    Sound callable (.chain level) ts := by
  intro e rest h
  obtain ⟨e', mid, read, others⟩ := reads_chain.1 h
  rw [← read_operand] at read
  obtain ⟨ks, passes, derives⟩ := first e' mid read
  obtain ⟨more, levels, operands, tail, rfl⟩ := sound_chainRest below read.lt others
  exact ⟨_, passes.append tail, .chain derives levels operands⟩

/-- A conditional is read as one, if its test is and everything shorter is. -/
lemma sound_conditional (below : SoundBelow callable ts) (test : Sound callable (.chain .test) ts) :
    Sound callable .conditional ts := by
  intro e rest h
  obtain ⟨t, mid, read, h⟩ := reads_conditional.1 h
  obtain ⟨ks, passes, derives⟩ := test t mid read
  cases h with
  | inl h =>
    obtain ⟨-, rfl, rfl⟩ := h
    exact ⟨ks, passes, .test derives⟩
  | inr h =>
    obtain ⟨more, question, a, mid', readA, more', colon, b, readB, rfl⟩ := h
    have shorter : more.length < ts.length := Nat.lt_trans question.lt read.lt
    have shorter' : more'.length < ts.length :=
      Nat.lt_trans (Nat.lt_trans colon.lt readA.lt) shorter
    obtain ⟨ls, passesA, derivesA⟩ := below (.chain .test) more shorter a mid' readA
    obtain ⟨ms, passesB, derivesB⟩ := below .conditional more' shorter' b rest readB
    have passesTest := passes.append (question.passes passesA)
    exact ⟨_, passesTest.append (colon.passes passesB), .cond derives derivesA derivesB⟩

/-- An assignment is read as one, if its target is and everything shorter is. -/
lemma sound_assignment (below : SoundBelow callable ts) (target : Sound callable .conditional ts) :
    Sound callable .assignment ts := by
  intro e rest h
  obtain ⟨t, mid, read, h⟩ := reads_assignment.1 h
  obtain ⟨ks, passes, derives⟩ := target t mid read
  cases h with
  | inl h =>
    obtain ⟨-, rfl, rfl⟩ := h
    exact ⟨ks, passes, .plain derives⟩
  | inr h =>
    obtain ⟨more, sign, value, readV, rfl⟩ := h
    have shorter : more.length < ts.length := Nat.lt_trans sign.lt read.lt
    obtain ⟨ls, passesV, derivesV⟩ := below .assignment more shorter value rest readV
    exact ⟨_, passes.append (sign.passes passesV), .assign derives derivesV⟩

/-- What the parser reads by a rule, the rule derives. -/
lemma sound (callable : String → Bool) (rule : Rule) (ts : List Token) : Sound callable rule ts := by
  induction len : ts.length using Nat.strongRecOn generalizing rule ts with
  | ind _ ih =>
    have below : SoundBelow callable ts :=
      fun rule ts' lt => ih ts'.length (len ▸ lt) rule ts' rfl
    clear ih
    induction rule using Rule.ascend with
    | factor => exact sound_factor below
    | chain level first => exact sound_chain below first
    | conditional test => exact sound_conditional below test
    | assignment target => exact sound_assignment below target

end Grammar

end Reckon
