import Mathlib.Data.List.DropRight
import Reckon.Proofs.Lexing
import Reckon.Proofs.Parsing
import Reckon.Session

/-!
# Written forms of a line

A text is a written form of words if it spells them in their order, with blanks or nothing between
them, and none of them could be longer where it stands (`Written`). The lexer gives the words of
which a text is a written form (`Cursor.tokens_of_written`, `Cursor.written_of_tokens`). With the
grammar, this says what a line means without the lexer and the parser (`Statement.parse_eq_ok_iff`).
Blanks at the ends of a line mean nothing (`Statement.parse_trim`), and a line that makes a
statement is carried out as this says (`Session.execute_of_parse`).
-/

namespace Reckon

open Text
open Token (Kind)

/-- The text spells the words in their order, none longer than it stands there, with blanks anywhere
around them. -/
inductive Written : List Kind → List Char → Prop where
  | nil : Written [] []
  | blank {c ks text} : isBlank c = true → Written ks text → Written ks (c :: text)
  | word {k lexeme ks text} : k.SpelledBy lexeme → k.EndsBefore text → Written ks text →
      Written (k :: ks) (lexeme ++ text)

namespace Token

variable {k : Kind} {c : Char} {lexeme : List Char}

/-- No token goes on with a blank. -/
lemma Kind.not_goesOnWith_of_isBlank (k : Kind) (blank : isBlank c = true) :
    k.goesOnWith c = false := by
  have name := not_continuesName_of_isBlank blank
  have digit : c.isDigit = false := by
    cases digit : c.isDigit with
    | false => rfl
    | true => cases name.symm.trans (continuesName_of_isDigit digit)
  have equal : (c == '=') = false := by
    rw [beq_eq_false_iff_ne]
    intro eq
    rw [eq] at blank
    exact absurd blank (by decide)
  cases k with
  | identifier | deffn => exact name
  | integer => exact digit
  | symbol s =>
    cases s with
    | assign => exact equal
    | value op => cases op <;> first | exact equal | rfl
  | _ => rfl

/-- There is no blank in a written form. -/
lemma Kind.SpelledBy.visible (spelled : k.SpelledBy lexeme) : ∀ c ∈ lexeme, isBlank c = false := by
  have name : ∀ {cs : List Char}, isName cs = true → ∀ c ∈ cs, isBlank c = false := by
    intro cs name c mem
    apply not_isBlank_of_continuesName
    cases cs with
    | nil => cases mem
    | cons d cs =>
      obtain ⟨start, inside⟩ := Bool.and_eq_true_iff.1 name
      cases List.mem_cons.1 mem with
      | inl first => exact first ▸ continuesName_of_startsName start
      | inr mem => exact List.all_eq_true.1 inside c mem
  have sign : ∀ {cs : List Char}, cs.all (!isBlank ·) = true → ∀ c ∈ cs, isBlank c = false := by
    intro cs all c mem
    simpa using List.all_eq_true.1 all c mem
  cases k with
  | identifier x =>
    obtain ⟨ident, rfl⟩ := spelled
    exact name (Bool.and_eq_true_iff.1 ident).1
  | integer v =>
    intro c mem
    exact not_isBlank_of_continuesName (continuesName_of_isDigit (spelled.2.1 c mem))
  | eof => cases spelled
  | deffn =>
    cases spelled
    exact name (by decide)
  | question | colon | tilde | comma | lparen | rparen =>
    cases spelled
    exact sign (by decide)
  | symbol s =>
    cases spelled
    cases s with
    | assign => exact sign (by decide)
    | value op => cases op <;> exact sign (by decide)

end Token

namespace Written

variable {ks : List Kind} {c : Char} {text : List Char}

/-- Words that are written have written forms. -/
lemma spelled (h : Written ks text) : Token.Spelled ks := by
  induction h with
  | nil => exact nofun
  | blank _ _ ih => exact ih
  | word spelled _ _ ih => exact List.forall_mem_cons.2 ⟨⟨_, spelled⟩, ih⟩

/-- The end of the text is not written. -/
lemma eof_not_mem (h : Written ks text) : Kind.eof ∉ ks := by
  intro mem
  obtain ⟨lexeme, spelled⟩ := h.spelled _ mem
  cases spelled

/-- A blank in front does not matter. -/
lemma cons_blank_iff (blank : isBlank c = true) : Written ks (c :: text) ↔ Written ks text := by
  refine ⟨fun h => ?_, .blank blank⟩
  generalize eq : c :: text = whole at h
  cases h with
  | nil => cases eq
  | blank _ h =>
    cases eq
    exact h
  | word spelled =>
    obtain ⟨d, ds, rfl, visible⟩ := spelled.starts
    cases eq
    cases visible.symm.trans blank

/-- A blank behind does not matter. -/
lemma append_blank_iff (blank : isBlank c = true) : Written ks (text ++ [c]) ↔ Written ks text := by
  constructor
  · intro h
    generalize eq : text ++ [c] = whole at h
    induction h generalizing text with
    | nil => simp at eq
    | blank here h ih =>
      cases text with
      | nil =>
        cases eq
        exact h
      | cons d text =>
        cases eq
        exact .blank here (ih rfl)
    | @word k lexeme ks behind spelled ends h ih =>
      cases List.append_eq_append_iff.1 eq with
      | inl short =>
        obtain ⟨between, rfl, split⟩ := short
        -- the blank would be the end of the token
        cases between with
        | nil =>
          rw [List.nil_append] at split
          rw [← split] at h
          rw [List.append_nil] at spelled
          rw [← List.append_nil text]
          exact .word spelled (Token.endsBefore_nil k) ((cons_blank_iff blank).1 h)
        | cons d between =>
          obtain ⟨rfl, -⟩ := List.cons.inj split
          cases blank.symm.trans (spelled.visible c (by simp))
      | inr long =>
        obtain ⟨between, rfl, rfl⟩ := long
        refine .word spelled (fun d next => ends d ?_) (ih rfl)
        rw [List.head?_append_of_ne_nil]
        · exact next
        · rintro rfl
          cases next
  · intro h
    induction h with
    | nil => exact .blank blank .nil
    | blank here _ ih => exact .blank here ih
    | @word k lexeme ks behind spelled ends _ ih =>
      rw [List.append_assoc]
      refine .word spelled (fun d next => ?_) ih
      cases behind with
      | nil =>
        cases next
        exact k.not_goesOnWith_of_isBlank blank
      | cons d behind => exact ends _ next

/-- In a text without characters nothing is written. -/
lemma eq_nil (h : Written ks []) : ks = [] := by
  generalize eq : [] = whole at h
  cases h with
  | nil => rfl
  | blank => cases eq
  | word spelled =>
    obtain ⟨c, cs, rfl, -⟩ := spelled.starts
    cases eq

/-- A character that is not blank, in front of a text, is read as the start of its first word. -/
lemma exists_read (h : Written ks (c :: text)) (visible : isBlank c = false) :
    ∃ k rest, ks = k :: rest ∧ (Token.read c text).outcome = .ok k := by
  generalize eq : c :: text = whole at h
  cases h with
  | nil => cases eq
  | blank blank =>
    cases eq
    cases visible.symm.trans blank
  | @word k lexeme rest behind spelled ends =>
    obtain ⟨d, ds, split, -, read⟩ := Token.readAs_of_spelledBy spelled ends
    cases eq.trans split
    exact ⟨k, rest, rfl, by rw [read]⟩

/-- Blanks around a text do not matter. -/
lemma trimChars_iff : Written ks (trimChars text) ↔ Written ks text := by
  have back : ∀ cs : List Char, Written ks (cs.rdropWhile isBlank) ↔ Written ks cs := by
    intro cs
    induction cs using List.reverseRecOn with
    | nil => rfl
    | append_singleton cs c ih =>
      cases blank : isBlank c with
      | false => rw [List.rdropWhile_concat_neg _ _ _ (by simp [blank])]
      | true => rw [List.rdropWhile_concat_pos _ _ _ blank, ih, append_blank_iff blank]
  have front : ∀ cs : List Char, Written ks (cs.dropWhile isBlank) ↔ Written ks cs := by
    intro cs
    induction cs with
    | nil => rfl
    | cons c cs ih =>
      cases blank : isBlank c with
      | false => rw [List.dropWhile_cons_of_neg (by simp [blank])]
      | true => rw [List.dropWhile_cons_of_pos blank, ih, cons_blank_iff blank]
  exact (back _).trans (front text)

end Written

namespace Token

/-- The words one behind the other, each in its written form, with a blank where a word would be
longer without it. -/
def joined : List Kind → List Char
  | [] => []
  | k :: ks =>
    k.text.toList ++ if (joined ks).head?.any k.goesOnWith then ' ' :: joined ks else joined ks

/-- Words that have spellings are written by joining their written forms. -/
lemma written_joined {ks : List Kind} (spelled : Spelled ks) : Written ks (joined ks) := by
  induction ks with
  | nil => exact .nil
  | cons k ks ih =>
    obtain ⟨⟨lexeme, first⟩, others⟩ := List.forall_mem_cons.1 spelled
    rw [joined]
    split
    · refine .word first.text (fun d next => ?_) (.blank (by decide) (ih others))
      cases next
      exact k.not_goesOnWith_of_isBlank (by decide)
    · rename_i ends
      refine .word first.text (fun d next => ?_) (ih others)
      simpa [Option.mem_def.1 next] using ends

end Token

namespace Cursor

variable {ks : List Kind} {text : List Char} {offset : Nat}

/-- The lexer gives the words of which a text is a written form. -/
lemma tokens_of_written (h : Written ks text) (offset : Nat) :
    ∃ line, (Cursor.mk offset text).tokens = .ok line ∧ line.map Token.kind = ks ++ [.eof] := by
  induction h generalizing offset with
  | nil => exact ⟨_, tokens_nil, rfl⟩
  | blank blank _ ih =>
    rw [tokens_blank blank]
    exact ih _
  | word spelled ends _ ih =>
    obtain ⟨line, eq, kinds⟩ := ih _
    rw [tokens_token spelled ends, eq]
    exact ⟨_, rfl, by simp [kinds]⟩

/-- A text is a written form of the words that the lexer gives. -/
lemma written_of_tokens {line : List Token} (made : (Cursor.mk offset text).tokens = .ok line) :
    ∃ ks, Written ks text ∧ line.map Token.kind = ks ++ [.eof] := by
  induction text using Token.text_induction generalizing offset line with
  | nil =>
    rw [tokens_nil] at made
    cases made
    exact ⟨[], .nil, rfl⟩
  | blank c cs blank ih =>
    rw [tokens_blank blank] at made
    obtain ⟨ks, written, kinds⟩ := ih made
    exact ⟨ks, .blank blank written, kinds⟩
  | token k lexeme rest spelled ends ih =>
    rw [tokens_token spelled ends] at made
    cases tail : (Cursor.mk (offset + Token.byteSize lexeme) rest).tokens with
    | error e =>
      rw [tail] at made
      cases made
    | ok others =>
      rw [tail] at made
      cases made
      obtain ⟨ks, written, kinds⟩ := ih tail
      exact ⟨k :: ks, .word spelled ends written, by simp [kinds]⟩
  | unreadable text m unreadable =>
    rw [tokens_unreadable unreadable] at made
    cases made

end Cursor

namespace Statement

open Grammar Reckon.Parser

variable {fns : FunctionTable} {source : String} {statement : Statement}

/-- Before the end of a line are the words in front of it. -/
lemma beforeEnd_of_kinds {line : List Token} {ks : List Kind}
    (kinds : line.map Token.kind = ks ++ [.eof]) (none : Kind.eof ∉ ks) : beforeEnd line = ks := by
  have kept : ∀ k ∈ ks, decide (k ≠ .eof) = true := fun k mem => by
    simpa using fun eq : k = .eof => none (eq ▸ mem)
  rw [beforeEnd, kinds, List.takeWhile_append_of_pos kept]
  simp

/-- A line makes a statement exactly if it is a written form of words that derive it. -/
lemma parse_eq_ok_iff : parse fns source = .ok statement ↔
    ∃ ks, Written ks source.toList ∧ Forms fns.contains ks statement := by
  have start : tokenize source = (Cursor.mk 0 source.toList).tokens := rfl
  constructor
  · intro made
    rw [parse] at made
    split at made
    · cases made
    · rename_i line eq
      obtain ⟨ks, written, kinds⟩ := Cursor.written_of_tokens (start ▸ eq)
      split at made
      · cases made
      · rename_i parsed
        cases made
        have forms := forms_of_statement (ofTokens_eq_ok_iff.1 parsed)
        rw [beforeEnd_of_kinds kinds written.eof_not_mem] at forms
        exact ⟨ks, written, forms⟩
  · intro h
    obtain ⟨ks, written, forms⟩ := h
    obtain ⟨line, eq, kinds⟩ := Cursor.tokens_of_written written 0
    rw [← beforeEnd_of_kinds kinds written.eof_not_mem] at forms
    rw [parse, start, eq]
    simp only [ofTokens_eq_ok_iff.2 (statement_of_forms forms)]

/-- A trimmed text does not start blank. -/
lemma not_isBlank_of_trimChars {text cs : List Char} {c : Char} (eq : trimChars text = c :: cs) :
    isBlank c = false := by
  have front : trimChars text <+: text.dropWhile isBlank := List.rdropWhile_prefix isBlank _
  rw [eq] at front
  obtain ⟨behind, split⟩ := front
  apply Token.stop_dropWhile isBlank text
  rw [← split]
  rfl

/-- A line that makes a statement starts neither like a comment nor like a command, once it is
trimmed. -/
lemma head?_trim_of_parse (made : parse fns source = .ok statement) :
    ∃ c, (trim source).toList.head? = some c ∧ c ≠ '#' ∧ c ≠ ':' := by
  obtain ⟨ks, written, forms⟩ := parse_eq_ok_iff.1 made
  rw [← Written.trimChars_iff] at written
  rw [trim, String.toList_ofList]
  obtain ⟨k, rest, rfl, notColon⟩ := forms.starts
  cases eq : trimChars source.toList with
  | nil =>
    rw [eq] at written
    cases written.eq_nil
  | cons c cs =>
    rw [eq] at written
    obtain ⟨_, _, first, read⟩ := written.exists_read (not_isBlank_of_trimChars eq)
    cases first
    refine ⟨c, rfl, ?_, ?_⟩
    · rintro rfl
      have hash : (Token.read '#' cs).outcome = .error (.character '#') := rfl
      cases hash.symm.trans read
    · rintro rfl
      have colon : (Token.read ':' cs).outcome = .ok .colon := rfl
      cases colon.symm.trans read
      exact notColon rfl

/-- Blanks at the two ends of a line mean nothing. -/
lemma parse_trim : parse fns (trim source) = .ok statement ↔ parse fns source = .ok statement := by
  simp only [parse_eq_ok_iff, trim, String.toList_ofList, Written.trimChars_iff]

end Statement

/-- A line that makes a statement is carried out as this statement says. -/
lemma Session.execute_of_parse {engine : Engine} {depth : Nat} {line : String} {s : Session}
    {statement : Statement} (made : Statement.parse s.functions line = .ok statement) :
    execute engine depth line s = perform engine depth statement s := by
  obtain ⟨c, head, comment, command⟩ := Statement.head?_trim_of_parse made
  have noComment : ¬(Text.trim line).toList.head?.all (· == '#') = true := by simp [head, comment]
  have noCommand : ∀ name : String, name.toList.head? = some ':' → Text.trim line ≠ name := by
    rintro name colon rfl
    exact command (Option.some.inj (head.symm.trans colon))
  simp only [execute, Run.bind_apply, Run.get_apply, if_neg noComment,
    if_neg (noCommand ":vars" rfl), if_neg (noCommand ":functions" rfl),
    Statement.parse_trim.2 made]

end Reckon
