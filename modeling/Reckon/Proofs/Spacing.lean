import Mathlib.Data.List.Chain
import Reckon.Proofs.Written

/-!
# Words and blanks

The text of words with blanks around them (`Token.spaced`). Between two words there may be no blank
unless the first would go on into the second (`Kind.fuses`), and then the lexer gives the words back:
`tokenize_spaced`.

* `Kind.goesOnWith_head`: a word goes on with the first character of another exactly if they fuse.
* `Written.blanks`, `written_spaced`: the text of words is a written form of them.
-/

namespace Reckon

open Text
open Token (Kind)

namespace Token

/-- A token that stands for itself in a line: any but the end, if its name is an identifier and its
value not negative. -/
def Kind.isWord : Kind → Bool
  | .identifier x => isIdentifier x
  | .integer v => decide (0 ≤ v)
  | .eof => false
  | _ => true

/-- Two words that would be read otherwise if nothing stood between them. -/
def Kind.fuses : Kind → Kind → Bool
  | .identifier _, k | .deffn, k =>
    match k with
    | .identifier _ | .deffn | .integer _ => true
    | _ => false
  | .integer _, k =>
    match k with
    | .integer _ => true
    | _ => false
  | .symbol .assign, k | .symbol (.value .lt), k | .symbol (.value .gt), k =>
    match k with
    | .symbol .assign | .symbol (.value .eq) => true
    | _ => false
  | _, _ => false

/-- The words one behind the other, each in its written form with a text behind it. -/
def spaced : List (Kind × String) → String
  | [] => ""
  | (k, behind) :: words => k.text ++ behind ++ spaced words

variable {k k' : Kind} {c : Char} {cs : List Char}

/-- A word is spelled by its written form. -/
lemma Kind.spelledBy_text (word : k.isWord = true) : k.SpelledBy k.text.toList := by
  cases k with
  | identifier x => exact ⟨word, rfl⟩
  | integer v => exact spelledBy_decimal (of_decide_eq_true word)
  | eof => cases word
  | _ => rfl

/-- What a character is for the three sorts of tokens that can be longer tells whether a token goes on
with it. -/
lemma Kind.goesOnWith_eq_fuses (name : continuesName c = Kind.deffn.fuses k')
    (digit : c.isDigit = (Kind.integer 0).fuses k')
    (equal : (c == '=') = (Kind.symbol .assign).fuses k') (k : Kind) :
    k.goesOnWith c = k.fuses k' := by
  cases k with
  | identifier | deffn => exact name
  | integer => exact digit
  | symbol s =>
    cases s with
    | assign => exact equal
    | value op => cases op <;> first | exact equal | rfl
  | _ => rfl

/-- A word goes on with the first character of another exactly if they fuse. -/
lemma Kind.goesOnWith_head (word : k'.isWord = true) (head : k'.text.toList = c :: cs) (k : Kind) :
    k.goesOnWith c = k.fuses k' := by
  have different : ∀ d : Char, startsName d = true ∨ d.isDigit = true → (d == '=') = false := by
    intro d inside
    rw [beq_eq_false_iff_ne]
    rintro rfl
    exact absurd inside (by decide)
  cases k' with
  | identifier x =>
    have name : isName (c :: cs) = true := head ▸ (Bool.and_eq_true_iff.1 word).1
    have start := (Bool.and_eq_true_iff.1 name).1
    have digit : c.isDigit = false := by
      cases digit : c.isDigit with
      | false => rfl
      | true => cases start.symm.trans (not_startsName_of_isDigit digit)
    exact goesOnWith_eq_fuses (continuesName_of_startsName start) digit (different c (.inl start)) k
  | integer v =>
    have digit : c.isDigit = true := (Kind.spelledBy_text word).2.1 c (head ▸ List.mem_cons_self ..)
    exact goesOnWith_eq_fuses (continuesName_of_isDigit digit) digit (different c (.inr digit)) k
  | eof => cases word
  | symbol s =>
    cases s with
    | assign =>
      cases head
      exact goesOnWith_eq_fuses (by decide) (by decide) (by decide) k
    | value op =>
      cases op <;> cases head <;>
        exact goesOnWith_eq_fuses (by decide) (by decide) (by decide) k
  | deffn | question | colon | tilde | comma | lparen | rparen =>
    cases head
    exact goesOnWith_eq_fuses (by decide) (by decide) (by decide) k

/-- Every word has a first character, which is not blank. -/
lemma Kind.exists_head (word : k.isWord = true) : ∃ c cs, k.text.toList = c :: cs := by
  obtain ⟨c, cs, eq, -⟩ := (Kind.spelledBy_text word).starts
  exact ⟨c, cs, eq⟩

end Token

namespace Written

variable {ks : List Kind} {k k' : Kind} {text : List Char}

/-- Blanks in front of a text write nothing. -/
lemma blanks {cs : List Char} (blank : ∀ c ∈ cs, isBlank c = true) (h : Written ks text) :
    Written ks (cs ++ text) := by
  induction cs with
  | nil => exact h
  | cons c cs ih =>
    obtain ⟨first, others⟩ := List.forall_mem_cons.1 blank
    exact .blank first (ih others)

end Written

/-- Words with blanks between those that fuse are written by their text. -/
lemma written_spaced {words : List (Kind × String)} (word : ∀ w ∈ words, w.1.isWord = true)
    (blank : ∀ w ∈ words, ∀ c ∈ w.2.toList, isBlank c = true)
    (apart : words.IsChain fun v w => v.2 = "" → v.1.fuses w.1 = false) :
    Written (words.map Prod.fst) (Token.spaced words).toList := by
  induction words with
  | nil => exact .nil
  | cons w words ih =>
    obtain ⟨k, behind⟩ := w
    obtain ⟨first, others⟩ := List.forall_mem_cons.1 word
    obtain ⟨here, blank⟩ := List.forall_mem_cons.1 blank
    obtain ⟨next, apart⟩ := List.isChain_cons.1 apart
    simp only [Token.spaced, String.toList_append, List.append_assoc]
    refine .word (Token.Kind.spelledBy_text first) (fun c starts => ?_)
      (.blanks here (ih others blank apart))
    cases eq : behind.toList with
    | cons d ds =>
      rw [eq] at starts here
      cases starts
      exact k.not_goesOnWith_of_isBlank (here c (List.mem_cons_self ..))
    | nil =>
      -- nothing stands between the word and the next one, if there is one
      have bare : behind = "" := by simpa using eq
      rw [eq, List.nil_append] at starts
      cases words with
      | nil => cases starts
      | cons w words =>
        have word := others w (List.mem_cons_self ..)
        obtain ⟨d, ds, head⟩ := Token.Kind.exists_head word
        rw [Token.spaced, String.toList_append, String.toList_append, head] at starts
        cases starts
        rw [Token.Kind.goesOnWith_head word head]
        exact next w rfl bare

/-- Only an integer has more than one spelling. -/
lemma Token.Kind.SpelledBy.eq_text {k : Kind} {lexeme : List Char} (spelled : k.SpelledBy lexeme)
    (other : ∀ v, k ≠ .integer v) : lexeme = k.text.toList := by
  cases k with
  | identifier => exact spelled.2
  | integer v => exact absurd rfl (other v)
  | eof => cases spelled
  | _ => exact spelled

/-- Two words that fuse are not written one behind the other. -/
lemma not_written_of_fuses {k k' : Kind} (word : k.isWord = true) (word' : k'.isWord = true)
    (fuses : k.fuses k' = true) : ¬Written [k, k'] (k.text ++ k'.text).toList := by
  intro h
  obtain ⟨c, cs, head⟩ := Token.Kind.exists_head word'
  have more := fuses ▸ Token.Kind.goesOnWith_head word' head k
  rw [String.toList_append] at h
  generalize eq : k.text.toList ++ k'.text.toList = whole at h
  cases h with
  | blank blank =>
    obtain ⟨d, ds, first⟩ := Token.Kind.exists_head word
    have visible := (Token.Kind.spelledBy_text word).visible d (first ▸ List.mem_cons_self ..)
    rw [first] at eq
    cases eq
    cases visible.symm.trans blank
  | @word _ lexeme _ text spelled ends rest =>
    cases k with
    | integer v =>
      cases k' with
      | integer v' =>
        -- all that stands there is a single run of digits
        have digits : ∀ d ∈ lexeme ++ text, d.isDigit = true := by
          rw [← eq]
          exact List.forall_mem_append.2 ⟨(Token.Kind.spelledBy_text word).2.1,
            (Token.Kind.spelledBy_text word').2.1⟩
        cases text with
        | nil => cases rest.eq_nil
        | cons d ds => cases (ends d rfl).symm.trans (digits d (by simp))
      | _ => cases fuses
    | _ =>
      rw [spelled.eq_text nofun] at eq
      rw [← List.append_cancel_left eq, head] at ends
      cases (ends c rfl).symm.trans more

/-- Words with blanks are read as these words. In front of the first word, between two words and behind
the last one may stand any blanks, and none except between two words that fuse. Two words that fuse
are read otherwise if nothing stands between them. -/
theorem tokenize_spaced {before : String} {words : List (Kind × String)}
    (word : ∀ w ∈ words, w.1.isWord = true) (blanks : ∀ c ∈ before.toList, isBlank c = true)
    (blank : ∀ w ∈ words, ∀ c ∈ w.2.toList, isBlank c = true)
    (apart : words.IsChain fun v w => v.2 = "" → v.1.fuses w.1 = false) :
    (∃ tokens, tokenize (before ++ Token.spaced words) = .ok tokens ∧
      tokens.map Token.kind = words.map Prod.fst ++ [.eof]) ∧
    ∀ k k' : Kind, k.isWord = true → k'.isWord = true →
      ((∃ tokens, tokenize (k.text ++ k'.text) = .ok tokens ∧
        tokens.map Token.kind = [k, k', .eof]) ↔ k.fuses k' = false) := by
  have read : ∀ {source : String} {ks}, Written ks source.toList →
      ∃ tokens, tokenize source = .ok tokens ∧ tokens.map Token.kind = ks ++ [.eof] :=
    fun written => Cursor.tokens_of_written written 0
  refine ⟨read ?_, fun k k' word word' => ⟨fun made => ?_, fun apart => ?_⟩⟩
  · rw [String.toList_append]
    exact .blanks blanks (written_spaced word blank apart)
  · obtain ⟨tokens, made, kinds⟩ := made
    obtain ⟨ks, written, kinds'⟩ := Cursor.written_of_tokens made
    have same : ks ++ [.eof] = [k, k'] ++ [.eof] := kinds'.symm.trans kinds
    rw [(List.append_inj' same rfl).1] at written
    cases fuses : k.fuses k' with
    | false => rfl
    | true => exact absurd written (not_written_of_fuses word word' fuses)
  · have two : ∀ w ∈ [(k, ""), (k', "")], w.1.isWord = true ∧ ∀ c ∈ w.2.toList, isBlank c = true := by
      simp [word, word']
    have written := written_spaced (fun w mem => (two w mem).1) (fun w mem => (two w mem).2)
      (List.isChain_pair.2 fun _ => apart)
    have text : Token.spaced [(k, ""), (k', "")] = k.text ++ k'.text := by simp [Token.spaced]
    exact read (text ▸ written)

/-- A name of a letter with two bytes, a sign kept from an equals sign by a blank that does not break a
line, and two integers kept apart by a wide blank. Two signs that are read otherwise without blanks. -/
theorem tokenize_spaced_unicode :
    let words : List (Kind × String) := [(.deffn, " "), (.identifier "é", ""),
      (.symbol (.value .lt), "\u00a0"), (.symbol .assign, ""), (.integer 0, "\u2003"), (.integer 12, "")]
    Token.spaced words = "deffn é<\u00a0=0\u200312" ∧
      (∃ tokens, tokenize ("\t" ++ Token.spaced words) = .ok tokens ∧
        tokens.map Token.kind = [.deffn, .identifier "é", .symbol (.value .lt), .symbol .assign,
          .integer 0, .integer 12, .eof]) ∧
      ¬∃ tokens, tokenize ("=" ++ "==") = .ok tokens ∧
        tokens.map Token.kind = [.symbol .assign, .symbol (.value .eq), .eof] := by
  intro words
  -- over the lists: a quantifier over characters may be decided by running through all of them
  have tab : "\t".toList.all isBlank = true := by decide +kernel
  have blank : (words.all fun w => w.2.toList.all isBlank) = true := by decide +kernel
  simp only [List.all_eq_true] at tab blank
  have read := @tokenize_spaced "\t" words (by decide +kernel) tab blank (by decide +kernel)
  refine ⟨by decide +kernel, read.1, fun made => ?_⟩
  have apart := (read.2 (.symbol .assign) (.symbol (.value .eq)) rfl rfl).1 made
  cases apart

end Reckon
