import Reckon.Proofs.Spelling

/-!
# The lexer cuts a text into its tokens

`Segmented` says what it means that words are the tokens of a text: each stands there with its
spelling and could not be longer, they come in order without overlap, and everything else is blank.
The main statement is `tokenize_iff_segmented`: the lexer succeeds exactly with the tokens of the
whole text, and fails exactly at the end of a part that is segmented, for the reason why nothing can
be read there.

Words are put together by `Segmented.append` and taken off the front by `Segmented.drop_blank` and
`Segmented.drop_token`, so a segmented text is gone through word by word (`Segmented.induction`). Every
text has words up to its end or up to something unreadable (`Segmented.exists_words`), and the lexer
takes the words of a text off it (`Cursor.tokens_segmented`).
-/

namespace Reckon

open Text
open Token (Kind byteSize Unreadable)

/-- The place is inside the span. -/
def Span.Covers (s : Span) (place : Nat) : Prop := s.start ≤ place ∧ place < s.stop

/-- The report of what is unreadable at a place. -/
def Token.Misfit.report (place : Nat) : Token.Misfit → LexError
  | .character c => .unexpectedCharacter c place
  | .integer literal => .invalidInteger literal place

/-- The token stands in a text that starts at place `offset` and has `rest` behind it: its span cuts
a spelling of it out of the text, and it could not be longer. -/
def Token.StandsIn (offset : Nat) (text rest : List Char) (t : Token) : Prop :=
  ∃ before lexeme after, text = before ++ lexeme ++ after ∧ lexeme ≠ [] ∧
    t.span = ⟨offset + byteSize before, offset + byteSize (before ++ lexeme)⟩ ∧
    t.kind.SpelledBy lexeme ∧ t.kind.EndsBefore (after ++ rest)

/-- The words are the tokens of a text that starts at place `offset` and has `rest` behind it. -/
structure Segmented (offset : Nat) (text rest : List Char) (words : List Token) : Prop where
  stand : ∀ t ∈ words, t.StandsIn offset text rest
  ordered : words.Pairwise fun t u => t.span.stop ≤ u.span.start
  blank : ∀ before c after, text = before ++ c :: after →
    (∀ t ∈ words, ¬t.span.Covers (offset + byteSize before)) → isBlank c = true

namespace Token

variable {c : Char} {text rest lexeme : List Char} {offset : Nat} {t : Token} {k : Kind}

/-- A text with a character has a byte. -/
lemma byteSize_pos {cs : List Char} (filled : cs ≠ []) : 0 < byteSize cs := by
  obtain ⟨c, cs, rfl⟩ := List.exists_cons_of_ne_nil filled
  exact Nat.lt_of_lt_of_le c.utf8Size_pos (Nat.le_add_right _ _)

/-- The bytes of the characters are those of the string. -/
lemma byteSize_toList (s : String) : byteSize s.toList = s.utf8ByteSize := by
  have all : ∀ cs : List Char, byteSize cs = (String.ofList cs).utf8ByteSize := by
    intro cs
    induction cs with
    | nil => rfl
    | cons c cs ih =>
      rw [String.ofList_cons, String.utf8ByteSize_append, String.utf8ByteSize_singleton, ← ih]
      rfl
  rw [all, String.ofList_toList]

/-- Of two ways to cut a text in two, the one with fewer bytes in its first part cuts first. -/
lemma exists_append_of_byteSize_le {a b c d : List Char} (same : a ++ b = c ++ d)
    (le : byteSize a ≤ byteSize c) : ∃ e, c = a ++ e ∧ b = e ++ d := by
  cases List.append_eq_append_iff.1 same with
  | inl h => exact h
  | inr h =>
    obtain ⟨e, rfl, rfl⟩ := h
    cases e with
    | nil => exact ⟨[], by simp, rfl⟩
    | cons x e =>
      have := byteSize_pos (List.cons_ne_nil x e)
      rw [byteSize_append] at le
      omega

/-- A token starts in its text and has a byte. -/
lemma StandsIn.start_lt (h : t.StandsIn offset text rest) :
    offset ≤ t.span.start ∧ t.span.start < t.span.stop := by
  obtain ⟨before, lexeme, after, -, filled, span, -⟩ := h
  have := byteSize_pos filled
  rw [span, byteSize_append]
  constructor <;> simp only <;> omega

/-- A token ends in its text. -/
lemma StandsIn.stop_le (h : t.StandsIn offset text rest) :
    t.span.stop ≤ offset + byteSize text := by
  obtain ⟨before, lexeme, after, rfl, -, span, -⟩ := h
  rw [span, byteSize_append (before ++ lexeme)]
  simp only
  omega

/-- A token stands in a longer text as well. -/
lemma StandsIn.more {back : List Char} (h : t.StandsIn offset text (back ++ rest)) :
    t.StandsIn offset (text ++ back) rest := by
  obtain ⟨before, lexeme, after, rfl, filled, span, spelled, ends⟩ := h
  rw [← List.append_assoc] at ends
  exact ⟨before, lexeme, after ++ back, by simp, filled, span, spelled, ends⟩

/-- The tokens of the back of a text are those of the whole that do not start in its front. -/
lemma standsIn_append {front : List Char} :
    t.StandsIn (offset + byteSize front) text rest ↔
      t.StandsIn offset (front ++ text) rest ∧ offset + byteSize front ≤ t.span.start := by
  constructor
  · intro h
    have start := h.start_lt.1
    obtain ⟨before, lexeme, after, rfl, filled, span, spelled, ends⟩ := h
    refine ⟨⟨front ++ before, lexeme, after, by simp, filled, ?_, spelled, ends⟩, start⟩
    simp only [span, byteSize_append, Nat.add_assoc]
  · intro ⟨h, start⟩
    obtain ⟨before, lexeme, after, eq, filled, span, spelled, ends⟩ := h
    have le : byteSize front ≤ byteSize before := by
      rw [span] at start
      exact Nat.le_of_add_le_add_left start
    obtain ⟨between, rfl, rfl⟩ := exists_append_of_byteSize_le (by rw [eq, List.append_assoc]) le
    refine ⟨between, lexeme, after, by simp, filled, ?_, spelled, ends⟩
    simp only [span, byteSize_append, Nat.add_assoc]

/-- A token that starts where the text does is spelled by the head of the text. -/
lemma StandsIn.at_start (h : t.StandsIn offset text rest) (start : t.span.start = offset) :
    ∃ lexeme after, text = lexeme ++ after ∧ t = ⟨t.kind, ⟨offset, offset + byteSize lexeme⟩⟩ ∧
      t.kind.SpelledBy lexeme ∧ t.kind.EndsBefore (after ++ rest) := by
  obtain ⟨before, lexeme, after, rfl, -, span, spelled, ends⟩ := h
  cases before with
  | nil => exact ⟨lexeme, after, rfl, by cases t; simp_all [byteSize], spelled, ends⟩
  | cons c before =>
    have := byteSize_pos (List.cons_ne_nil c before)
    rw [span] at start
    simp only at start
    omega

end Token

namespace Segmented

variable {c : Char} {front text rest lexeme : List Char} {offset : Nat}
  {words first others : List Token} {k : Kind}

/-- A text without characters is cut into no tokens. -/
lemma nil : Segmented offset [] rest [] := ⟨nofun, .nil, by simp⟩

/-- A blank is cut into no tokens. -/
lemma ofBlank (blank : isBlank c = true) : Segmented offset [c] rest [] where
  stand := nofun
  ordered := .nil
  blank before d after eq _ := by
    have mem : d ∈ [c] := by simp [eq]
    rw [List.mem_singleton.1 mem, blank]

/-- A written form is cut into its token. -/
lemma ofToken (spelled : k.SpelledBy lexeme) (ends : k.EndsBefore rest) :
    Segmented offset lexeme rest [⟨k, ⟨offset, offset + byteSize lexeme⟩⟩] where
  stand t mem := by
    obtain ⟨c, cs, filled, -⟩ := spelled.starts
    rw [List.mem_singleton.1 mem]
    exact ⟨[], lexeme, [], by simp, by simp [filled], rfl, spelled, ends⟩
  ordered := by simp
  blank before c after eq bare := by
    have inside : byteSize before < byteSize lexeme := by
      have := Token.byteSize_pos (List.cons_ne_nil c after)
      rw [eq, Token.byteSize_append]
      omega
    refine absurd ?_ (bare _ (List.mem_singleton_self _))
    exact ⟨Nat.le_add_right .., Nat.add_lt_add_left inside offset⟩

/-- The words of two texts, one behind the other, are those of the whole. -/
lemma append (h : Segmented offset front (text ++ rest) first)
    (h' : Segmented (offset + byteSize front) text rest others) :
    Segmented offset (front ++ text) rest (first ++ others) where
  stand t mem := by
    cases List.mem_append.1 mem with
    | inl mem => exact (h.stand t mem).more
    | inr mem => exact (Token.standsIn_append.1 (h'.stand t mem)).1
  ordered := by
    refine List.pairwise_append.2 ⟨h.ordered, h'.ordered, fun t mem u mem' => ?_⟩
    exact Nat.le_trans (h.stand t mem).stop_le (h'.stand u mem').start_lt.1
  blank before c after eq bare := by
    cases List.append_eq_append_iff.1 eq with
    | inl behind =>
      obtain ⟨between, rfl, eq'⟩ := behind
      apply h'.blank between c after eq'
      intro t mem
      rw [Nat.add_assoc, ← Token.byteSize_append]
      exact bare t (List.mem_append_right _ mem)
    | inr across =>
      obtain ⟨between, rfl, eq'⟩ := across
      cases between with
      | nil =>
        rw [List.append_nil] at h'
        apply h'.blank [] c after eq'.symm
        exact fun t mem => bare t (List.mem_append_right _ mem)
      | cons d between =>
        obtain ⟨rfl, rfl⟩ := List.cons.inj eq'
        apply h.blank before c between rfl
        intro t mem
        exact bare t (List.mem_append_left _ mem)

/-- The words behind a place that no word crosses are those of the text from there on. -/
lemma drop (h : Segmented offset (front ++ text) rest (first ++ others))
    (inFront : ∀ t ∈ first, t.span.stop ≤ offset + byteSize front)
    (behind : ∀ t ∈ others, offset + byteSize front ≤ t.span.start) :
    Segmented (offset + byteSize front) text rest others where
  stand t mem := Token.standsIn_append.2 ⟨h.stand t (List.mem_append_right _ mem), behind t mem⟩
  ordered := (List.pairwise_append.1 h.ordered).2.1
  blank before c after eq bare := by
    apply h.blank (front ++ before) c after (by rw [eq, List.append_assoc])
    intro t mem covers
    rw [Token.byteSize_append, ← Nat.add_assoc] at covers
    cases List.mem_append.1 mem with
    | inl mem =>
      have := inFront t mem
      exact absurd covers.2 (by omega)
    | inr mem => exact bare t mem covers

/-- A character that is not blank, at the start of the text, starts a word. -/
lemma exists_first (h : Segmented offset (c :: text) rest words) (visible : isBlank c = false) :
    ∃ t ∈ words, t.span.start = offset := by
  by_contra none
  have bare : ∀ t ∈ words, ¬t.span.Covers (offset + byteSize []) := by
    intro t mem covers
    have start := (h.stand t mem).start_lt.1
    exact none ⟨t, mem, Nat.le_antisymm covers.1 start⟩
  cases visible.symm.trans (h.blank [] c text rfl bare)

/-- Only no tokens are cut from a text without characters. -/
lemma words_nil (h : Segmented offset [] rest words) : words = [] := by
  cases words with
  | nil => rfl
  | cons t words =>
    obtain ⟨before, lexeme, after, eq, filled, -⟩ := h.stand t (by simp)
    simp_all

/-- Without the blank in front the tokens are the same. -/
lemma drop_blank (blank : isBlank c = true) (h : Segmented offset (c :: text) rest words) :
    Segmented (offset + byteSize [c]) text rest words := by
  have whole : Segmented offset ([c] ++ text) rest ([] ++ words) := h
  apply whole.drop nofun
  intro t mem
  obtain ⟨before, lexeme, after, eq, -, span, spelled, -⟩ := h.stand t mem
  cases before with
  | nil =>
    obtain ⟨d, ds, rfl, visible⟩ := spelled.starts
    cases eq
    cases visible.symm.trans blank
  | cons d before =>
    cases eq
    rw [span]
    simp only [byteSize]
    omega

/-- A character that is not blank, in front of a text, starts its first word. -/
lemma drop_token (visible : isBlank c = false) (h : Segmented offset (c :: text) rest words) :
    ∃ (k : Kind) (lexeme after : List Char) (others : List Token), c :: text = lexeme ++ after ∧
      k.SpelledBy lexeme ∧ k.EndsBefore (after ++ rest) ∧
      words = ⟨k, ⟨offset, offset + byteSize lexeme⟩⟩ :: others ∧
      Segmented (offset + byteSize lexeme) after rest others := by
  obtain ⟨t, mem, start⟩ := h.exists_first visible
  obtain ⟨lexeme, after, eq, whole, spelled, ends⟩ := (h.stand t mem).at_start start
  obtain ⟨first, others, rfl⟩ := List.append_of_mem mem
  -- a word in front of the one at the start would have to end before it
  cases first with
  | cons u first =>
    have long := (h.stand u (by simp)).start_lt
    have early := (List.pairwise_cons.1 h.ordered).1 t (by simp)
    omega
  | nil =>
    have stop : t.span.stop = offset + byteSize lexeme := by rw [whole]
    refine ⟨t.kind, lexeme, after, others, eq, spelled, ends, by rw [← whole]; rfl, ?_⟩
    have split : Segmented offset (lexeme ++ after) rest ([t] ++ others) := eq ▸ h
    apply split.drop
    · intro u mem
      rw [List.mem_singleton.1 mem, stop]
    · intro u mem
      rw [← stop]
      exact (List.pairwise_cons.1 h.ordered).1 u mem

/-- Induction on a segmented text by what stands at its start: nothing, a blank, or its first word. -/
theorem induction
    {motive : (offset : Nat) → (text : List Char) → (words : List Token) →
      Segmented offset text rest words → Prop}
    (nil : ∀ offset, motive offset [] [] nil)
    (blank : ∀ offset c text words (h : Segmented offset (c :: text) rest words)
      (blank : isBlank c = true), motive _ text words (h.drop_blank blank) →
      motive offset (c :: text) words h)
    (token : ∀ offset (k : Kind) lexeme after others (spelled : k.SpelledBy lexeme)
      (ends : k.EndsBefore (after ++ rest))
      (tail : Segmented (offset + byteSize lexeme) after rest others), motive _ after others tail →
      motive offset (lexeme ++ after) (⟨k, ⟨offset, offset + byteSize lexeme⟩⟩ :: others)
        ((ofToken spelled ends).append tail))
    {offset : Nat} {text : List Char} {words : List Token} (h : Segmented offset text rest words) :
    motive offset text words h := by
  -- on the length of the text, since a token takes several characters off it
  induction len : text.length using Nat.strongRecOn generalizing offset text words with
  | ind _ ih =>
    cases text with
    | nil =>
      obtain rfl := h.words_nil
      exact nil offset
    | cons c cs =>
      cases visible : isBlank c with
      | true =>
        apply blank offset c cs words h visible
        exact ih cs.length (by simp [← len]) _ rfl
      | false =>
        obtain ⟨k, lexeme, after, others, eq, spelled, ends, rfl, tail⟩ := h.drop_token visible
        have shorter : after.length < (c :: cs).length := by
          obtain ⟨d, ds, filled, -⟩ := spelled.starts
          rw [eq, filled, List.length_append, List.length_cons]
          omega
        have whole := token offset k lexeme after others spelled ends tail
          (ih after.length (len ▸ shorter) tail rfl)
        revert h whole
        rw [eq]
        exact fun _ whole => whole

/-- A text has words up to its end or up to something unreadable. -/
lemma exists_words (text : List Char) (offset : Nat) :
    ∃ front rest words, text = front ++ rest ∧ Segmented offset front rest words ∧
      (rest = [] ∨ ∃ m, Unreadable rest m) := by
  induction text using Token.text_induction generalizing offset with
  | nil => exact ⟨[], [], [], rfl, nil, .inl rfl⟩
  | blank c cs blank ih =>
    obtain ⟨front, rest, words, rfl, h, stops⟩ := ih (offset + byteSize [c])
    exact ⟨[c] ++ front, rest, _, rfl, (ofBlank blank).append h, stops⟩
  | token k lexeme behind spelled ends ih =>
    obtain ⟨front, rest, words, rfl, h, stops⟩ := ih (offset + byteSize lexeme)
    exact ⟨lexeme ++ front, rest, _, by simp, (ofToken spelled ends).append h, stops⟩
  | unreadable text m unreadable => exact ⟨[], text, [], rfl, nil, .inr ⟨m, unreadable⟩⟩

end Segmented

namespace Cursor

variable {c : Char} {cs text rest lexeme : List Char} {offset : Nat} {k : Kind} {m : Token.Misfit}

/-- A blank is skipped. -/
lemma next_blank (blank : isBlank c = true) :
    (Cursor.mk offset (c :: cs)).next = (Cursor.mk (offset + byteSize [c]) cs).next := by
  have skip : (Cursor.mk offset (c :: cs)).skipBlank =
      (Cursor.mk (offset + byteSize [c]) cs).skipBlank := by
    simp [skipBlank, blank, byteSize, Nat.add_assoc]
  simp only [next, skip]

/-- At a visible character a token is read. -/
lemma next_read (visible : isBlank c = false) :
    (Cursor.mk offset (c :: cs)).next =
      (match (Token.read c cs).outcome with
        | .ok kind => .ok ⟨kind, ⟨offset, offset + byteSize (Token.read c cs).lexeme⟩⟩
        | .error m => .error (m.report offset),
        ⟨offset + byteSize (Token.read c cs).lexeme, (Token.read c cs).rest⟩) := by
  have skip : (Cursor.mk offset (c :: cs)).skipBlank = ⟨offset, c :: cs⟩ := by
    simp [skipBlank, visible, byteSize]
  simp only [next, skip]
  rcases (Token.read c cs).outcome with (_ | _) | _ <;> rfl

/-- A written form is read as its token, and the cursor stands behind it. -/
lemma next_token (spelled : k.SpelledBy lexeme) (ends : k.EndsBefore rest) :
    (Cursor.mk offset (lexeme ++ rest)).next =
      (.ok ⟨k, ⟨offset, offset + byteSize lexeme⟩⟩, ⟨offset + byteSize lexeme, rest⟩) := by
  obtain ⟨c, cs, eq, visible, read⟩ := Token.readAs_of_spelledBy spelled ends
  rw [eq, next_read visible, read]

/-- Where no token stands, its reason is reported. -/
lemma next_unreadable (h : Unreadable text m) :
    (Cursor.mk offset text).next.1 = .error (m.report offset) := by
  obtain ⟨c, cs, rfl, visible, failed⟩ := Token.read_of_unreadable h
  rw [next_read visible, failed]

/-- The tokens are the next one and those behind it. -/
lemma tokens_eq (c : Cursor) : c.tokens = match c.next with
    | (.error e, _) => .error e
    | (.ok t, after) => if t.kind = .eof then .ok [t] else after.tokens.map (t :: ·) := by
  rw [tokens]
  split
  · rename_i e after eq
    rw [eq]
  · rename_i t after eq
    simp only [eq]
    split <;> rfl

/-- At the end stands the token of the end. -/
lemma tokens_nil : (Cursor.mk offset []).tokens = .ok [⟨.eof, ⟨offset, offset⟩⟩] := by
  rw [tokens_eq]
  rfl

/-- Behind a blank are the same tokens. -/
lemma tokens_blank (blank : isBlank c = true) :
    (Cursor.mk offset (c :: cs)).tokens = (Cursor.mk (offset + byteSize [c]) cs).tokens := by
  rw [tokens_eq, tokens_eq, next_blank blank]

/-- Behind a written form follow the other tokens. -/
lemma tokens_token (spelled : k.SpelledBy lexeme) (ends : k.EndsBefore rest) :
    (Cursor.mk offset (lexeme ++ rest)).tokens =
      (Cursor.mk (offset + byteSize lexeme) rest).tokens.map
        (⟨k, ⟨offset, offset + byteSize lexeme⟩⟩ :: ·) := by
  rw [tokens_eq, next_token spelled ends]
  simp only [if_neg spelled.ne_eof]

/-- Where no token stands, there are none. -/
lemma tokens_unreadable (h : Unreadable text m) :
    (Cursor.mk offset text).tokens = .error (m.report offset) := by
  obtain ⟨c, cs, rfl, visible, failed⟩ := Token.read_of_unreadable h
  rw [tokens_eq, next_read visible, failed]

/-- The words of the front of a text are taken off it. -/
lemma tokens_segmented {words : List Token} (h : Segmented offset text rest words) :
    (Cursor.mk offset (text ++ rest)).tokens =
      (Cursor.mk (offset + byteSize text) rest).tokens.map (words ++ ·) := by
  induction h using Segmented.induction with
  | nil offset =>
    show (Cursor.mk offset rest).tokens = (Cursor.mk offset rest).tokens.map id
    cases (Cursor.mk offset rest).tokens <;> rfl
  | blank offset c text words h blank ih =>
    have size : offset + byteSize [c] + byteSize text = offset + byteSize (c :: text) := by
      simp [byteSize, Nat.add_assoc]
    rw [List.cons_append, tokens_blank blank, ih, size]
  | token offset k lexeme after others spelled ends tail ih =>
    rw [List.append_assoc, tokens_token spelled ends, ih, Token.byteSize_append, ← Nat.add_assoc]
    cases (Cursor.mk (offset + byteSize lexeme + byteSize after) rest).tokens <;> rfl

/-- A text that is cut to its end has these tokens, and that of the end. -/
lemma tokens_of_segmented {words : List Token} (h : Segmented offset text [] words) :
    (Cursor.mk offset text).tokens =
      .ok (words ++ [⟨.eof, ⟨offset + byteSize text, offset + byteSize text⟩⟩]) := by
  have whole := tokens_segmented h
  rw [List.append_nil, tokens_nil] at whole
  exact whole

/-- A text that is cut up to an unreadable place has its error. -/
lemma tokens_of_unreadable {words : List Token} (h : Segmented offset text rest words)
    (unreadable : Unreadable rest m) :
    (Cursor.mk offset (text ++ rest)).tokens = .error (m.report (offset + byteSize text)) := by
  rw [tokens_segmented h, tokens_unreadable unreadable]
  rfl

end Cursor

/-- The tokens of a text are the words in it, with the end of the line behind them. -/
lemma exists_segmented_of_tokenize {source : String} {tokens : List Token}
    (ok : tokenize source = .ok tokens) : ∃ words, Segmented 0 source.toList [] words ∧
      tokens = words ++ [⟨.eof, ⟨source.utf8ByteSize, source.utf8ByteSize⟩⟩] := by
  have start : tokenize source = (Cursor.mk 0 source.toList).tokens := rfl
  obtain ⟨front, rest, words, eq, h, stops⟩ := Segmented.exists_words source.toList 0
  cases stops with
  | inl atEnd =>
    subst atEnd
    rw [List.append_nil] at eq
    subst eq
    rw [start, Cursor.tokens_of_segmented h, Nat.zero_add, Token.byteSize_toList] at ok
    exact ⟨words, h, (Except.ok.inj ok).symm⟩
  | inr stops =>
    obtain ⟨m, unreadable⟩ := stops
    rw [start, eq, Cursor.tokens_of_unreadable h unreadable] at ok
    cases ok

/-- The lexer cuts a text into its tokens. It succeeds exactly if the whole text is segmented, and
its tokens are the words with the end of the line behind them, at the size of the text. Otherwise it
fails, exactly where no token can be read behind a part that is segmented: at a lone `!`, at a
character that starts no token, or at a run of digits whose value is too large. No token could be
longer than where it ends. -/
theorem tokenize_iff_segmented (source : String) :
    (∀ tokens, tokenize source = .ok tokens ↔ ∃ words, Segmented 0 source.toList [] words ∧
      tokens = words ++ [⟨.eof, ⟨source.utf8ByteSize, source.utf8ByteSize⟩⟩]) ∧
    (∀ e, tokenize source = .error e ↔ ∃ front rest words misfit,
      source.toList = front ++ rest ∧ Segmented 0 front rest words ∧ Unreadable rest misfit ∧
      (∀ (k : Kind) lexeme after, rest = lexeme ++ after → k.SpelledBy lexeme →
        ¬k.EndsBefore after) ∧
      e = misfit.report (byteSize front)) ∧
    ∀ (k k' : Kind) lexeme longer rest, k.SpelledBy lexeme → k.EndsBefore rest →
      k'.SpelledBy longer → longer <+: lexeme ++ rest → longer.length ≤ lexeme.length := by
  have size : 0 + byteSize source.toList = source.utf8ByteSize := by
    rw [Nat.zero_add, Token.byteSize_toList]
  have start : tokenize source = (Cursor.mk 0 source.toList).tokens := rfl
  obtain ⟨front, rest, words, eq, h, stops⟩ := Segmented.exists_words source.toList 0
  refine ⟨fun tokens => ?_, fun e => ?_, ?_⟩
  · constructor
    · exact exists_segmented_of_tokenize
    · intro ⟨words, h, eq⟩
      rw [start, Cursor.tokens_of_segmented h, size, eq]
  · constructor
    · intro failed
      cases stops with
      | inl atEnd =>
        subst atEnd
        rw [List.append_nil] at eq
        subst eq
        rw [start, Cursor.tokens_of_segmented h] at failed
        cases failed
      | inr stops =>
        obtain ⟨m, unreadable⟩ := stops
        rw [start, eq, Cursor.tokens_of_unreadable h unreadable, Nat.zero_add] at failed
        refine ⟨front, rest, words, m, eq, h, unreadable, ?_, (Except.error.inj failed).symm⟩
        intro k lexeme after split spelled
        rw [split] at unreadable
        exact unreadable.not_token spelled
    · intro h
      obtain ⟨front, rest, words, m, eq, h, unreadable, -, report⟩ := h
      rw [start, eq, Cursor.tokens_of_unreadable h unreadable, Nat.zero_add, report]
  · intro k k' lexeme longer rest spelled ends spelled' front
    exact spelled.longest ends spelled' front

/-- A name of one letter that takes two bytes, a sign of two characters and an integer with a
leading zero; and the same in front of a lone `!`. -/
theorem tokenize_iff_segmented_two_bytes :
    Segmented 0 "é <=07".toList [] [⟨.identifier "é", ⟨0, 2⟩⟩, ⟨.symbol (.value .le), ⟨3, 5⟩⟩,
      ⟨.integer 7, ⟨5, 7⟩⟩] ∧
    (∃ front rest words misfit, "é <=07 !".toList = front ++ rest ∧ Segmented 0 front rest words ∧
      Unreadable rest misfit ∧ .unexpectedCharacter '!' 8 = misfit.report (byteSize front)) ∧
    ['<'].length ≤ ['<', '='].length := by
  have made : tokenize "é <=07" = .ok ([⟨.identifier "é", ⟨0, 2⟩⟩, ⟨.symbol (.value .le), ⟨3, 5⟩⟩,
      ⟨.integer 7, ⟨5, 7⟩⟩] ++ [⟨.eof, ⟨7, 7⟩⟩]) := by decide +kernel
  have failed : tokenize "é <=07 !" = .error (.unexpectedCharacter '!' 8) := by decide +kernel
  obtain ⟨ok_iff, -, longest⟩ := tokenize_iff_segmented "é <=07"
  obtain ⟨-, error_iff, -⟩ := tokenize_iff_segmented "é <=07 !"
  refine ⟨?_, ?_, ?_⟩
  · obtain ⟨words, segmented, eq⟩ := (ok_iff _).1 made
    rwa [← (List.append_inj' eq rfl).1] at segmented
  · obtain ⟨front, rest, words, m, eq, segmented, unreadable, -, report⟩ := (error_iff _).1 failed
    exact ⟨front, rest, words, m, eq, segmented, unreadable, report⟩
  · exact longest (.symbol (.value .le)) (.symbol (.value .lt)) _ _ ['7'] rfl (fun _ _ => rfl) rfl
      (by simp)

end Reckon
