import Mathlib.Logic.Function.Iterate
import Reckon.Proofs.Lexing

/-!
# Readers of tokens

A line can be cut into tokens at once, read as an iteration, or read one token after the other. The
three agree: `Lexer.readers_agree`.

* `Cursor.next_split`, `Cursor.next_shift`, `Cursor.next_of_isFinal`: what one call takes off the text,
  that it does not depend on what is in front, and that it is repeated when it takes nothing off.
* `Lexer.steps_segmented`, `Lexer.pulls_segmented`: the words of a text are the answers to as many calls,
  and the items of an iteration up to the one that is its last.
* `Lexer.step_after_of_isFinal`, `Lexer.isFinal_after`: what is repeated once is repeated for ever, and
  when it comes to that.
-/

namespace Reckon

open Text
open Token (Kind byteSize Unreadable)

/-- The same token in a text with `d` more bytes in front. -/
def Token.shift (d : Nat) (t : Token) : Token := ⟨t.kind, ⟨d + t.span.start, d + t.span.stop⟩⟩

/-- The same error in a text with `d` more bytes in front. -/
def LexError.shift (d : Nat) : LexError → LexError
  | .unexpectedCharacter c position => .unexpectedCharacter c (d + position)
  | .invalidInteger literal position => .invalidInteger literal (d + position)

namespace Lexer

/-- What a call of a reader gives. -/
abbrev Answer := Except LexError Token

/-- The same answer in a text with `d` more bytes in front. -/
def Answer.shift (d : Nat) : Answer → Answer
  | .ok t => .ok (t.shift d)
  | .error e => .error (e.shift d)

/-- After this answer nothing is read any more: the end of the line, or a character with which no token
starts. A lone `!` and an integer that is too large are read over. -/
def Answer.isFinal : Answer → Bool
  | .ok t => t.kind == .eof
  | .error (.unexpectedCharacter c _) => c != '!'
  | .error (.invalidInteger ..) => false

/-- An iteration stops after this answer: the end of the line or an error. -/
def Answer.isLast : Answer → Bool
  | .ok t => t.kind == .eof
  | .error _ => true

/-- The reader after a number of calls of `step`. -/
def after (n : Nat) (l : Lexer) : Lexer := (fun l : Lexer => l.step.2)^[n] l

/-- The answers to a number of calls of the iteration. -/
def pulls : Nat → Lexer → List (Option Answer)
  | 0, _ => []
  | n + 1, l =>
    match l.next? with
    | none => none :: pulls n l
    | some (item, after) => some item :: pulls n after

/-- The answers up to the first that is the last of an iteration, and none instead of those behind. -/
def upToLast : List Answer → List (Option Answer)
  | [] => []
  | item :: items => some item :: if Answer.isLast item then items.map fun _ => none else upToLast items

end Lexer

namespace Token

variable {c : Char} {cs : List Char}

/-- Nothing is taken off a text only by a character with which no token starts. -/
lemma read_of_lexeme_nil (h : (read c cs).lexeme = []) :
    c ≠ '!' ∧ (read c cs).outcome = .error (.character c) := by
  unfold read at h ⊢
  split at h
  · simp at h
  · split at h
    · split at h <;> simp at h
    · rename_i single equal
      split at h
      · simp at h
      · rename_i name
        split at h
        · simp at h
        · rename_i digit
          rw [if_neg name, if_neg digit]
          refine ⟨?_, rfl⟩
          rintro rfl
          cases equal

/-- A character with which no token starts stays where it is. -/
lemma read_of_character {d : Char} (h : (read c cs).outcome = .error (.character d))
    (other : d ≠ '!') : (read c cs).lexeme = [] := by
  unfold read at h ⊢
  split at h
  · cases h
  · split at h
    · rename_i short long equal
      split at h
      · cases h
      · cases h
      · cases h
        obtain ⟨-, -, -, lone, -⟩ := beforeEqual?_spec equal
        exact absurd (lone rfl) other
    · split at h
      · cases h
      · rename_i name
        rw [if_neg name]
        split at h
        · simp only [ofDigits] at h
          split at h <;> cases h
        · rename_i digit
          rw [if_neg digit]

end Token

namespace Cursor

open Lexer (Answer)

variable {c : Char} {cs : List Char} {offset : Nat}

/-- A call is final that takes nothing off a text which does not start blank. -/
lemma isFinal_iff_lexeme_eq_nil (visible : isBlank c = false) :
    Answer.isFinal (Cursor.mk offset (c :: cs)).next.1 = true ↔ (Token.read c cs).lexeme = [] := by
  rw [next_read visible]
  constructor
  · intro final
    rcases found : (Token.read c cs).outcome with (d | literal) | k
    · have other : d ≠ '!' := by
        rw [found] at final
        exact bne_iff_ne.1 final
      exact Token.read_of_character found other
    · rw [found] at final
      cases final
    · rw [found] at final
      obtain rfl : k = .eof := beq_iff_eq.1 final
      exact absurd found Token.read_ne_eof
  · intro nothing
    obtain ⟨other, failed⟩ := Token.read_of_lexeme_nil nothing
    rw [failed]
    exact bne_iff_ne.2 other

/-- What a call takes off the text, which is something unless the call is final. -/
lemma next_split (offset : Nat) (text : List Char) :
    ∃ taken, text = taken ++ (Cursor.mk offset text).next.2.rest ∧
      (Cursor.mk offset text).next.2.offset = offset + byteSize taken ∧
      (Answer.isFinal (Cursor.mk offset text).next.1 = false → taken ≠ []) := by
  induction text generalizing offset with
  | nil => exact ⟨[], rfl, rfl, nofun⟩
  | cons c cs ih =>
    cases visible : isBlank c with
    | true =>
      obtain ⟨taken, split, size, -⟩ := ih (offset + byteSize [c])
      rw [next_blank visible]
      refine ⟨c :: taken, congrArg (c :: ·) split, ?_, fun _ => List.cons_ne_nil c taken⟩
      rw [size, Nat.add_assoc, ← Token.byteSize_append]
      rfl
    | false =>
      have final : Answer.isFinal (Cursor.mk offset (c :: cs)).next.1 = true ↔ _ :=
        isFinal_iff_lexeme_eq_nil visible
      rw [next_read visible] at final ⊢
      refine ⟨(Token.read c cs).lexeme, (Token.read_split c cs).symm, rfl, fun running nothing => ?_⟩
      cases running.symm.trans (final.2 nothing)

/-- What is in front of a text only shifts what is read. -/
lemma next_shift (d offset : Nat) (text : List Char) :
    (Cursor.mk (d + offset) text).next = (Answer.shift d (Cursor.mk offset text).next.1,
      ⟨d + (Cursor.mk offset text).next.2.offset, (Cursor.mk offset text).next.2.rest⟩) := by
  induction text generalizing offset with
  | nil => rfl
  | cons c cs ih =>
    cases visible : isBlank c with
    | true => rw [next_blank visible, next_blank visible, Nat.add_assoc, ih]
    | false =>
      rw [next_read visible, next_read visible]
      rcases (Token.read c cs).outcome with (_ | _) | _ <;>
        simp [Token.Misfit.report, Answer.shift, LexError.shift, Token.shift, Nat.add_assoc]

/-- A final call is repeated. -/
lemma next_of_isFinal {text : List Char}
    (final : Answer.isFinal (Cursor.mk offset text).next.1 = true) :
    (Cursor.mk offset text).next.2.next = (Cursor.mk offset text).next := by
  induction text generalizing offset with
  | nil => rfl
  | cons c cs ih =>
    cases visible : isBlank c with
    | true =>
      rw [next_blank visible] at final ⊢
      exact ih final
    | false =>
      have nothing := (isFinal_iff_lexeme_eq_nil visible).1 final
      have rest : (Token.read c cs).rest = c :: cs := by
        simpa [nothing] using Token.read_split c cs
      have stays : (Cursor.mk offset (c :: cs)).next.2 = ⟨offset, c :: cs⟩ := by
        rw [next_read visible, nothing, rest]
        rfl
      rw [stays]

end Cursor

namespace Lexer

variable {l l' : Lexer} {n : Nat} {text rest : List Char} {words : List Token} {offset : Nat}

section Steps

/-- A call answers with the next token. -/
lemma step_fst (l : Lexer) : l.step.1 = l.cursor.next.1 := by
  rw [step]
  rcases l.cursor.next with ⟨_ | _, _⟩ <;> rfl

/-- A call moves the cursor behind the next token. -/
lemma step_cursor (l : Lexer) : l.step.2.cursor = l.cursor.next.2 := by
  rw [step]
  rcases l.cursor.next with ⟨_ | _, _⟩ <;> rfl

/-- A reader is finished once it gave the end of the text. -/
lemma finished_of_step {t : Token} (h : l.step = (.ok t, l')) :
    l'.finished = (l.finished || t.kind == .eof) := by
  rcases call : l.cursor.next with ⟨_ | _, _⟩
  · rw [step, call] at h
    cases h
  · rw [step, call] at h
    cases h
    rfl

/-- A number of calls begins with one. -/
lemma after_succ (n : Nat) (l : Lexer) : l.after (n + 1) = l.step.2.after n := rfl

/-- A number of calls ends with one. -/
lemma after_succ' (n : Nat) (l : Lexer) : l.after (n + 1) = (l.after n).step.2 :=
  Function.iterate_succ_apply' _ n l

/-- Calls may be counted in two parts. -/
lemma after_add (m n : Nat) (l : Lexer) : l.after (n + m) = (l.after n).after m := by
  rw [Nat.add_comm]
  exact Function.iterate_add_apply _ m n l

/-- Each call has one answer. -/
lemma length_steps (n : Nat) (l : Lexer) : (l.steps n).length = n := by
  induction n generalizing l with
  | zero => rfl
  | succ n ih => rw [steps, List.length_cons, ih]

/-- The answers depend on the place only. -/
lemma steps_congr (same : l.cursor = l'.cursor) : l.steps n = l'.steps n := by
  induction n generalizing l l' with
  | zero => rfl
  | succ n ih =>
    have next : l.step.2.cursor = l'.step.2.cursor := by rw [step_cursor, step_cursor, same]
    rw [steps, steps, step_fst, step_fst, same, ih next]

/-- The same text behind `d` more bytes gives the same answers, `d` bytes further on. -/
lemma steps_shift {d : Nat} (moved : l'.cursor = ⟨d + l.cursor.offset, l.cursor.rest⟩) :
    l'.steps n = (l.steps n).map (Answer.shift d) := by
  induction n generalizing l l' with
  | zero => rfl
  | succ n ih =>
    have call : l'.cursor.next = (Answer.shift d l.cursor.next.1,
        ⟨d + l.cursor.next.2.offset, l.cursor.next.2.rest⟩) := by
      rw [moved]
      exact Cursor.next_shift d l.cursor.offset l.cursor.rest
    have next : l'.step.2.cursor = ⟨d + l.step.2.cursor.offset, l.step.2.cursor.rest⟩ := by
      rw [step_cursor, step_cursor, call]
    rw [steps, steps, List.map_cons, step_fst, step_fst, call, ih next]

/-- Blanks in front do not change the answers. -/
lemma steps_blank {c : Char} {cs : List Char} {finished : Bool} (blank : isBlank c = true) :
    (Lexer.mk ⟨offset, c :: cs⟩ finished).steps n =
      (Lexer.mk ⟨offset + byteSize [c], cs⟩ finished).steps n := by
  cases n with
  | zero => rfl
  | succ n => rw [steps, steps, step, step, Cursor.next_blank blank]

/-- The words of the front of a text are the answers to as many calls. -/
lemma steps_segmented {finished : Bool} (h : Segmented offset text rest words) :
    (Lexer.mk ⟨offset, text ++ rest⟩ finished).steps (words.length + n) =
      words.map .ok ++ (Lexer.mk ⟨offset + byteSize text, rest⟩ finished).steps n := by
  induction h using Segmented.induction with
  | nil offset => rw [List.length_nil, Nat.zero_add]; rfl
  | blank offset c text words h blank ih =>
    rw [List.cons_append, steps_blank blank, ih, Nat.add_assoc, ← Token.byteSize_append]
    rfl
  | token offset k lexeme behind others spelled ends tail ih =>
    have call : (Cursor.mk offset (lexeme ++ (behind ++ rest))).next = _ :=
      Cursor.next_token spelled ends
    have next : (Lexer.mk ⟨offset, lexeme ++ (behind ++ rest)⟩ finished).step.2.cursor =
        (Lexer.mk ⟨offset + byteSize lexeme, behind ++ rest⟩ finished).cursor := by
      rw [step_cursor, call]
    rw [List.length_cons, Nat.add_right_comm, List.append_assoc, steps, step_fst, call,
      steps_congr next, ih, Token.byteSize_append, ← Nat.add_assoc]
    rfl

end Steps

section Final

/-- What one call takes off the text. -/
lemma step_split (l : Lexer) : ∃ taken, l.cursor.rest = taken ++ l.step.2.cursor.rest ∧
    l.step.2.cursor.offset = l.cursor.offset + byteSize taken ∧
    (Answer.isFinal l.step.1 = false → taken ≠ []) := by
  rw [step_fst, step_cursor]
  exact Cursor.next_split l.cursor.offset l.cursor.rest

/-- Any number of calls only moves on in the text. -/
lemma after_split (n : Nat) (l : Lexer) : ∃ taken, l.cursor.rest = taken ++ (l.after n).cursor.rest ∧
    (l.after n).cursor.offset = l.cursor.offset + byteSize taken := by
  induction n with
  | zero => exact ⟨[], rfl, rfl⟩
  | succ n ih =>
    obtain ⟨taken, split, size⟩ := ih
    obtain ⟨more, split', size', -⟩ := step_split (l.after n)
    rw [after_succ']
    refine ⟨taken ++ more, ?_, ?_⟩
    · rw [split, split', List.append_assoc]
    · rw [size', size, Token.byteSize_append, Nat.add_assoc]

/-- An answer that is final is given again. -/
lemma step_of_isFinal (final : Answer.isFinal l.step.1 = true) : l.step.2.step = l.step := by
  have again := Cursor.next_of_isFinal (step_fst l ▸ final)
  rw [step_fst] at final
  rcases call : l.cursor.next with ⟨e | t, place⟩
  · rw [call] at again
    simp only [step, call, again]
  · rw [call] at final again
    have last : (t.kind == .eof) = true := final
    simp only [step, call, again, last, Bool.or_true]

/-- A final call is repeated by every later one. -/
lemma step_after_of_isFinal (final : Answer.isFinal l.step.1 = true) (k : Nat) :
    (l.after k).step = l.step := by
  induction k with
  | zero => rfl
  | succ k ih =>
    have final' : Answer.isFinal (l.after k).step.1 = true := by rw [ih, final]
    rw [after_succ', step_of_isFinal final', ih]

/-- Each call that is not final takes a character, so one of as many calls as there are characters,
or the next, is final. -/
lemma isFinal_after (short : l.cursor.rest.length ≤ n) :
    Answer.isFinal (l.after n).step.1 = true := by
  induction n generalizing l with
  | zero =>
    have nothing : l.cursor.rest = [] := List.eq_nil_of_length_eq_zero (Nat.le_zero.1 short)
    obtain ⟨⟨offset, rest⟩, finished⟩ := l
    obtain rfl : rest = [] := nothing
    rfl
  | succ n ih =>
    cases final : Answer.isFinal l.step.1 with
    | true => rw [step_after_of_isFinal final, final]
    | false =>
      obtain ⟨taken, split, -, some⟩ := step_split l
      have shorter := congrArg List.length split
      have := List.length_pos_iff.2 (some final)
      rw [List.length_append] at shorter
      rw [after_succ]
      exact ih (by omega)

end Final

section Iteration

/-- A finished reader gives nothing. -/
lemma pulls_finished (finished : l.finished = true) : l.pulls n = .replicate n none := by
  induction n with
  | zero => rfl
  | succ n ih => rw [pulls, next?, if_pos finished, ih, List.replicate_succ]

/-- Answers that are not the last one are all given. -/
lemma upToLast_append {front back : List Answer} (going : ∀ a ∈ front, Answer.isLast a = false) :
    upToLast (front ++ back) = front.map some ++ upToLast back := by
  induction front with
  | nil => rfl
  | cons a front ih =>
    obtain ⟨first, going⟩ := List.forall_mem_cons.1 going
    rw [List.cons_append, upToLast, first, ih going]
    rfl

/-- Behind the last answer nothing is given. -/
lemma upToLast_last {item : Answer} {items : List Answer} (last : Answer.isLast item = true) :
    upToLast (item :: items) = some item :: .replicate items.length none := by
  rw [upToLast, if_pos last, List.map_const']

/-- The items of an iteration are the answers up to the first that is its last. -/
lemma pulls_eq (running : l.finished = false) : l.pulls n = upToLast (l.steps n) := by
  induction n generalizing l with
  | zero => rfl
  | succ n ih =>
    rcases call : l.step with ⟨e | t, next⟩
    · rw [pulls, next?, if_neg (by simp [running]), call, steps, call]
      rw [upToLast_last rfl, length_steps]
      exact congrArg _ (pulls_finished rfl)
    · rw [pulls, next?, if_neg (by simp [running]), call, steps, call]
      have state : next.finished = Answer.isLast (.ok t) := by
        rw [finished_of_step call, running]
        rfl
      cases last : Answer.isLast (.ok t) with
      | true =>
        rw [upToLast_last last, length_steps]
        exact congrArg _ (pulls_finished (state.trans last))
      | false =>
        rw [upToLast, if_neg (by simp [last]), ← ih (state.trans last)]

/-- An iteration through the words of a text up to something that is the last. -/
lemma pulls_segmented (h : Segmented offset text rest words)
    (last : Answer.isLast (Cursor.mk (offset + byteSize text) rest).next.1 = true) (k : Nat) :
    (Lexer.mk ⟨offset, text ++ rest⟩ false).pulls (words.length + 1 + k) =
      words.map (fun t => some (.ok t)) ++
        some (Cursor.mk (offset + byteSize text) rest).next.1 :: .replicate k none := by
  have going : ∀ a ∈ words.map Except.ok, Answer.isLast a = false := by
    intro a mem
    obtain ⟨t, word, rfl⟩ := List.mem_map.1 mem
    obtain ⟨_, lexeme, _, _, _, _, spelled⟩ := h.stand t word
    exact beq_eq_false_iff_ne.2 spelled.1.ne_eof
  rw [pulls_eq rfl, Nat.add_assoc, steps_segmented h, upToLast_append going, Nat.add_comm 1 k, steps,
    step_fst, upToLast_last last, length_steps, List.map_map]
  rfl

end Iteration

/-- Cutting a line at once, the iteration and single calls give the same. The iteration gives the answers
to single calls up to the end of the line or the first error, and nothing any more. It gives all tokens
of a line that is cut, and otherwise the tokens of the part in front of the error, then the error.

Of any number of single calls, none goes back in the text. A call that gives a token other than the end
of the line, the error of a lone `!` or that of an integer which is too large goes on by a character at
least. What is answered from a place on is what is answered for the text from there on, with all places
moved by that of the text. Any other call is repeated by all later ones, with the same answer and at the
same place; so after one call more than there are characters nothing changes any more. -/
theorem readers_agree (source : String) :
    (∀ n, (ofString source).pulls n = upToLast ((ofString source).steps n)) ∧
    (∀ tokens, tokenize source = .ok tokens →
      (ofString source).steps tokens.length = tokens.map .ok ∧
      ∀ k, (ofString source).pulls (tokens.length + k) =
        tokens.map (fun t => some (.ok t)) ++ .replicate k none) ∧
    (∀ e, tokenize source = .error e → ∃ front rest words misfit,
      source.toList = front ++ rest ∧ Segmented 0 front rest words ∧ Unreadable rest misfit ∧
      e = misfit.report (byteSize front) ∧
      (ofString source).steps (words.length + 1) = words.map .ok ++ [.error e] ∧
      ∀ k, (ofString source).pulls (words.length + 1 + k) =
        words.map (fun t => some (.ok t)) ++ some (.error e) :: .replicate k none) ∧
    (∀ n l, (ofString source).after n = l →
      (∃ front, source.toList = front ++ l.cursor.rest ∧ l.cursor.offset = byteSize front) ∧
      (∃ taken, l.cursor.rest = taken ++ l.step.2.cursor.rest ∧
        l.step.2.cursor.offset = l.cursor.offset + byteSize taken ∧
        (Answer.isFinal l.step.1 = false → taken ≠ [])) ∧
      (∀ m, l.steps m =
        ((ofString (String.ofList l.cursor.rest)).steps m).map (Answer.shift l.cursor.offset)) ∧
      (Answer.isFinal l.step.1 = true → ∀ k, (l.after k).step = l.step) ∧
      (source.length ≤ n → l.step = ((ofString source).after source.length).step)) := by
  have single : ∀ {l : Lexer}, l.steps 1 = [l.cursor.next.1] := fun {l} =>
    congrArg (fun a => [a]) (step_fst l)
  refine ⟨fun n => pulls_eq rfl, fun tokens ok => ?_, fun e failed => ?_, ?_⟩
  · obtain ⟨words, h, rfl⟩ := exists_segmented_of_tokenize ok
    have last : (Cursor.mk (0 + byteSize source.toList) []).next.1 =
        .ok ⟨.eof, ⟨source.utf8ByteSize, source.utf8ByteSize⟩⟩ := by
      rw [Nat.zero_add, Token.byteSize_toList]
      rfl
    have start : ofString source = ⟨⟨0, source.toList ++ []⟩, false⟩ := by
      rw [List.append_nil]
      rfl
    rw [start, List.length_append, List.length_singleton, List.map_append]
    refine ⟨?_, fun k => ?_⟩
    · rw [steps_segmented h, single, last]
      rfl
    · rw [pulls_segmented h (by rw [last]; rfl), last, List.map_append, List.append_assoc]
      rfl
  · obtain ⟨front, rest, words, m, eq, h, unreadable, -, report⟩ :=
      ((tokenize_iff_segmented source).2.1 e).1 failed
    have last : (Cursor.mk (0 + byteSize front) rest).next.1 = .error e := by
      rw [Cursor.next_unreadable unreadable, report, Nat.zero_add]
    have start : ofString source = ⟨⟨0, front ++ rest⟩, false⟩ := by
      rw [← eq]
      rfl
    rw [start]
    refine ⟨front, rest, words, m, eq, h, unreadable, report, ?_, fun k => ?_⟩
    · rw [steps_segmented h, single, last]
    · rw [pulls_segmented h (by rw [last]; rfl), last]
  · intro n l reached
    refine ⟨?_, step_split l, fun m => ?_, step_after_of_isFinal, fun long => ?_⟩
    · obtain ⟨front, split, size⟩ := after_split n (ofString source)
      rw [reached] at split size
      exact ⟨front, split, size.trans (Nat.zero_add _)⟩
    · apply steps_shift
      simp [ofString, Cursor.ofString]
    · obtain ⟨k, rfl⟩ := Nat.exists_eq_add_of_le long
      have final : Answer.isFinal ((ofString source).after source.length).step.1 = true :=
        isFinal_after (Nat.le_refl _)
      rw [← reached, after_add, step_after_of_isFinal final]

/-- A line that is cut; one with a lone `!`, where an iteration stops; and the same line call by call,
which goes on behind the `!` and the integer that is too large and stays at the `@`. -/
theorem readers_agree_resumed :
    (∀ k, (ofString "é+1").pulls (4 + k) =
      [⟨.identifier "é", ⟨0, 2⟩⟩, ⟨.symbol (.value .add), ⟨2, 3⟩⟩, ⟨.integer 1, ⟨3, 4⟩⟩,
        ⟨.eof, ⟨4, 4⟩⟩].map (fun t => some (.ok t)) ++ .replicate k none) ∧
    (∃ words : List Token, ∀ k, (ofString "a ! 9223372036854775808 @").pulls (words.length + 1 + k) =
      words.map (fun t => some (.ok t)) ++
        some (.error (.unexpectedCharacter '!' 2)) :: .replicate k none) ∧
    (ofString "a ! 9223372036854775808 @").steps 4 =
      [.ok ⟨.identifier "a", ⟨0, 1⟩⟩, .error (.unexpectedCharacter '!' 2),
        .error (.invalidInteger "9223372036854775808" 4), .error (.unexpectedCharacter '@' 24)] ∧
    ∀ k, (((ofString "a ! 9223372036854775808 @").after 3).after k).step.1 =
      .error (.unexpectedCharacter '@' 24) := by
  obtain ⟨-, cut, -, -⟩ := readers_agree "é+1"
  obtain ⟨-, -, failed, calls⟩ := readers_agree "a ! 9223372036854775808 @"
  refine ⟨?_, ?_, by decide +kernel, fun k => ?_⟩
  · exact (cut [⟨.identifier "é", ⟨0, 2⟩⟩, ⟨.symbol (.value .add), ⟨2, 3⟩⟩, ⟨.integer 1, ⟨3, 4⟩⟩,
      ⟨.eof, ⟨4, 4⟩⟩] (by decide +kernel)).2
  · obtain ⟨-, -, words, -, -, -, -, -, -, pulls⟩ :=
      failed (.unexpectedCharacter '!' 2) (by decide +kernel)
    exact ⟨words, pulls⟩
  · obtain ⟨-, -, -, repeated, -⟩ := calls 3 _ rfl
    rw [repeated (by decide +kernel) k]
    decide +kernel

end Lexer

end Reckon
