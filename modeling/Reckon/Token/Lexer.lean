import Reckon.Text.Blank
import Reckon.Text.Letter
import Reckon.Text.Numeral
import Reckon.Token

/-!
# Lexer

A line is cut into tokens from left to right, each as long as it can be. `read` takes one token off
the head of a text that does not start blank; `Cursor.next` skips blanks before it and keeps count of
bytes. `tokenize` repeats it to the end of the line or the first error.

A `Lexer` gives the same tokens one at a time. An error does not stop it: a lone `!` and an integer
that is too large are consumed with their error, so it goes on behind them, while a character that
starts no token stays where it is.

Main statements:
* `read_split`: what is consumed and what is left make up the text.
* `Cursor.next_shorter`: a token other than the end of the line shortens the text.
-/

namespace Reckon

open Text

/-- A place in the line where no token can be read. -/
inductive LexError where
  | unexpectedCharacter (c : Char) (position : Nat)
  | invalidInteger (literal : String) (position : Nat)
  deriving DecidableEq

/-- The report of a lexical error. -/
def LexError.message : LexError → String
  | .unexpectedCharacter c position =>
    "Unexpected character '" ++ c.toString ++ "' at position " ++ position.repr
  | .invalidInteger literal position =>
    "Invalid integer literal '" ++ literal ++ "' at position " ++ position.repr

namespace Token

/-- Whether a name may start with this character. -/
def startsName (c : Char) : Bool := isLetter c || c == '_'

/-- Whether a name may go on with this character. -/
def continuesName (c : Char) : Bool := isLetter c || isNumeral c || c == '_'

/-- The token that a character is whatever follows it. -/
def single? : Char → Option Kind
  | '+' => some (.symbol (.value .add))
  | '-' => some (.symbol (.value .sub))
  | '*' => some (.symbol (.value .mul))
  | '/' => some (.symbol (.value .div))
  | '%' => some (.symbol (.value .rem))
  | '?' => some .question
  | ':' => some .colon
  | '~' => some .tilde
  | ',' => some .comma
  | '(' => some .lparen
  | ')' => some .rparen
  | _ => none

/-- For a character that makes one token with a following `=`: the token it is without it, if it is
one, and the token it makes with it. -/
def beforeEqual? : Char → Option (Option Kind × Kind)
  | '=' => some (some (.symbol .assign), .symbol (.value .eq))
  | '<' => some (some (.symbol (.value .lt)), .symbol (.value .le))
  | '>' => some (some (.symbol (.value .gt)), .symbol (.value .ge))
  | '!' => some (none, .symbol (.value .ne))
  | _ => none

/-- The token that a name is: the keyword or an identifier. -/
def ofName (name : String) : Kind := if name = "deffn" then .deffn else .identifier name

/-- Why a text starts with no token. -/
inductive Misfit where
  | character (c : Char)
  | integer (literal : String)
  deriving DecidableEq

/-- The token that a run of digits is, unless its value is too large for an integer of 64 bits. -/
def ofDigits (digits : List Char) : Except Misfit Kind :=
  if digitsValue digits < Nat.pow 2 63 then .ok (.integer (Int64.ofNat (digitsValue digits)))
  else .error (.integer (String.ofList digits))

/-- What was read at the head of a text: the outcome, the characters it consumed and the rest. -/
structure Reading where
  outcome : Except Misfit Kind
  lexeme : List Char
  rest : List Char

/-- The longest token at the head of the text `c :: cs`. -/
def read (c : Char) (cs : List Char) : Reading :=
  match single? c with
  | some k => ⟨.ok k, [c], cs⟩
  | none =>
    match beforeEqual? c with
    | some (short?, long) =>
      match cs, short? with
      | '=' :: rest, _ => ⟨.ok long, [c, '='], rest⟩
      | _, some short => ⟨.ok short, [c], cs⟩
      | _, none => ⟨.error (.character c), [c], cs⟩
    | none =>
      if startsName c then
        let lexeme := c :: cs.takeWhile continuesName
        ⟨.ok (ofName (String.ofList lexeme)), lexeme, cs.dropWhile continuesName⟩
      else if c.isDigit then
        let lexeme := c :: cs.takeWhile Char.isDigit
        ⟨ofDigits lexeme, lexeme, cs.dropWhile Char.isDigit⟩
      else ⟨.error (.character c), [], c :: cs⟩

/-- Nothing is lost: the lexeme and the rest make up the text. -/
theorem read_split (c : Char) (cs : List Char) :
    (read c cs).lexeme ++ (read c cs).rest = c :: cs := by
  rw [read]
  split
  · rfl
  · split
    · split <;> rfl
    · split
      · simp
      · split
        · simp
        · rfl

/-- A token has a lexeme. -/
theorem read_lexeme_ne_nil {c : Char} {cs : List Char} {k : Kind}
    (h : (read c cs).outcome = .ok k) : (read c cs).lexeme ≠ [] := by
  unfold read at h ⊢
  split
  · simp
  · split
    · split <;> simp
    · split
      · simp
      · split
        · simp
        · simp_all

/-- No token is the end of the line. -/
theorem read_ne_eof {c : Char} {cs : List Char} : (read c cs).outcome ≠ .ok .eof := by
  have single : single? c ≠ some .eof := by unfold single?; split <;> simp
  have equal : ∀ short long, beforeEqual? c = some (short, long) →
      short ≠ some .eof ∧ long ≠ .eof := by
    intro short long h
    unfold beforeEqual? at h
    split at h <;> simp_all <;> rcases h with ⟨rfl, rfl⟩ <;> simp
  unfold read
  split
  · simp_all
  · split
    · rename_i short long h
      have := equal short long h
      split <;> simp_all
    · split
      · simp only [ofName]
        split <;> simp
      · split
        · simp only [ofDigits]
          split <;> simp
        · simp

/-- Number of bytes that characters take in UTF-8. -/
def byteSize : List Char → Nat
  | [] => 0
  | c :: cs => c.utf8Size + byteSize cs

/-- The bytes of two texts together are those of each. -/
@[simp] theorem byteSize_append (xs ys : List Char) :
    byteSize (xs ++ ys) = byteSize xs + byteSize ys := by
  induction xs with
  | nil => simp [byteSize]
  | cons c cs ih => simp [byteSize, ih, Nat.add_assoc]

end Token

/-- A place in a line: its distance from the start in bytes, and the text from there on. -/
structure Cursor where
  offset : Nat
  rest : List Char

namespace Cursor

/-- The start of a line. -/
def ofString (s : String) : Cursor := ⟨0, s.toList⟩

/-- The place behind the blanks that stand here. -/
def skipBlank (c : Cursor) : Cursor :=
  ⟨c.offset + Token.byteSize (c.rest.takeWhile isBlank), c.rest.dropWhile isBlank⟩

/-- The next token or an error, and the place behind what was consumed. -/
def next (c : Cursor) : Except LexError Token × Cursor :=
  let here := c.skipBlank
  match here.rest with
  | [] => (.ok ⟨.eof, ⟨here.offset, here.offset⟩⟩, here)
  | x :: xs =>
    let found := Token.read x xs
    let after := here.offset + Token.byteSize found.lexeme
    let outcome := match found.outcome with
      | .ok kind => .ok ⟨kind, ⟨here.offset, after⟩⟩
      | .error (.character x) => .error (.unexpectedCharacter x here.offset)
      | .error (.integer literal) => .error (.invalidInteger literal here.offset)
    (outcome, ⟨after, found.rest⟩)

/-- A token other than the end of the line leaves a shorter text. -/
theorem next_shorter {c : Cursor} {t : Token} (h : c.next.1 = .ok t) (notEnd : t.kind ≠ .eof) :
    c.next.2.rest.length < c.rest.length := by
  have blanks : c.skipBlank.rest.length ≤ c.rest.length :=
    (List.dropWhile_sublist isBlank).length_le
  unfold next at h ⊢
  simp only at h ⊢
  split at h
  · simp only [Except.ok.injEq] at h
    exact absurd (h ▸ rfl) notEnd
  · rename_i x xs eq
    rw [eq] at blanks
    simp only at h ⊢
    split at h
    · rename_i kind found
      have split := congrArg List.length (Token.read_split x xs)
      have lexeme := List.length_pos_iff.2 (Token.read_lexeme_ne_nil found)
      simp only [List.length_append] at split
      simp only [List.length_cons] at split blanks
      omega
    · cases h
    · cases h

/-- The tokens from here to the end of the line, which is the last of them. -/
def tokens (c : Cursor) : Except LexError (List Token) :=
  match h : c.next with
  | (.error e, _) => .error e
  | (.ok t, after) =>
    if last : t.kind = .eof then .ok [t]
    else
      have : after.rest.length < c.rest.length := by
        simpa only [h] using next_shorter (congrArg Prod.fst h) last
      after.tokens.map (t :: ·)
termination_by c.rest.length

end Cursor

/-- Cuts a line into tokens. The last one is the end of the line. -/
def tokenize (source : String) : Except LexError (List Token) := (Cursor.ofString source).tokens

/-- A reader of tokens one at a time. It is finished when it has given the end of the line or, as an
iterator, an error. -/
structure Lexer where
  cursor : Cursor
  finished : Bool

namespace Lexer

/-- The reader at the start of a line. -/
def ofString (s : String) : Lexer := ⟨Cursor.ofString s, false⟩

/-- The next token or error, also when the reader is finished. -/
def step (l : Lexer) : Except LexError Token × Lexer :=
  match l.cursor.next with
  | (.ok t, after) => (.ok t, ⟨after, l.finished || t.kind == .eof⟩)
  | (.error e, after) => (.error e, ⟨after, l.finished⟩)

/-- The next item of the iteration, unless the reader is finished. An error is the last item. -/
def next? (l : Lexer) : Option (Except LexError Token × Lexer) :=
  if l.finished then none
  else match l.step with
    | (.ok t, after) => some (.ok t, after)
    | (.error e, after) => some (.error e, ⟨after.cursor, true⟩)

/-- The answers to a number of calls of `step`. -/
def steps : Nat → Lexer → List (Except LexError Token)
  | 0, _ => []
  | n + 1, l => l.step.1 :: steps n l.step.2

end Lexer

end Reckon
