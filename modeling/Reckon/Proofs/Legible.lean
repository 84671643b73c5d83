import Reckon.Expr
import Reckon.Proofs.Spelling

/-!
# What a rendering tells

The postfix rendering of an expression has no parentheses around operations, yet it tells the tree. It
is a row of pieces with a blank between any two of them (`Expr.text_eq_intercalate`): operands, which
are literals, names of variables, conditionals and calls, and symbols. The pieces tell the tree, read
with a stack (`Expr.foldl_push_pieces`), and the text tells the pieces.

A text is read from the left, so what is shown of each part is that it is told whatever stands behind it,
if a reader stops there (`Told`). This goes from the members of a row to the row (`told_intercalate`),
from the expressions inside a piece to the piece (`Piece.told`), and so up the tree
(`Expr.Named.legible`).
-/

namespace Reckon

open Text
open Token (isName continuesName startsName)

section Codes

variable {α : Type} {stop stop' : Char → Bool} {ok : α → Prop} {chars : α → List Char} {x : α}
  {xs : List α} {c d : Char} {rest : List Char}

/-- A reader stops in front of these characters, be it that there are none. -/
def Stops (stop : Char → Bool) (rest : List Char) : Prop := ∀ c ∈ rest.head?, stop c = true

/-- What is written for `x` is told, whatever stands behind it, if a reader stops there: nothing else that
is `ok` could have been written, and it ends at one place only. -/
def Told (stop : Char → Bool) (ok : α → Prop) (chars : α → List Char) (x : α) : Prop :=
  ∀ y, ok y → ∀ rest rest', Stops stop rest → Stops stop rest' →
    chars x ++ rest = chars y ++ rest' → x = y ∧ rest = rest'

/-- The end of a text stops everything. -/
lemma stops_nil (stop : Char → Bool) : Stops stop [] := nofun

/-- A text stops what its first character does. -/
lemma stops_cons (here : stop c = true) (rest : List Char) : Stops stop (c :: rest) := by
  intro d mem
  cases mem
  exact here

/-- What starts with another character does not stop a reader. -/
lemma Stops.ne_cons (h : Stops stop rest) (other : stop c = false) (cs : List Char) :
    rest ≠ c :: cs := by
  rintro rfl
  cases (h c rfl).symm.trans other

/-- What stops one kind stops every kind that more characters stop. -/
lemma Stops.mono (h : Stops stop rest) (le : ∀ c, stop c = true → stop' c = true) :
    Stops stop' rest :=
  fun c mem => le c (h c mem)

/-- What is told in front of more characters is told in front of fewer. -/
lemma Told.mono (h : Told stop' ok chars x) (le : ∀ c, stop c = true → stop' c = true) :
    Told stop ok chars x :=
  fun y hy rest rest' stops stops' => h y hy rest rest' (stops.mono le) (stops'.mono le)

/-- Texts without a character at which a reader stops end where it stops. -/
lemma told_of_inside (inside : ∀ y, ok y → ∀ c ∈ chars y, stop c = false)
    (inj : ∀ x y, chars x = chars y → x = y) (hx : ok x) : Told stop ok chars x := by
  intro y hy rest rest' stops stops' same
  have text : ∀ z, ok z → ∀ c ∈ chars z, (!stop c) = true := by
    intro z hz c mem
    rw [inside z hz c mem]
    rfl
  have ends : ∀ {rest}, Stops stop rest → ∀ c ∈ rest.head?, (!stop c) = false := by
    intro rest stops c here
    rw [stops c here]
    rfl
  obtain ⟨written, behind⟩ :=
    Token.append_inj_of_stop (text x hx) (text y hy) (ends stops) (ends stops') same
  exact ⟨inj x y written, behind⟩

/-- A row is told if its members are, in front of the separator as well as of what ends the row. -/
lemma told_intercalate (separates : stop d = false)
    (starts : ∀ y, ok y → ∃ c cs, chars y = c :: cs ∧ stop c = false)
    (all : ∀ x ∈ xs, ok x ∧ Told (fun c => c == d || stop c) ok chars x) :
    Told stop (fun ys => ∀ y ∈ ys, ok y) (fun ys => [d].intercalate (ys.map chars)) xs := by
  have separator : ∀ rest, Stops (fun c => c == d || stop c) (d :: rest) :=
    stops_cons (by simp)
  have ends : ∀ {rest}, Stops stop rest → Stops (fun c => c == d || stop c) rest := fun stops =>
    stops.mono fun c here => by simp [here]
  -- a row does not end where another one starts
  have filled : ∀ {y ys rest rest'}, ok y → Stops stop rest →
      rest ≠ [d].intercalate ((y :: ys).map chars) ++ rest' := by
    intro y ys rest rest' hy stops
    obtain ⟨c, cs, first, goes⟩ := starts y hy
    cases ys with
    | nil => simpa [first] using stops.ne_cons goes _
    | cons z ys => simpa [first] using stops.ne_cons goes _
  induction xs with
  | nil =>
    intro ys oks rest rest' stops stops' same
    cases ys with
    | nil => exact ⟨rfl, same⟩
    | cons y ys => exact absurd same (filled (oks y (by simp)) stops)
  | cons x xs ih =>
    obtain ⟨⟨hx, told⟩, others⟩ := List.forall_mem_cons.1 all
    intro ys oks rest rest' stops stops' same
    cases ys with
    | nil => exact absurd same.symm (filled hx stops')
    | cons y ys =>
      obtain ⟨hy, hys⟩ := List.forall_mem_cons.1 oks
      -- where only one row goes on, a reader of the other would have to stop at the separator
      cases xs with
      | nil =>
        cases ys with
        | nil =>
          obtain ⟨rfl, behind⟩ := told y hy _ _ (ends stops) (ends stops') (by simpa using same)
          exact ⟨rfl, behind⟩
        | cons z ys =>
          obtain ⟨-, behind⟩ := told y hy rest _ (ends stops) (separator _) (by simpa using same)
          exact absurd behind (stops.ne_cons separates _)
      | cons w xs =>
        cases ys with
        | nil =>
          obtain ⟨-, behind⟩ := told y hy _ rest' (separator _) (ends stops') (by simpa using same)
          exact absurd behind.symm (stops'.ne_cons separates _)
        | cons z ys =>
          obtain ⟨rfl, behind⟩ := told y hy _ _ (separator _) (separator _) (by simpa using same)
          obtain ⟨row, left⟩ := ih others (z :: ys) hys rest rest' stops stops'
            (List.cons.inj behind).2
          exact ⟨congrArg (x :: ·) row, left⟩

/-- A name is told where it cannot go on. -/
lemma told_name {n : String} (name : isName n.toList = true) :
    Told (!continuesName ·) (fun m => isName m.toList = true) String.toList n := by
  refine told_of_inside (fun m name c mem => ?_) (fun _ _ => String.toList_inj.1) name
  rw [Token.all_continuesName name c mem]
  rfl

/-- A number is told where neither a digit nor a minus sign follows. -/
lemma told_decimal (v : Int64) :
    Told (fun c => c != '-' && !c.isDigit) (fun _ => True) (fun v => (decimal v).toList) v := by
  refine told_of_inside (fun w _ c mem => ?_) (fun v w same => ?_) trivial
  · rw [decimal, String.toList_ofList] at mem
    cases mem_decimalChars mem with
    | inl sign => simp [sign]
    | inr digit => simp [digit]
  · exact decimal_inj.1 (String.toList_inj.1 same)

/-- The first character of a name could also stand inside it. -/
lemma isName_starts {n : String} (name : isName n.toList = true) :
    ∃ c cs, n.toList = c :: cs ∧ continuesName c = true := by
  cases chars : n.toList with
  | nil => simp [chars, isName] at name
  | cons c cs =>
    rw [chars] at name
    exact ⟨c, cs, rfl, Token.all_continuesName name c (List.mem_cons_self ..)⟩

/-- A name with a row in parentheses behind it is told if the members of the row are. -/
lemma told_applied {n m : String} {ys : List α} {rest rest' : List Char}
    (name : isName n.toList = true) (name' : isName m.toList = true)
    (starts : ∀ y, ok y → ∃ c cs, chars y = c :: cs ∧ (c == ')') = false)
    (all : ∀ x ∈ xs, ok x ∧ Told (fun c => c == ',' || c == ')') ok chars x)
    (oks : ∀ y ∈ ys, ok y)
    (same : n.toList ++ '(' :: ([','].intercalate (xs.map chars) ++ ')' :: rest) =
      m.toList ++ '(' :: ([','].intercalate (ys.map chars) ++ ')' :: rest')) :
    n = m ∧ xs = ys ∧ rest = rest' := by
  have opens : ∀ cs, Stops (!continuesName ·) ('(' :: cs) := stops_cons (by decide +kernel)
  obtain ⟨head, row⟩ := told_name name m name' _ _ (opens _) (opens _) same
  have closes : ∀ cs, Stops (· == ')') (')' :: cs) := stops_cons rfl
  obtain ⟨row, behind⟩ := told_intercalate rfl starts all ys oks _ _ (closes _) (closes _)
    (List.cons.inj row).2
  exact ⟨head, row, (List.cons.inj behind).2⟩

end Codes

namespace Symbol

/-- No two symbols are written alike. -/
lemma text_injective {s t : Symbol} (same : s.text = t.text) : s = t := by
  revert same
  cases s with
  | assign =>
    cases t with
    | assign => exact fun _ => rfl
    | value op => cases op <;> decide
  | value op =>
    cases t with
    | assign => cases op <;> decide
    | value op' => cases op <;> cases op' <;> decide

/-- A symbol starts neither as an operand does nor, but for the minus sign, as a number does. -/
lemma text_starts (s : Symbol) : ∃ c cs, s.text.toList = c :: cs ∧ c ≠ '(' ∧ startsName c = false ∧
    c.isDigit = false ∧ (c = '-' → cs = []) := by
  cases s with
  | assign => exact ⟨_, _, rfl, by decide, by decide +kernel, rfl, by decide⟩
  | value op => cases op <;> exact ⟨_, _, rfl, by decide, by decide +kernel, rfl, by decide⟩

end Symbol

/-- A number starts with a digit, after a minus sign if there is one. -/
lemma decimal_starts (v : Int64) : ∃ d ds, d.isDigit = true ∧
    ((decimal v).toList = d :: ds ∨ (decimal v).toList = '-' :: d :: ds) := by
  cases digits : Nat.toDigits 10 v.toInt.natAbs with
  | nil => exact absurd digits Nat.toDigits_ne_nil
  | cons d ds =>
    have mem : d ∈ Nat.toDigits 10 v.toInt.natAbs := digits ▸ List.mem_cons_self ..
    refine ⟨d, ds, Nat.isDigit_of_mem_toDigits (by decide) (by decide) mem, ?_⟩
    rw [decimal, String.toList_ofList, decimalChars, digits]
    split
    · exact .inr rfl
    · exact .inl rfl

/-- A piece of a rendering: an operand or a symbol. -/
inductive Piece where
  | number (value : Int64)
  | name (x : String)
  | conditional (test whenTrue whenFalse : Expr)
  | call (name : String) (args : List Expr)
  | symbol (s : Symbol)

/-- The text of a piece. -/
def Piece.text : Piece → String
  | .number v => decimal v
  | .name x => x
  | .conditional test whenTrue whenFalse => (Expr.cond test whenTrue whenFalse).text
  | .call f args => (Expr.call f args).text
  | .symbol s => s.text

/-- What a piece does to a stack of expressions, the last one first: a symbol joins the last two. -/
def Piece.push : Piece → List Expr → List Expr
  | .number v, stack => .lit v :: stack
  | .name x, stack => .var x :: stack
  | .conditional test whenTrue whenFalse, stack => .cond test whenTrue whenFalse :: stack
  | .call f args, stack => .call f args :: stack
  | .symbol s, right :: left :: stack => .join s left right :: stack
  | .symbol _, stack => stack

namespace Expr

/-- The pieces of a rendering, in their order. -/
def pieces : Expr → List Piece
  | .lit v => [.number v]
  | .var x => [.name x]
  | .assign target value => pieces target ++ pieces value ++ [.symbol .assign]
  | .binary op left right => pieces left ++ pieces right ++ [.symbol (.value op)]
  | .cond test whenTrue whenFalse => [.conditional test whenTrue whenFalse]
  | .call f args => [.call f args]

/-- An expression has a piece. -/
lemma pieces_ne_nil (e : Expr) : e.pieces ≠ [] := by
  cases e <;> simp [pieces]

/-- An expression is rendered piece by piece, with blanks between them. -/
lemma text_eq_intercalate (e : Expr) : e.text = " ".intercalate (e.pieces.map Piece.text) := by
  induction e using Expr.induction with
  | assign target value iht ihv =>
    simp [text, pieces, Piece.text, Symbol.text, pieces_ne_nil, iht, ihv,
      String.intercalate_append_of_ne_nil, String.append_assoc]
  | binary op left right ihl ihr =>
    simp [text, pieces, Piece.text, Symbol.text, pieces_ne_nil, ihl, ihr,
      String.intercalate_append_of_ne_nil, String.append_assoc]
  | _ => simp [text, pieces, Piece.text]

/-- Pushed one after the other, the pieces of an expression leave it on the stack. -/
lemma foldl_push_pieces (e : Expr) (stack : List Expr) :
    e.pieces.foldl (fun stack piece => piece.push stack) stack = e :: stack := by
  induction e using Expr.induction generalizing stack with
  | assign target value iht ihv =>
    rw [pieces, List.foldl_append, List.foldl_append, iht, ihv]
    rfl
  | binary op left right ihl ihr =>
    rw [pieces, List.foldl_append, List.foldl_append, ihl, ihr]
    rfl
  | _ => rfl

/-- No two expressions have the same pieces. -/
lemma pieces_injective {e e' : Expr} (same : e.pieces = e'.pieces) : e = e' := by
  have stack := e.foldl_push_pieces []
  rw [same, foldl_push_pieces] at stack
  exact (List.cons.inj stack).1.symm

/-- The names in an expression, of variables and of functions that it calls, are well formed. Literals
may be any integers. -/
inductive Named : Expr → Prop where
  | lit {v} : Named (.lit v)
  | var {x} : isName x.toList = true → Named (.var x)
  | assign {target value} : Named target → Named value → Named (.assign target value)
  | binary {op left right} : Named left → Named right → Named (.binary op left right)
  | cond {test whenTrue whenFalse} : Named test → Named whenTrue → Named whenFalse →
      Named (.cond test whenTrue whenFalse)
  | call {f args} : isName f.toList = true → (∀ a ∈ args, Named a) → Named (.call f args)

/-- A reader of an expression stops at a closing parenthesis and at the end of a line. -/
def stop (c : Char) : Bool := c == ')' || c == '\n'

end Expr

namespace Piece

/-- The names in a piece are well formed. -/
def Named : Piece → Prop
  | .number _ | .symbol _ => True
  | .name x => isName x.toList = true
  | .conditional test whenTrue whenFalse => test.Named ∧ whenTrue.Named ∧ whenFalse.Named
  | .call f args => isName f.toList = true ∧ ∀ a ∈ args, a.Named

/-- A reader of a piece stops also at a blank. -/
def stop (c : Char) : Bool := c == ' ' || Expr.stop c

/-- The kinds of pieces. -/
inductive Shape where
  | number | name | conditional | call | symbol

/-- The kind of a piece. -/
def shape : Piece → Shape
  | .number _ => .number
  | .name _ => .name
  | .conditional .. => .conditional
  | .call .. => .call
  | .symbol _ => .symbol

/-- The kind of the piece at the start of a text. A name is that of a function if a parenthesis stands
behind it, and a minus sign is that of a number if a digit does. -/
def shapeOf : List Char → Shape
  | [] => .symbol
  | c :: cs =>
    if c = '(' then .conditional
    else if startsName c then
      if (cs.dropWhile continuesName).head? = some '(' then .call else .name
    else if c.isDigit || c == '-' && cs.head?.any Char.isDigit then .number
    else .symbol

variable {p : Piece} {rest : List Char}

/-- A name ends in front of what stops an expression. -/
lemma not_continuesName_of_stop {c : Char} (h : stop c = true) : continuesName c = false := by
  simp only [stop, Expr.stop, Bool.or_eq_true, beq_iff_eq] at h
  rcases h with rfl | rfl | rfl <;> decide +kernel

/-- A name at the start of a text tells the kind of the piece by what stands behind it. -/
lemma shapeOf_name {cs : List Char} (name : isName cs = true)
    (ends : ∀ c ∈ rest.head?, continuesName c = false) :
    shapeOf (cs ++ rest) = if rest.head? = some '(' then .call else .name := by
  cases cs with
  | nil => cases name
  | cons c cs =>
    obtain ⟨start, inside⟩ := Bool.and_eq_true_iff.1 name
    have paren : c ≠ '(' := by
      rintro rfl
      exact absurd start (by decide +kernel)
    obtain ⟨-, left⟩ := Token.takeWhile_of_stop (List.all_eq_true.1 inside) ends
    simp [shapeOf, paren, start, left]

/-- A digit starts a number. -/
lemma shapeOf_digit {c : Char} (digit : c.isDigit = true) (cs : List Char) :
    shapeOf (c :: cs) = .number := by
  have paren : c ≠ '(' := by
    rintro rfl
    cases digit
  simp [shapeOf, paren, Token.not_startsName_of_isDigit digit, digit]

/-- The kind of a piece is told by the start of its text and by what stands behind it. -/
lemma shapeOf_text (named : p.Named) (stops : Stops stop rest) :
    shapeOf (p.text.toList ++ rest) = p.shape := by
  have ends : ∀ c ∈ rest.head?, continuesName c = false := fun c here =>
    not_continuesName_of_stop (stops c here)
  cases p with
  | number v =>
    obtain ⟨d, ds, digit, unsigned | signed⟩ := decimal_starts v
    · rw [text, unsigned]
      exact shapeOf_digit digit _
    · rw [text, signed]
      have name : startsName '-' = false := by decide +kernel
      simp [shapeOf, name, digit, shape]
  | name x =>
    have other : rest.head? ≠ some '(' := fun here => absurd (stops _ here) (by decide)
    rw [text, shapeOf_name named ends, if_neg other]
    rfl
  | conditional test whenTrue whenFalse => simp [text, Expr.text, shapeOf, shape]
  | call f args =>
    have behind : ∀ cs, ∀ c ∈ ('(' :: cs).head?, continuesName c = false := by
      rintro cs _ ⟨⟩
      decide +kernel
    simp [text, Expr.text, shapeOf_name named.1 (behind _), shape]
  | symbol s =>
    obtain ⟨c, cs, chars, paren, name, digit, sign⟩ := s.text_starts
    -- a minus sign is a whole symbol, so the piece ends behind it and no digit follows
    have single : (c == '-' && (cs ++ rest).head?.any Char.isDigit) = false := by
      by_cases minus : c = '-'
      · rw [sign minus, List.nil_append, Bool.and_eq_false_iff, Option.any_eq_false]
        refine .inr fun d here => ?_
        cases digit : d.isDigit with
        | false => rfl
        | true => cases (ends d here).symm.trans (Token.continuesName_of_isDigit digit)
      · simp [minus]
    rw [text, chars, List.cons_append, shapeOf, if_neg paren, name, digit, single]
    rfl

/-- Nothing that may stand in a name stops an expression. -/
lemma not_stop_of_continuesName {c : Char} (h : continuesName c = true) : stop c = false := by
  cases ends : stop c with
  | false => rfl
  | true => cases h.symm.trans (not_continuesName_of_stop ends)

/-- No piece starts with a character at which a reader of expressions stops. -/
lemma starts (named : p.Named) : ∃ c cs, p.text.toList = c :: cs ∧ Expr.stop c = false := by
  have inside : ∀ {c}, continuesName c = true → Expr.stop c = false := fun h =>
    (Bool.or_eq_false_iff.1 (not_stop_of_continuesName h)).2
  cases p with
  | number v =>
    obtain ⟨d, ds, digit, unsigned | signed⟩ := decimal_starts v
    · exact ⟨d, ds, unsigned, inside (Token.continuesName_of_isDigit digit)⟩
    · exact ⟨'-', d :: ds, signed, rfl⟩
  | name x =>
    obtain ⟨c, cs, chars, goes⟩ := isName_starts named
    exact ⟨c, cs, chars, inside goes⟩
  | conditional test whenTrue whenFalse => exact ⟨'(', _, by simp [text, Expr.text]; rfl, rfl⟩
  | call f args =>
    obtain ⟨c, cs, chars, goes⟩ := isName_starts named.1
    exact ⟨c, _, by simp [text, Expr.text, chars]; rfl, inside goes⟩
  | symbol s =>
    cases s with
    | assign => exact ⟨_, _, rfl, rfl⟩
    | value op => cases op <;> exact ⟨_, _, rfl, rfl⟩

end Piece

namespace Expr

variable {e : Expr}

/-- The pieces of a named expression are named. -/
lemma Named.pieces (h : e.Named) : ∀ p ∈ e.pieces, p.Named := by
  induction h with
  | lit => exact List.forall_mem_singleton.2 trivial
  | var name => exact List.forall_mem_singleton.2 name
  | assign _ _ iht ihv =>
    exact List.forall_mem_append.2 ⟨List.forall_mem_append.2 ⟨iht, ihv⟩,
      List.forall_mem_singleton.2 trivial⟩
  | binary _ _ ihl ihr =>
    exact List.forall_mem_append.2 ⟨List.forall_mem_append.2 ⟨ihl, ihr⟩,
      List.forall_mem_singleton.2 trivial⟩
  | cond test whenTrue whenFalse =>
    exact List.forall_mem_singleton.2 ⟨test, whenTrue, whenFalse⟩
  | call name args => exact List.forall_mem_singleton.2 ⟨name, args⟩

/-- The rendering of an expression is told in front of a parenthesis that closes it and at the end of
a line. -/
def Legible (e : Expr) : Prop := Told stop Named (fun e => e.text.toList) e

/-- An expression is legible if its pieces are told. -/
lemma legible_of_pieces
    (all : ∀ p ∈ e.pieces, p.Named ∧ Told Piece.stop Piece.Named (fun p => p.text.toList) p) :
    e.Legible := by
  have row : ∀ e : Expr,
      e.text.toList = [' '].intercalate (e.pieces.map fun p => p.text.toList) := by
    intro e
    rw [text_eq_intercalate, String.toList_intercalate, List.map_map]
    rfl
  intro e' named rest rest' stops stops' same
  simp only [row] at same
  obtain ⟨pieces, behind⟩ := told_intercalate rfl (fun p => p.starts) all e'.pieces named.pieces
    rest rest' stops stops' same
  exact ⟨pieces_injective pieces, behind⟩

end Expr

namespace Piece

variable {p : Piece}

/-- The characters of an argument of a call. -/
def argChars (e : Expr) : List Char := '(' :: (e.text.toList ++ [')'])

/-- The expressions inside a piece. -/
def parts : Piece → List Expr
  | .conditional test whenTrue whenFalse => [test, whenTrue, whenFalse]
  | .call _ args => args
  | _ => []

/-- A call is written with its arguments in parentheses and commas between them. -/
lemma toList_text_call (f : String) (args : List Expr) :
    (call f args).text.toList =
      f.toList ++ '(' :: ([','].intercalate (args.map argChars) ++ [')']) := by
  have arg : ∀ e : Expr, ("(" ++ e.text ++ ")").toList = argChars e := by simp [argChars]
  simp [text, Expr.text, Expr.argTexts_eq_map, Function.comp_def, arg]

/-- A closing parenthesis stops an expression. -/
lemma stops_closing (cs : List Char) : Stops Expr.stop (')' :: cs) := stops_cons rfl cs

/-- An argument is told by the parenthesis that closes it, whatever stands behind that. -/
lemma told_argChars {stop : Char → Bool} {e : Expr} (h : e.Legible) :
    Told stop Expr.Named argChars e := by
  intro e' named rest rest' _ _ same
  simp only [argChars, List.cons_append, List.append_assoc, List.nil_append, List.cons.injEq,
    true_and] at same
  obtain ⟨tree, behind⟩ := h e' named _ _ (stops_closing rest) (stops_closing rest') same
  exact ⟨tree, (List.cons.inj behind).2⟩

/-- A piece is told if the expressions inside it are legible. Its kind is told first, so that it is
compared only with pieces of its kind. -/
lemma told (named : p.Named) (legible : ∀ e ∈ p.parts, e.Legible) :
    Told stop Named (fun p => p.text.toList) p := by
  intro q named' rest rest' stops stops' same
  have kind : p.shape = q.shape := by
    rw [← shapeOf_text named stops, ← shapeOf_text named' stops', same]
  cases p with
  | number v =>
    cases q with
    | number w =>
      have numeric : ∀ c, stop c = true → (c != '-' && !c.isDigit) = true := by
        intro c ends
        simp only [stop, Expr.stop, Bool.or_eq_true, beq_iff_eq] at ends
        rcases ends with rfl | rfl | rfl <;> rfl
      obtain ⟨rfl, behind⟩ := (told_decimal v).mono numeric w trivial rest rest' stops stops' same
      exact ⟨rfl, behind⟩
    | _ => cases kind
  | name x =>
    cases q with
    | name y =>
      have literate : ∀ c, stop c = true → (!continuesName c) = true := fun c ends => by
        rw [not_continuesName_of_stop ends]
        rfl
      obtain ⟨rfl, behind⟩ := (told_name named).mono literate y named' rest rest' stops stops' same
      exact ⟨rfl, behind⟩
    | _ => cases kind
  | conditional test whenTrue whenFalse =>
    cases q with
    | conditional test' whenTrue' whenFalse' =>
      obtain ⟨namedt, nameda, namedb⟩ := named'
      simp only [parts, List.forall_mem_cons] at legible
      obtain ⟨legiblet, legiblea, legibleb, -⟩ := legible
      obtain ⟨rfl, arms⟩ := legiblet test' namedt _ _ (stops_closing _) (stops_closing _)
        (by simpa [text, Expr.text] using same)
      obtain ⟨rfl, arm⟩ := legiblea whenTrue' nameda _ _ (stops_closing _) (stops_closing _)
        (by simpa using arms)
      obtain ⟨rfl, behind⟩ := legibleb whenFalse' namedb _ _ (stops_closing _) (stops_closing _)
        (by simpa using arm)
      exact ⟨rfl, by simpa using behind⟩
    | _ => cases kind
  | call f args =>
    cases q with
    | call g args' =>
      have all : ∀ e ∈ args, e.Named ∧ Told (fun c => c == ',' || c == ')') Expr.Named argChars e :=
        fun e mem => ⟨named.2 e mem, told_argChars (legible e mem)⟩
      have applied : f.toList ++ '(' :: ([','].intercalate (args.map argChars) ++ ')' :: rest) =
          g.toList ++ '(' :: ([','].intercalate (args'.map argChars) ++ ')' :: rest') := by
        simpa [toList_text_call] using same
      obtain ⟨rfl, rfl, behind⟩ := told_applied named.1 named'.1 (fun e _ => ⟨'(', _, rfl, rfl⟩) all
        named'.2 applied
      exact ⟨rfl, behind⟩
    | _ => cases kind
  | symbol s =>
    cases q with
    | symbol t =>
      have inside : ∀ s : Symbol, True → ∀ c ∈ s.text.toList, stop c = false := by
        rintro s -
        have all : s.text.toList.all (!stop ·) = true := by
          cases s with
          | assign => rfl
          | value op => cases op <;> rfl
        simpa using all
      have spelled : Told stop (fun _ => True) (fun s : Symbol => s.text.toList) s :=
        told_of_inside inside (fun s t same => Symbol.text_injective (String.toList_inj.1 same)) trivial
      obtain ⟨rfl, behind⟩ := spelled t trivial rest rest' stops stops' same
      exact ⟨rfl, behind⟩
    | _ => cases kind

end Piece

namespace Expr

variable {e e' : Expr}

/-- A named expression is legible if the parts of its pieces are. -/
lemma Named.legible_of_parts (h : e.Named)
    (all : ∀ p ∈ e.pieces, ∀ part ∈ p.parts, part.Legible) : e.Legible :=
  legible_of_pieces fun p mem => ⟨h.pieces p mem, Piece.told (h.pieces p mem) (all p mem)⟩

/-- The pieces of operations are those of their operands and a symbol, so the induction is about the
expressions inside the pieces. -/
lemma Named.legible_parts (h : e.Named) : ∀ p ∈ e.pieces, ∀ part ∈ p.parts, part.Legible := by
  induction h with
  | lit | var => exact List.forall_mem_singleton.2 nofun
  | assign _ _ iht ihv =>
    exact List.forall_mem_append.2 ⟨List.forall_mem_append.2 ⟨iht, ihv⟩,
      List.forall_mem_singleton.2 nofun⟩
  | binary _ _ ihl ihr =>
    exact List.forall_mem_append.2 ⟨List.forall_mem_append.2 ⟨ihl, ihr⟩,
      List.forall_mem_singleton.2 nofun⟩
  | cond test whenTrue whenFalse iht iha ihb =>
    refine List.forall_mem_singleton.2 ?_
    simp only [Piece.parts, List.forall_mem_cons]
    exact ⟨test.legible_of_parts iht, whenTrue.legible_of_parts iha,
      whenFalse.legible_of_parts ihb, nofun⟩
  | call _ args ih =>
    exact List.forall_mem_singleton.2 fun a mem => (args a mem).legible_of_parts (ih a mem)

/-- Well-formed names make an expression legible. -/
lemma Named.legible (h : e.Named) : e.Legible := h.legible_of_parts h.legible_parts

/-- No two named expressions are written alike. -/
lemma text_injective (h : e.Named) (h' : e'.Named) (same : e.text = e'.text) : e = e' := by
  refine (h.legible e' h' [] [] (stops_nil _) (stops_nil _) ?_).1
  simp only [same]

end Expr

end Reckon
