import Mathlib.Data.List.TakeWhile
import Reckon.Token.Lexer

/-!
# Spelling

How tokens are written, said without the lexer: which characters spell a token (`Kind.SpelledBy`),
in front of what it ends, so that it could not be longer (`Kind.EndsBefore`), and where no token can
be read (`Unreadable`).

The lexer reads exactly these tokens (`readAs_of_spelledBy`, `read_of_unreadable`), and a text that
is not empty starts with a blank, with a token or with something unreadable (`decided`):
`text_induction` goes through a text by these.
-/

namespace Reckon.Token

open Text

/-- Whether characters are a name. -/
def isName : List Char → Bool
  | [] => false
  | c :: cs => startsName c && cs.all continuesName

/-- Whether a text is an identifier: a name other than the keyword. -/
def isIdentifier (x : String) : Bool := isName x.toList && x != "deffn"

/-- The characters are a written form of the token. Leading zeros give an integer many of them, and
the end of the line has none. -/
def Kind.SpelledBy : Kind → List Char → Prop
  | .identifier x, cs => isIdentifier x = true ∧ cs = x.toList
  | .integer v, cs =>
    cs ≠ [] ∧ (∀ c ∈ cs, c.isDigit = true) ∧ digitsValue cs < Nat.pow 2 63 ∧
      v.toInt = digitsValue cs
  | .eof, _ => False
  | k, cs => cs = k.text.toList

/-- Each of the words has a spelling. -/
def Spelled (ks : List Kind) : Prop := ∀ k ∈ ks, ∃ lexeme, k.SpelledBy lexeme

/-- Whether a token that ends here would be longer with this character behind it. -/
def Kind.goesOnWith : Kind → Char → Bool
  | .identifier _, c | .deffn, c => continuesName c
  | .integer _, c => c.isDigit
  | .symbol .assign, c | .symbol (.value .lt), c | .symbol (.value .gt), c => c == '='
  | _, _ => false

/-- The token could not be longer in front of these characters. -/
def Kind.EndsBefore (k : Kind) (rest : List Char) : Prop :=
  ∀ c ∈ rest.head?, k.goesOnWith c = false

/-- At the start of the text stands something that is no token: a lone `!`, a character with which
no token starts, or a run of digits, taken whole, whose value is too large. -/
inductive Unreadable : List Char → Misfit → Prop where
  | bang {rest} : rest.head? ≠ some '=' → Unreadable ('!' :: rest) (.character '!')
  | character {c rest} : isBlank c = false →
      (∀ (k : Kind) lexeme, k.SpelledBy lexeme → lexeme.head? ≠ some c) →
      Unreadable (c :: rest) (.character c)
  | integer {digits rest} : digits ≠ [] → (∀ c ∈ digits, c.isDigit = true) →
      (∀ c ∈ rest.head?, c.isDigit = false) → Nat.pow 2 63 ≤ digitsValue digits →
      Unreadable (digits ++ rest) (.integer (String.ofList digits))

variable {c : Char} {cs rest lexeme : List Char} {k : Kind} {m : Misfit}

section Characters

/-- No blank is in ranges that share no code point with those of the blanks. -/
lemma not_inRanges_of_isBlank {ranges : List (Nat × Nat)}
    (apart : ∀ r ∈ blankRanges, ∀ i < r.2 + 1 - r.1, inRanges (r.1 + i) ranges = false)
    (blank : isBlank c = true) : inRanges c.toNat ranges = false := by
  obtain ⟨r, mem, lo, hi⟩ := exists_of_inRanges blank
  have here := apart r mem (c.toNat - r.1) (by omega)
  rw [Nat.add_sub_cancel' lo] at here
  exact here

/-- A blank is no letter. -/
lemma isLetter_of_isBlank (blank : isBlank c = true) : isLetter c = false :=
  not_inRanges_of_isBlank (by decide +kernel) blank

/-- A blank is no numeral. -/
lemma isNumeral_of_isBlank (blank : isBlank c = true) : isNumeral c = false :=
  not_inRanges_of_isBlank (by decide +kernel) blank

/-- No blank stands in a name. -/
lemma not_continuesName_of_isBlank (blank : isBlank c = true) : continuesName c = false := by
  have low : (c == '_') = false := by
    rw [beq_eq_false_iff_ne]
    intro eq
    rw [eq] at blank
    exact absurd blank (by decide)
  rw [continuesName, isLetter_of_isBlank blank, isNumeral_of_isBlank blank, low]
  rfl

/-- What stands in a name is not blank. -/
lemma not_isBlank_of_continuesName (inside : continuesName c = true) : isBlank c = false := by
  cases blank : isBlank c with
  | false => rfl
  | true => cases inside.symm.trans (not_continuesName_of_isBlank blank)

/-- What starts a name may stand in one. -/
lemma continuesName_of_startsName (start : startsName c = true) : continuesName c = true := by
  cases Bool.or_eq_true_iff.1 start with
  | inl letter => simp [continuesName, letter]
  | inr low => simp [continuesName, low]

/-- A name consists of characters that may stand in one. -/
lemma all_continuesName (name : isName cs = true) : ∀ c ∈ cs, continuesName c = true := by
  cases cs with
  | nil => exact nofun
  | cons c cs =>
    obtain ⟨start, inside⟩ := Bool.and_eq_true_iff.1 name
    exact List.forall_mem_cons.2 ⟨continuesName_of_startsName start, List.all_eq_true.1 inside⟩

/-- A digit may stand in a name. -/
lemma continuesName_of_isDigit (digit : c.isDigit = true) : continuesName c = true := by
  have bound := Char.isDigit_iff_toNat.1 digit
  have zero : '0'.toNat = 48 := rfl
  have nine : '9'.toNat = 57 := rfl
  have numeral : isNumeral c = true := by
    rw [isNumeral, numeralRanges, inRanges, if_neg (by omega), if_pos (by omega)]
  simp [continuesName, numeral]

/-- No digit starts a name. -/
lemma not_startsName_of_isDigit (digit : c.isDigit = true) : startsName c = false := by
  have bound := Char.isDigit_iff_toNat.1 digit
  have nine : '9'.toNat = 57 := rfl
  have letter : isLetter c = false := if_pos (show c.toNat < 0x41 by omega)
  have low : (c == '_') = false := by
    rw [beq_eq_false_iff_ne]
    intro eq
    rw [eq] at digit
    exact absurd digit (by decide)
  rw [startsName, letter, low]
  rfl

end Characters

section Signs

/-- A character that is a token by itself spells it, whatever follows, and starts no other. -/
lemma single?_spec (h : single? c = some k) :
    k.SpelledBy [c] ∧ (∀ d, k.goesOnWith d = false) ∧ startsName c = false ∧ c.isDigit = false ∧
      isBlank c = false := by
  unfold single? at h
  split at h
  case h_12 => cases h
  all_goals
    cases h
    exact ⟨rfl, fun _ => rfl, by decide, by decide, by decide⟩

/-- The two tokens of a character that may be followed by `=`. -/
lemma beforeEqual?_spec {short? : Option Kind} (h : beforeEqual? c = some (short?, k)) :
    k.SpelledBy [c, '='] ∧ (∀ d, k.goesOnWith d = false) ∧
      (∀ short ∈ short?, short.SpelledBy [c] ∧ ∀ d, short.goesOnWith d = (d == '=')) ∧
      (short? = none → c = '!') ∧ single? c = none ∧ startsName c = false ∧ c.isDigit = false ∧
      isBlank c = false := by
  unfold beforeEqual? at h
  split at h
  case h_5 => cases h
  all_goals
    cases h
    refine ⟨rfl, fun _ => rfl, ?_, ?_, rfl, by decide, by decide, by decide⟩
    · rintro _ ⟨⟩
      try exact ⟨rfl, fun _ => rfl⟩
    · rintro ⟨⟩
      try rfl

end Signs

section Words

/-- A name is spelled by its characters, also the keyword. -/
lemma ofName_spelledBy (name : isName cs = true) : (ofName (String.ofList cs)).SpelledBy cs := by
  rw [ofName]
  split
  · rename_i keyword
    rw [← String.toList_ofList (l := cs), keyword]
    rfl
  · rename_i other
    refine ⟨?_, by simp⟩
    simp [isIdentifier, name, other]

/-- A word ends in front of what may not stand in a name. -/
lemma ofName_endsBefore (x : String) (ends : ∀ d ∈ rest.head?, continuesName d = false) :
    (ofName x).EndsBefore rest := by
  rw [ofName]
  split <;> exact ends

/-- Digits spell an integer, unless their value is too large. -/
lemma ofDigits_cases (filled : cs ≠ []) (digits : ∀ d ∈ cs, d.isDigit = true) :
    (∃ v, ofDigits cs = .ok (.integer v) ∧ (Kind.integer v).SpelledBy cs) ∨
      (Nat.pow 2 63 ≤ digitsValue cs ∧ ofDigits cs = .error (.integer (String.ofList cs))) := by
  rw [ofDigits]
  split
  · rename_i small
    refine .inl ⟨_, rfl, filled, digits, small, ?_⟩
    exact Int64.toInt_ofNat_of_lt small
  · rename_i large
    exact .inr ⟨Nat.le_of_not_lt large, rfl⟩

/-- What spells an integer is read as this integer. -/
lemma ofDigits_of_spelledBy {v : Int64} (spelled : (Kind.integer v).SpelledBy cs) :
    ofDigits cs = .ok (.integer v) := by
  obtain ⟨-, -, small, value⟩ := spelled
  rw [ofDigits, if_pos small]
  have same : Int64.ofNat (digitsValue cs) = v := by
    rw [← Int64.toInt_inj, value]
    exact Int64.toInt_ofNat_of_lt small
  rw [same]

/-- An integer that is not negative is spelled by its decimal digits. -/
lemma spelledBy_decimal {v : Int64} (le : 0 ≤ v) :
    (Kind.integer v).SpelledBy (Kind.integer v).text.toList := by
  rw [Int64.le_iff_toInt_le] at le
  have le : 0 ≤ v.toInt := le
  have size := v.toInt_lt
  have natural : (v.toInt.natAbs : Int) = v.toInt := Int.natAbs_of_nonneg le
  have text : (Kind.integer v).text.toList = Nat.toDigits 10 v.toInt.natAbs := by
    rw [Kind.text, decimal, String.toList_ofList, decimalChars, if_neg (Int.not_lt.2 le)]
  rw [text]
  refine ⟨Nat.toDigits_ne_nil, ?_, ?_, ?_⟩
  · exact fun c mem => Nat.isDigit_of_mem_toDigits (by decide) (by decide) mem
  · rw [digitsValue_toDigits]
    show v.toInt.natAbs < 9223372036854775808
    omega
  · rw [digitsValue_toDigits, natural]

/-- An integer with a written form is not negative. -/
lemma nonneg_of_spelledBy {v : Int64} (spelled : (Kind.integer v).SpelledBy cs) : 0 ≤ v := by
  obtain ⟨-, -, -, value⟩ := spelled
  rw [Int64.le_iff_toInt_le, value]
  exact Int.natCast_nonneg _

/-- A token that has a spelling is spelled by its written form. -/
lemma Kind.SpelledBy.text (spelled : k.SpelledBy lexeme) : k.SpelledBy k.text.toList := by
  cases k with
  | identifier x => exact ⟨spelled.1, rfl⟩
  | integer v => exact spelledBy_decimal (nonneg_of_spelledBy spelled)
  | eof => cases spelled
  | _ => rfl

end Words

section Read

/-- The token is read off the head of the text, which does not start blank. -/
def ReadAs (k : Kind) (lexeme rest : List Char) : Prop :=
  ∃ c cs, lexeme ++ rest = c :: cs ∧ isBlank c = false ∧ read c cs = ⟨.ok k, lexeme, rest⟩

/-- Characters of one kind are taken up to the first of another kind. -/
lemma takeWhile_of_stop {p : Char → Bool} (inside : ∀ d ∈ cs, p d = true)
    (stop : ∀ d ∈ rest.head?, p d = false) :
    (cs ++ rest).takeWhile p = cs ∧ (cs ++ rest).dropWhile p = rest := by
  rw [List.takeWhile_append_of_pos inside, List.dropWhile_append_of_pos inside]
  cases rest with
  | nil => simp
  | cons d rest => simp [stop d rfl]

/-- Characters of one kind end where one of another kind stands, or nothing. -/
lemma append_inj_of_stop {p : Char → Bool} {ds rest' : List Char} (inside : ∀ d ∈ cs, p d = true)
    (inside' : ∀ d ∈ ds, p d = true) (stop : ∀ d ∈ rest.head?, p d = false)
    (stop' : ∀ d ∈ rest'.head?, p d = false) (same : cs ++ rest = ds ++ rest') :
    cs = ds ∧ rest = rest' := by
  obtain ⟨taken, left⟩ := takeWhile_of_stop inside stop
  obtain ⟨taken', left'⟩ := takeWhile_of_stop inside' stop'
  rw [same] at taken left
  exact ⟨taken.symm.trans taken', left.symm.trans left'⟩

/-- A character with which a name or a number starts is no sign. -/
lemma signs_eq_none (h : startsName c = true ∨ c.isDigit = true) :
    single? c = none ∧ beforeEqual? c = none := by
  constructor
  · cases single : single? c with
    | none => rfl
    | some k =>
      obtain ⟨-, -, name, digit, -⟩ := single?_spec single
      simp [name, digit] at h
  · cases equal : beforeEqual? c with
    | none => rfl
    | some pair =>
      obtain ⟨-, -, -, -, -, name, digit, -⟩ := beforeEqual?_spec equal
      simp [name, digit] at h

/-- A character that is a token by itself is read as this token. -/
lemma readAs_single (h : single? c = some k) : ReadAs k [c] rest := by
  obtain ⟨-, -, -, -, blank⟩ := single?_spec h
  refine ⟨c, rest, rfl, blank, ?_⟩
  simp only [read, h]

/-- A character with an equals sign behind it is read as the longer token. -/
lemma readAs_long {short? : Option Kind} (h : beforeEqual? c = some (short?, k)) :
    ReadAs k [c, '='] rest := by
  obtain ⟨-, -, -, -, single, -, -, blank⟩ := beforeEqual?_spec h
  refine ⟨c, '=' :: rest, rfl, blank, ?_⟩
  simp only [read, single, h]

/-- Without an equals sign behind it, a character is the shorter token or none. -/
lemma read_beforeEqual {short? : Option Kind} (h : beforeEqual? c = some (short?, k))
    (other : cs.head? ≠ some '=') :
    read c cs = match short? with
      | some short => ⟨.ok short, [c], cs⟩
      | none => ⟨.error (.character c), [c], cs⟩ := by
  obtain ⟨-, -, -, -, single, -⟩ := beforeEqual?_spec h
  simp only [read, single, h]
  split
  · exact absurd rfl other
  · rfl
  · rfl

/-- The next character is no equals sign. -/
lemma head?_ne_equal_iff : cs.head? ≠ some '=' ↔ ∀ d ∈ cs.head?, (d == '=') = false := by
  cases cs <;> simp

/-- A character without an equals sign behind it is read as the shorter token. -/
lemma readAs_short {long : Kind} (h : beforeEqual? c = some (some k, long))
    (other : rest.head? ≠ some '=') : ReadAs k [c] rest := by
  obtain ⟨-, -, -, -, -, -, -, blank⟩ := beforeEqual?_spec h
  exact ⟨c, rest, rfl, blank, read_beforeEqual h other⟩

/-- A name is read as far as it goes on. -/
lemma readAs_name (name : isName cs = true) (stop : ∀ d ∈ rest.head?, continuesName d = false) :
    ReadAs (ofName (String.ofList cs)) cs rest := by
  cases cs with
  | nil => cases name
  | cons c cs =>
    obtain ⟨start, inside⟩ := Bool.and_eq_true_iff.1 name
    obtain ⟨single, equal⟩ := signs_eq_none (.inl start)
    obtain ⟨taken, left⟩ := takeWhile_of_stop (List.all_eq_true.1 inside) stop
    refine ⟨c, cs ++ rest, rfl,
      not_isBlank_of_continuesName (continuesName_of_startsName start), ?_⟩
    simp only [read, single, equal, start, if_true, taken, left]

/-- A run of digits is read whole, whatever its value. -/
lemma read_digits (start : c.isDigit = true) (inside : ∀ d ∈ cs, d.isDigit = true)
    (stop : ∀ d ∈ rest.head?, d.isDigit = false) :
    read c (cs ++ rest) = ⟨ofDigits (c :: cs), c :: cs, rest⟩ := by
  obtain ⟨single, equal⟩ := signs_eq_none (.inr start)
  obtain ⟨taken, left⟩ := takeWhile_of_stop inside stop
  have noName := not_startsName_of_isDigit start
  simp only [read, single, equal, noName, start, if_true, if_false, taken, left, Bool.false_eq_true]

/-- Digits are read as an integer in front of what is no digit. -/
lemma readAs_digits {v : Int64} (spelled : (Kind.integer v).SpelledBy cs)
    (stop : ∀ d ∈ rest.head?, d.isDigit = false) : ReadAs (.integer v) cs rest := by
  have value := ofDigits_of_spelledBy spelled
  obtain ⟨filled, digits, -⟩ := spelled
  cases cs with
  | nil => exact absurd rfl filled
  | cons c cs =>
    obtain ⟨start, inside⟩ := List.forall_mem_cons.1 digits
    refine ⟨c, cs ++ rest, rfl, not_isBlank_of_continuesName (continuesName_of_isDigit start), ?_⟩
    rw [read_digits start inside stop, value]

/-- A token in front of something that it ends before is read. -/
lemma readAs_of_spelledBy (spelled : k.SpelledBy lexeme) (ends : k.EndsBefore rest) :
    ReadAs k lexeme rest := by
  cases k with
  | identifier x =>
    obtain ⟨ident, rfl⟩ := spelled
    obtain ⟨name, other⟩ := Bool.and_eq_true_iff.1 ident
    have read := readAs_name name ends
    have same : ofName (String.ofList x.toList) = .identifier x := by
      rw [String.ofList_toList]
      exact if_neg (by simpa using other)
    rwa [same] at read
  | integer v => exact readAs_digits spelled ends
  | deffn =>
    cases spelled
    have name : isName "deffn".toList = true := by decide
    exact readAs_name name ends
  | eof => cases spelled
  | question | colon | tilde | comma | lparen | rparen =>
    cases spelled
    exact readAs_single rfl
  | symbol s =>
    cases spelled
    cases s with
    | assign => exact readAs_short rfl (head?_ne_equal_iff.2 ends)
    | value op =>
      cases op with
      | add | sub | mul | div | rem => exact readAs_single rfl
      | gt | lt => exact readAs_short rfl (head?_ne_equal_iff.2 ends)
      | ge | le | eq | ne => exact readAs_long rfl

/-- A digit is less than ten. -/
lemma digitsValue_lt (digit : c.isDigit = true) : digitsValue [c] < 10 := by
  have bound := Char.isDigit_iff_toNat.1 digit
  have nine : '9'.toNat = 57 := rfl
  have zero : '0'.toNat = 48 := rfl
  simp only [digitsValue, Nat.ofDigitChars_cons, Nat.ofDigitChars_nil]
  omega

/-- Where no token stands, reading fails with the reason. -/
lemma read_of_unreadable {text : List Char} (h : Unreadable text m) :
    ∃ c cs, text = c :: cs ∧ isBlank c = false ∧ (read c cs).outcome = .error m := by
  cases h with
  | @bang rest other =>
    have lone : beforeEqual? '!' = some (none, .symbol (.value .ne)) := rfl
    exact ⟨'!', rest, rfl, rfl, by rw [read_beforeEqual lone other]⟩
  | @character c rest visible none =>
    have single : single? c = .none := by
      cases h : single? c with
      | none => rfl
      | some k => exact absurd rfl (none k [c] (single?_spec h).1)
    have equal : beforeEqual? c = .none := by
      cases h : beforeEqual? c with
      | none => rfl
      | some pair => exact absurd rfl (none pair.2 [c, '='] (beforeEqual?_spec h).1)
    have name : startsName c = false := by
      cases h : startsName c with
      | false => rfl
      | true =>
        have alone : isName [c] = true := by simp [isName, h]
        exact absurd rfl (none _ [c] (ofName_spelledBy alone))
    have digit : c.isDigit = false := by
      cases h : c.isDigit with
      | false => rfl
      | true =>
        cases ofDigits_cases (List.cons_ne_nil c []) (by simpa using h) with
        | inl fits =>
          obtain ⟨v, -, spelled⟩ := fits
          exact absurd rfl (none _ [c] spelled)
        | inr large =>
          have enough : 10 ≤ Nat.pow 2 63 := by decide
          exact absurd (Nat.le_trans enough large.1) (Nat.not_le.2 (digitsValue_lt h))
    exact ⟨c, rest, rfl, visible, by simp [read, single, equal, name, digit]⟩
  | @integer digits rest filled all stop large =>
    cases digits with
    | nil => exact absurd rfl filled
    | cons c cs =>
      obtain ⟨start, inside⟩ := List.forall_mem_cons.1 all
      refine ⟨c, cs ++ rest, rfl, not_isBlank_of_continuesName (continuesName_of_isDigit start), ?_⟩
      rw [read_digits start inside stop, ofDigits, if_neg (Nat.not_lt.2 large)]

/-- Every token ends at the end of the text. -/
lemma endsBefore_nil (k : Kind) : k.EndsBefore [] := nofun

/-- A character with which no token starts is unreadable. -/
lemma unreadable_character (visible : isBlank c = false) (single : single? c = none)
    (equal : beforeEqual? c = none) (name : startsName c = false) (digit : c.isDigit = false) :
    Unreadable (c :: rest) (.character c) := by
  refine .character visible fun k lexeme spelled starts => ?_
  obtain ⟨d, ds, eq, -, found⟩ := readAs_of_spelledBy spelled (endsBefore_nil k)
  rw [List.append_nil] at eq
  rw [eq] at starts
  cases starts
  simp [read, single, equal, name, digit] at found

/-- A written form starts with a visible character. -/
lemma Kind.SpelledBy.starts (spelled : k.SpelledBy lexeme) :
    ∃ c cs, lexeme = c :: cs ∧ isBlank c = false := by
  obtain ⟨c, cs, eq, visible, -⟩ := readAs_of_spelledBy spelled (endsBefore_nil k)
  rw [List.append_nil] at eq
  exact ⟨c, cs, eq, visible⟩

/-- The end of the text has no written form. -/
lemma Kind.SpelledBy.ne_eof (spelled : k.SpelledBy lexeme) : k ≠ .eof := by
  rintro rfl
  cases spelled

/-- At the start of a text stands one token only. -/
lemma Kind.SpelledBy.unique {k' : Kind} {lexeme' rest' : List Char} (spelled : k.SpelledBy lexeme)
    (ends : k.EndsBefore rest) (spelled' : k'.SpelledBy lexeme') (ends' : k'.EndsBefore rest')
    (same : lexeme ++ rest = lexeme' ++ rest') : k = k' ∧ lexeme = lexeme' ∧ rest = rest' := by
  obtain ⟨c, cs, eq, -, read⟩ := readAs_of_spelledBy spelled ends
  obtain ⟨c', cs', eq', -, read'⟩ := readAs_of_spelledBy spelled' ends'
  cases eq.symm.trans (same.trans eq')
  cases read.symm.trans read'
  exact ⟨rfl, rfl, rfl⟩

/-- No token could be longer in front of what it ends before. -/
lemma Kind.SpelledBy.longest {k' : Kind} {longer : List Char} (spelled : k.SpelledBy lexeme)
    (ends : k.EndsBefore rest) (spelled' : k'.SpelledBy longer)
    (front : longer <+: lexeme ++ rest) : longer.length ≤ lexeme.length := by
  by_contra more
  -- the longer token starts with the shorter one, which also ends there, so both are read from it
  obtain ⟨behind, rfl⟩ : lexeme <+: longer :=
    List.prefix_of_prefix_length_le (List.prefix_append _ _) front (by omega)
  have ends' : k.EndsBefore behind := by
    intro d next
    obtain ⟨ds, rfl⟩ := List.head?_eq_some_iff.1 next
    obtain ⟨tail, rfl⟩ := (List.prefix_append_right_inj lexeme).1 front
    exact ends d rfl
  obtain ⟨-, same, -⟩ := spelled.unique ends' spelled' (endsBefore_nil k') (by simp)
  rw [← same] at more
  exact more (Nat.le_refl _)

/-- Where no token stands, none is spelled that ends there. -/
lemma Unreadable.not_token (h : Unreadable (lexeme ++ rest) m) (spelled : k.SpelledBy lexeme) :
    ¬k.EndsBefore rest := by
  intro ends
  obtain ⟨c, cs, eq, -, read⟩ := readAs_of_spelledBy spelled ends
  obtain ⟨c', cs', eq', -, failed⟩ := read_of_unreadable h
  cases eq.symm.trans eq'
  rw [read] at failed
  cases failed

/-- Behind all characters of one kind stands one of another kind. -/
lemma stop_dropWhile (p : Char → Bool) (cs : List Char) :
    ∀ d ∈ (cs.dropWhile p).head?, p d = false := by
  intro d mem
  have := List.head?_dropWhile_not p cs
  simp_all

/-- At the start of the text stands a token or something unreadable. -/
def Decided (text : List Char) : Prop :=
  (∃ (k : Kind) (lexeme rest : List Char), text = lexeme ++ rest ∧ k.SpelledBy lexeme ∧
    k.EndsBefore rest) ∨ ∃ m, Unreadable text m

/-- At a character that an equals sign may follow stands a token or something unreadable. -/
lemma decided_beforeEqual {short? : Option Kind} (h : beforeEqual? c = some (short?, k)) :
    Decided (c :: cs) := by
  obtain ⟨spelled, ends, short, bang, -⟩ := beforeEqual?_spec h
  by_cases next : cs.head? = some '='
  · obtain ⟨rest, rfl⟩ := List.head?_eq_some_iff.1 next
    exact .inl ⟨k, [c, '='], rest, rfl, spelled, fun d _ => ends d⟩
  · cases short? with
    | some k =>
      obtain ⟨spelled, ends⟩ := short k rfl
      refine .inl ⟨k, [c], cs, rfl, spelled, fun d mem => ?_⟩
      rw [ends, head?_ne_equal_iff.1 next d mem]
    | none =>
      rw [bang rfl]
      exact .inr ⟨_, .bang next⟩

/-- At the start of a name stands a token. -/
lemma decided_name (start : startsName c = true) : Decided (c :: cs) := by
  have split : c :: cs = (c :: cs.takeWhile continuesName) ++ cs.dropWhile continuesName := by simp
  have name : isName (c :: cs.takeWhile continuesName) = true := by simp [isName, start]
  exact .inl ⟨_, _, _, split, ofName_spelledBy name,
    ofName_endsBefore _ (stop_dropWhile continuesName cs)⟩

/-- At a digit stands an integer, or one that is too large. -/
lemma decided_digits (start : c.isDigit = true) : Decided (c :: cs) := by
  have split : c :: cs = (c :: cs.takeWhile Char.isDigit) ++ cs.dropWhile Char.isDigit := by simp
  have digits : ∀ d ∈ c :: cs.takeWhile Char.isDigit, d.isDigit = true := by
    intro d mem
    cases List.mem_cons.1 mem with
    | inl first => rw [first, start]
    | inr mem => exact List.mem_takeWhile_imp mem
  have stop := stop_dropWhile Char.isDigit cs
  cases ofDigits_cases (List.cons_ne_nil _ _) digits with
  | inl fits =>
    obtain ⟨v, -, spelled⟩ := fits
    exact .inl ⟨.integer v, _, _, split, spelled, stop⟩
  | inr large =>
    rw [split]
    exact .inr ⟨_, .integer (List.cons_ne_nil _ _) digits stop large.1⟩

/-- At a visible character stands a token or something unreadable. -/
lemma decided (visible : isBlank c = false) (cs : List Char) : Decided (c :: cs) := by
  cases single : single? c with
  | some k =>
    obtain ⟨spelled, ends, -⟩ := single?_spec single
    exact .inl ⟨k, [c], cs, rfl, spelled, fun d _ => ends d⟩
  | none =>
    cases equal : beforeEqual? c with
    | some pair => exact decided_beforeEqual equal
    | none =>
      cases name : startsName c with
      | true => exact decided_name name
      | false =>
        cases digit : c.isDigit with
        | true => exact decided_digits digit
        | false => exact .inr ⟨_, unreadable_character visible single equal name digit⟩

end Read

/-- Induction on a text by what stands at its start: nothing, a blank, a token, or something
unreadable. -/
theorem text_induction {P : List Char → Prop} (nil : P [])
    (blank : ∀ c cs, isBlank c = true → P cs → P (c :: cs))
    (token : ∀ (k : Kind) lexeme rest, k.SpelledBy lexeme → k.EndsBefore rest → P rest →
      P (lexeme ++ rest))
    (unreadable : ∀ text m, Unreadable text m → P text) (text : List Char) : P text := by
  induction len : text.length using Nat.strongRecOn generalizing text with
  | ind _ ih =>
    cases text with
    | nil => exact nil
    | cons c cs =>
      cases visible : isBlank c with
      | true => exact blank c cs visible (ih cs.length (by simp [← len]) cs rfl)
      | false =>
        cases decided visible cs with
        | inl found =>
          obtain ⟨k, lexeme, rest, eq, spelled, ends⟩ := found
          rw [eq]
          apply token k lexeme rest spelled ends
          apply ih rest.length _ rest rfl
          obtain ⟨d, ds, eq', -⟩ := spelled.starts
          rw [← len, eq, eq', List.length_append, List.length_cons]
          omega
        | inr found =>
          obtain ⟨m, found⟩ := found
          exact unreadable (c :: cs) m found

end Reckon.Token
