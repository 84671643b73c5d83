import Reckon.Proofs.ByteOrder
import Reckon.Proofs.LineEffect

/-!
# Pieces of a text

The pieces of a text are what its newlines separate. Nobody reads a line without trimming it, so the
lines of a text are its pieces but for the blanks around them, and for the last piece if it is empty
(`Text.map_trim_pieces`). The bytes of a text fall into the same lines (`Text.exists_inputLines`), for a
newline is the only character with the byte of a newline in its encoding.

* `Text.pieces_append`: the pieces of two texts with a newline between them.
* `Text.length_pieces`: a text has one piece more than newlines.
* `Text.pieces_intercalate`: joined by newlines, the pieces give the text back.
-/

namespace Reckon.Text

open String (utf8EncodeChar)

/-- The pieces of a text between its newlines. -/
def pieces (s : String) : List String := (s.toList.splitOn '\n').map String.ofList

section Trimmed

variable {cs : List Char}

/-- To trim twice is to trim once. -/
lemma trimChars_trimChars (cs : List Char) : trimChars (trimChars cs) = trimChars cs := by
  have front : cs = cs.takeWhile isBlank ++ cs.dropWhile isBlank := by
    rw [List.takeWhile_append_dropWhile]
  have back : cs.dropWhile isBlank = trimChars cs ++ (cs.dropWhile isBlank).rtakeWhile isBlank := by
    rw [trimChars, ← List.rdropWhile, List.rdropWhile_append_rtakeWhile]
  conv_rhs => rw [front, trimChars_append_left fun c mem => List.mem_takeWhile_imp mem, back,
    trimChars_append_right fun c mem => List.mem_rtakeWhile_imp mem]

/-- A trimmed text has no blanks left to be dropped. -/
lemma trim_trim (line : String) : trim (trim line) = trim line := by
  rw [trim, trim, String.toList_ofList, trimChars_trimChars]

/-- A carriage return at the end of a line, given backwards, is a blank of it. -/
lemma trimChars_dropReturn (cs : List Char) :
    trimChars (dropReturn cs).reverse = trimChars cs.reverse := by
  unfold dropReturn
  split
  · rename_i line
    have blank : ∀ c ∈ ['\r'], isBlank c = true := List.forall_mem_singleton.2 rfl
    rw [List.reverse_cons, trimChars_append_right blank]
  · rfl

end Trimmed

section Pieces

variable {a b : String}

/-- A newline cuts a text into the pieces before it and those behind it. -/
lemma pieces_append (a b : String) : pieces (a ++ "\n" ++ b) = pieces a ++ pieces b := by
  have seam : (a ++ "\n" ++ b).toList = a.toList ++ '\n' :: b.toList := by
    simp [String.toList_append]
  rw [pieces, seam, List.splitOn_append_cons_self, List.map_append, pieces, pieces]

/-- A character cuts a text into one piece more than it occurs. -/
lemma length_splitOn (c : Char) (cs : List Char) : (cs.splitOn c).length = cs.count c + 1 := by
  induction cs with
  | nil => rfl
  | cons d cs ih =>
    rw [List.splitOn_cons_eq_if_modifyHead, List.count_cons]
    split
    · rw [List.length_cons, ih]
    · rw [List.length_modifyHead, ih, Nat.add_zero]

/-- A text has one piece more than newlines. -/
lemma length_pieces (s : String) : (pieces s).length = s.toList.count '\n' + 1 := by
  rw [pieces, List.length_map, length_splitOn]

/-- The character that cuts a text is in no piece. -/
lemma not_mem_of_mem_splitOn {c : Char} {cs piece : List Char} (mem : piece ∈ cs.splitOn c) :
    c ∉ piece := by
  induction cs generalizing piece with
  | nil =>
    rw [List.splitOn_nil, List.mem_singleton] at mem
    rw [mem]
    exact List.not_mem_nil
  | cons d cs ih =>
    rw [List.splitOn_cons_eq_if_modifyHead] at mem
    split at mem
    · rcases List.mem_cons.1 mem with rfl | mem
      · exact List.not_mem_nil
      · exact ih mem
    · rename_i other
      obtain ⟨first, others, split⟩ := List.exists_cons_of_ne_nil (List.splitOn_ne_nil c cs)
      rw [split] at mem ih
      rcases List.mem_cons.1 mem with rfl | mem
      · rintro (_ | ⟨_, inside⟩)
        · exact other (beq_self_eq_true _)
        · exact ih (List.mem_cons_self ..) inside
      · exact ih (List.mem_cons_of_mem _ mem)

/-- A piece has no newline in it. -/
lemma not_mem_of_mem_pieces {s line : String} (mem : line ∈ pieces s) : '\n' ∉ line.toList := by
  obtain ⟨cs, inside, rfl⟩ := List.mem_map.1 mem
  rw [String.toList_ofList]
  exact not_mem_of_mem_splitOn inside

/-- Lines that are joined by newlines are the pieces of what they give. -/
lemma pieces_intercalate {lines : List String} (free : ∀ line ∈ lines, '\n' ∉ line.toList)
    (some : lines ≠ []) : pieces ("\n".intercalate lines) = lines := by
  have free' : ∀ cs ∈ lines.map String.toList, '\n' ∉ cs := by
    intro cs mem
    obtain ⟨line, inside, rfl⟩ := List.mem_map.1 mem
    exact free line inside
  have newline : "\n".toList = ['\n'] := rfl
  rw [pieces, String.toList_intercalate, newline, List.splitOn_intercalate _ free' (by simpa using some),
    List.map_map]
  simp [Function.comp_def]

/-- What stands behind the last newline is a line, unless it is empty. -/
lemma map_trimChars_linesFrom (cs : List Char) : ∀ before : List Char,
    (cs.splitOnPPrepend (· == '\n') before).map trimChars = (linesFrom before cs).map trimChars ∨
      (cs.splitOnPPrepend (· == '\n') before).map trimChars =
        (linesFrom before cs).map trimChars ++ [[]] := by
  induction cs with
  | nil =>
    intro before
    cases before with
    | nil => exact .inr rfl
    | cons c before => exact .inl rfl
  | cons c cs ih =>
    intro before
    rw [List.splitOnPPrepend_cons_eq_if, linesFrom]
    by_cases newline : c = '\n'
    · subst newline
      rw [if_pos (beq_self_eq_true _), if_pos rfl, List.map_cons, List.map_cons, trimChars_dropReturn,
        List.cons_append, List.cons_inj_right, List.cons_inj_right]
      exact ih []
    · rw [if_neg (by simpa using newline), if_neg newline]
      exact ih (c :: before)

/-- Texts are trimmed as their characters are. -/
lemma map_trim_ofList (l : List (List Char)) :
    (l.map String.ofList).map trim = (l.map trimChars).map String.ofList := by
  simp only [List.map_map, Function.comp_def, trim, String.toList_ofList]

/-- The lines of a text are its pieces, but for the blanks around them and an empty last piece. -/
lemma map_trim_pieces (s : String) :
    (pieces s).map trim = (lines s).map trim ∨ (pieces s).map trim = (lines s).map trim ++ [""] := by
  rw [pieces, lines, map_trim_ofList, map_trim_ofList]
  cases map_trimChars_linesFrom s.toList [] with
  | inl same => exact .inl (congrArg (List.map String.ofList) same)
  | inr same =>
    right
    have mapped := congrArg (List.map String.ofList) same
    rwa [List.map_append] at mapped

end Pieces

section Bytes

/-- No other number is the byte of a newline. -/
lemma newline_ne_ofNat {v : Nat} (lt : v < 256) (other : v ≠ 10) : 10 ≠ UInt8.ofNat v := by
  intro same
  have numbers := congrArg UInt8.toNat same
  rw [UInt8.toNat_ofNat_of_lt' lt] at numbers
  exact other numbers.symm

/-- No later byte of a character is that of a newline. -/
lemma newline_not_mem_laterBytes (v k : Nat) : 10 ∉ laterBytes v k := by
  induction k with
  | zero => exact List.not_mem_nil
  | succ k ih => exact List.not_mem_cons_of_ne_of_not_mem (newline_ne_ofNat (by omega) (by omega)) ih

/-- Only a newline has the byte of a newline in its encoding. -/
lemma newline_not_mem_utf8EncodeChar {c : Char} (other : c ≠ '\n') : 10 ∉ utf8EncodeChar c := by
  have differ : c.val.toNat ≠ 10 := fun same => other (Char.toNat_inj.1 same)
  have bound := charNumber_lt c
  rw [utf8EncodeChar_eq c]
  generalize c.val.toNat = v at differ bound
  obtain ⟨low, high⟩ := firstByte_bounds bound
  have below := leader_le (laterCount v + 1)
  refine List.not_mem_cons_of_ne_of_not_mem (newline_ne_ofNat (by omega) ?_)
    (newline_not_mem_laterBytes v _)
  -- the first byte is the character itself, or it is one of those that more bytes follow
  cases count : laterCount v with
  | zero => simpa [firstByte, count, leader] using differ
  | succ k =>
    have above : leader 1 ≤ leader (laterCount v) := leader_mono (by omega)
    rw [leader] at above
    omega

/-- Bytes without that of a newline are read on in the same line. -/
lemma cutBytesFrom_append {inside : List UInt8} (free : 10 ∉ inside) (before behind : List UInt8) :
    cutBytesFrom before (inside ++ behind) = cutBytesFrom (inside.reverse ++ before) behind := by
  induction inside generalizing before with
  | nil => rfl
  | cons b bs ih =>
    obtain ⟨first, others⟩ := not_or.1 (mt List.mem_cons.2 free)
    rw [List.cons_append, cutBytesFrom, if_neg (Ne.symm first), ih others, List.reverse_cons,
      List.append_assoc]
    rfl

/-- The bytes of a text fall into the lines of the text, each with its end. -/
lemma exists_cutBytesFrom (cs : List Char) : ∀ before : List Char, ∃ ended : List (List Char),
    cutBytesFrom (before.reverse.flatMap utf8EncodeChar).reverse (cs.flatMap utf8EncodeChar) =
        ended.map (·.flatMap utf8EncodeChar) ∧
      ended.map trimChars = (linesFrom before cs).map trimChars := by
  induction cs with
  | nil =>
    intro before
    cases before with
    | nil => exact ⟨[], rfl, rfl⟩
    | cons c before =>
      refine ⟨[(c :: before).reverse], ?_, rfl⟩
      simp [cutBytesFrom]
  | cons c cs ih =>
    intro before
    rw [List.flatMap_cons, linesFrom]
    by_cases newline : c = '\n'
    · subst newline
      obtain ⟨ended, cut, same⟩ := ih []
      have byte : utf8EncodeChar '\n' = [10] := by decide
      refine ⟨(before.reverse ++ ['\n']) :: ended, ?_, ?_⟩
      · simpa [byte, cutBytesFrom] using cut
      · rw [if_pos rfl, List.map_cons, List.map_cons, trimChars_dropReturn, same]
        have blank : ∀ c ∈ ['\n'], isBlank c = true := List.forall_mem_singleton.2 rfl
        rw [trimChars_append_right blank]
    · rw [cutBytesFrom_append (newline_not_mem_utf8EncodeChar newline), if_neg newline]
      have read : (utf8EncodeChar c).reverse ++ (before.reverse.flatMap utf8EncodeChar).reverse =
          ((c :: before).reverse.flatMap utf8EncodeChar).reverse := by
        simp
      rw [read]
      exact ih (c :: before)

/-- The bytes of a text are read as its lines, each with the blanks and the end that it has. -/
lemma exists_inputLines (s : String) : ∃ ended : List String,
    inputLines (encode s) = ended.map some ∧ ended.map trim = (lines s).map trim := by
  obtain ⟨ended, cut, same⟩ := exists_cutBytesFrom s.toList []
  refine ⟨ended.map String.ofList, ?_, ?_⟩
  · have cut : cutBytesFrom [] (s.toList.flatMap utf8EncodeChar) =
      ended.map (·.flatMap utf8EncodeChar) := cut
    have read : ∀ cs : List Char, decode? (cs.flatMap utf8EncodeChar) = some (String.ofList cs) := by
      intro cs
      rw [← String.toList_ofList (l := cs), ← encode_eq_flatMap, decode?_encode, String.toList_ofList]
    rw [inputLines, encode_eq_flatMap, cut, List.map_map, List.map_map]
    exact List.map_congr_left fun cs _ => read cs
  · have mapped := congrArg (List.map String.ofList) same
    rw [lines, map_trim_ofList, map_trim_ofList]
    exact mapped

end Bytes

end Reckon.Text
