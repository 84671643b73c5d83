import Mathlib.Data.String.Basic
import Reckon.Text.Encoding

/-!
# The order of bytes

Names are kept in the order of their characters. This is also the order of their bytes in UTF-8
(`Text.encode_lt_encode_iff`): of two characters, the one with the smaller number has the smaller byte
where their encodings first differ, and neither encoding starts with the other
(`Text.encodeChar_append_lt`).
-/

namespace Reckon.Text

open String (utf8EncodeChar)

variable {c d : Char} {as bs : List UInt8} {v w : Nat}

/-- There are no more characters than this. -/
lemma charNumber_lt (c : Char) : c.val.toNat < 0x110000 := by
  have valid := c.valid
  simp only [UInt32.isValidChar, Nat.isValidChar] at valid
  omega

/-- Numbers below 256 in front of bytes decide their order, unless they are equal. -/
lemma ofNat_cons_lt (hv : v < 256) (hw : w < 256) (h : v < w ∨ v = w ∧ as < bs) :
    UInt8.ofNat v :: as < UInt8.ofNat w :: bs := by
  rw [List.cons_lt_cons_iff]
  cases h with
  | inl lt =>
    left
    rw [UInt8.lt_iff_toNat_lt, UInt8.toNat_ofNat_of_lt' hv, UInt8.toNat_ofNat_of_lt' hw]
    exact lt
  | inr same =>
    obtain ⟨rfl, lt⟩ := same
    exact .inr ⟨rfl, lt⟩

/-- The last `k` bytes of the encoding of a character with number `v`, six bits in each. -/
def laterBytes (v : Nat) : Nat → List UInt8
  | 0 => []
  | k + 1 => UInt8.ofNat (v / 64 ^ k % 64 + 128) :: laterBytes v k

/-- Numbers that agree in the bits in front have the order of their later bytes. -/
lemma laterBytes_append_lt (lt : v < w) (k : Nat) (front : v / 64 ^ k = w / 64 ^ k) :
    laterBytes v k ++ as < laterBytes w k ++ bs := by
  induction k with
  | zero => simp only [Nat.pow_zero, Nat.div_one] at front; omega
  | succ k ih =>
    apply ofNat_cons_lt (by omega) (by omega)
    have le : v / 64 ^ k ≤ w / 64 ^ k := Nat.div_le_div_right (Nat.le_of_lt lt)
    rw [Nat.pow_succ, ← Nat.div_div_eq_div_mul, ← Nat.div_div_eq_div_mul] at front
    cases Nat.lt_or_eq_of_le le with
    | inl less => left; omega
    | inr same => exact .inr ⟨by rw [same], ih same⟩

/-- Number of later bytes in the encoding of a character with number `v`. -/
def laterCount (v : Nat) : Nat :=
  if v ≤ 127 then 0 else if v ≤ 2047 then 1 else if v ≤ 65535 then 2 else 3

/-- The smallest first byte in front of `k` later bytes. -/
def leader : Nat → Nat
  | 0 => 0
  | 1 => 192
  | 2 => 224
  | 3 => 240
  | _ => 248

/-- The first byte of a character is at most 248. -/
lemma leader_le (k : Nat) : leader k ≤ 248 := by
  rcases k with _ | _ | _ | _ | k <;> simp [leader]

/-- A longer encoding has a greater first byte. -/
lemma leader_mono {k l : Nat} (le : k ≤ l) : leader k ≤ leader l := by
  rcases l with _ | _ | _ | _ | l <;> rcases k with _ | _ | _ | _ | k <;>
    simp only [leader] <;> omega

/-- The first byte of the encoding of a character with number `v`. -/
def firstByte (v : Nat) : Nat := v / 64 ^ laterCount v + leader (laterCount v)

/-- The first byte tells how many bytes are behind it. -/
lemma firstByte_bounds (bound : v < 0x110000) :
    leader (laterCount v) ≤ firstByte v ∧ firstByte v < leader (laterCount v + 1) := by
  refine ⟨Nat.le_add_left .., ?_⟩
  rw [firstByte, laterCount]
  split
  · simp only [leader, Nat.pow_zero, Nat.div_one]
    omega
  · split
    · simp only [leader, Nat.pow_one]
      omega
    · split
      · simp only [leader]
        omega
      · simp only [leader]
        omega

/-- A character is encoded in a first byte, with the bits in front, and in later bytes. -/
lemma utf8EncodeChar_eq (c : Char) : utf8EncodeChar c =
    UInt8.ofNat (firstByte c.val.toNat) :: laterBytes c.val.toNat (laterCount c.val.toNat) := by
  have bound := charNumber_lt c
  simp only [utf8EncodeChar, firstByte, laterCount]
  generalize c.val.toNat = v at bound
  split
  · simp [laterBytes, leader]
  · split
    · have small : v / 64 % 32 = v / 64 := Nat.mod_eq_of_lt (by omega)
      simp [laterBytes, leader, small]
    · split
      · have small : v / 4096 % 16 = v / 4096 := Nat.mod_eq_of_lt (by omega)
        simp [laterBytes, leader, small]
      · have small : v / 262144 % 8 = v / 262144 := Nat.mod_eq_of_lt (by omega)
        simp [laterBytes, leader, small]

/-- A smaller character comes first in UTF-8, whatever is behind the two. -/
lemma encodeChar_append_lt (lt : c < d) : utf8EncodeChar c ++ as < utf8EncodeChar d ++ bs := by
  have lt : c.val.toNat < d.val.toNat := lt
  have bound := charNumber_lt d
  rw [utf8EncodeChar_eq c, utf8EncodeChar_eq d]
  generalize c.val.toNat = v at lt
  generalize d.val.toNat = w at lt bound
  obtain ⟨low, high⟩ := firstByte_bounds bound
  obtain ⟨-, high'⟩ := firstByte_bounds (Nat.lt_trans lt bound)
  have count : laterCount v ≤ laterCount w := by
    simp only [laterCount]
    repeat' split
    all_goals omega
  have below := leader_le (laterCount w + 1)
  cases Nat.lt_or_eq_of_le count with
  | inl fewer =>
    have : leader (laterCount v + 1) ≤ leader (laterCount w) := leader_mono fewer
    exact ofNat_cons_lt (by omega) (by omega) (.inl (by omega))
  | inr same =>
    -- of as many bytes, the first to differ is that of the first bits to differ
    have le : v / 64 ^ laterCount w ≤ w / 64 ^ laterCount w :=
      Nat.div_le_div_right (Nat.le_of_lt lt)
    simp only [firstByte, same] at high high' ⊢
    apply ofNat_cons_lt (by omega) (by omega)
    cases Nat.lt_or_eq_of_le le with
    | inl less => exact .inl (Nat.add_lt_add_right less _)
    | inr front => exact .inr ⟨by rw [front], laterBytes_append_lt lt _ front⟩

/-- A text is encoded character by character. -/
lemma encode_eq_flatMap (s : String) : encode s = s.toList.flatMap utf8EncodeChar := by
  have bytes : s.toByteArray = (s.toList.flatMap utf8EncodeChar).toByteArray := by
    rw [← List.utf8Encode, ← String.toByteArray_ofList, String.ofList_toList]
  rw [encode, bytes, List.toList_data_toByteArray]

/-- Encoding keeps the order of characters. -/
lemma flatMap_lt {cs ds : List Char} (lt : cs < ds) :
    cs.flatMap utf8EncodeChar < ds.flatMap utf8EncodeChar := by
  induction lt with
  | @nil d ds =>
    rw [List.flatMap_cons]
    cases bytes : utf8EncodeChar d with
    | nil => exact absurd bytes (String.utf8EncodeChar_ne_nil)
    | cons => exact .nil
  | rel less => exact encodeChar_append_lt less
  | cons _ ih => exact List.append_left_lt ih

/-- Texts are in the order of their bytes. -/
lemma encode_lt_encode_iff {s t : String} : encode s < encode t ↔ s < t := by
  have mono : ∀ {s t : String}, s < t → encode s < encode t := by
    intro s t lt
    rw [encode_eq_flatMap, encode_eq_flatMap]
    exact flatMap_lt (String.lt_iff_toList_lt.1 lt)
  refine ⟨fun lt => ?_, mono⟩
  rcases lt_trichotomy s t with less | same | more
  · exact less
  · subst same
    exact absurd lt (List.lt_irrefl _)
  · exact absurd lt (List.lt_asymm (mono more))

end Reckon.Text
