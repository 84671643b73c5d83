/-!
# Decimal numbers

The written form of an integer: its decimal digits without leading zeros, after a minus sign when it
is negative. A run of digits is read back with any number of leading zeros.
-/

namespace Reckon.Text

/-- The number that a run of decimal digits denotes. -/
def digitsValue (digits : List Char) : Nat := Nat.ofDigitChars 10 digits 0

/-- The characters of an integer in decimal. -/
def decimalChars (i : Int) : List Char :=
  if i < 0 then '-' :: Nat.toDigits 10 i.natAbs else Nat.toDigits 10 i.natAbs

/-- The text of an integer in decimal. -/
def decimal (v : Int64) : String := String.ofList (decimalChars v.toInt)

/-- The written form of a natural number denotes it. -/
@[simp] theorem digitsValue_toDigits (n : Nat) : digitsValue (Nat.toDigits 10 n) = n :=
  Nat.ofDigitChars_ten_toDigits

/-- An integer is written with digits and a minus sign. -/
theorem mem_decimalChars {i : Int} {c : Char} (mem : c ∈ decimalChars i) :
    c = '-' ∨ c.isDigit = true := by
  rw [decimalChars] at mem
  split at mem
  · cases List.mem_cons.1 mem with
    | inl sign => exact .inl sign
    | inr digit => exact .inr (Nat.isDigit_of_mem_toDigits (by decide) (by decide) digit)
  · exact .inr (Nat.isDigit_of_mem_toDigits (by decide) (by decide) mem)

/-- Integers that are written the same are equal. -/
theorem decimalChars_inj {i j : Int} : decimalChars i = decimalChars j ↔ i = j := by
  refine ⟨fun same => ?_, fun same => same ▸ rfl⟩
  have digits : ∀ {n m : Nat}, Nat.toDigits 10 n = Nat.toDigits 10 m → n = m := by
    intro n m same
    rw [← digitsValue_toDigits n, same, digitsValue_toDigits]
  -- a minus sign is no digit
  have sign : ∀ n m : Nat, '-' :: Nat.toDigits 10 n ≠ Nat.toDigits 10 m := by
    intro n m same
    have mem : '-' ∈ Nat.toDigits 10 m := same ▸ List.mem_cons_self ..
    exact absurd (Nat.isDigit_of_mem_toDigits (by decide) (by decide) mem) (by decide)
  rw [decimalChars, decimalChars] at same
  split at same <;> split at same
  · have := digits (List.cons.inj same).2
    omega
  · exact absurd same (sign _ _)
  · exact absurd same.symm (sign _ _)
  · have := digits same
    omega

/-- Values that are written the same are equal. -/
theorem decimal_inj {v w : Int64} : decimal v = decimal w ↔ v = w := by
  rw [decimal, decimal, String.ofList_inj, decimalChars_inj, Int64.toInt_inj]

end Reckon.Text
