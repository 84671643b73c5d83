/-!
# Ranges of characters

A character property of the Unicode standard is stored as the increasing list of the closed ranges of
code points that have it, and asked by `inRanges`.
-/

namespace Reckon.Text

/-- Membership of `n` in one of the closed ranges. The ranges stand in increasing order, so the
search ends at the first one that starts above `n`. -/
def inRanges (n : Nat) : List (Nat × Nat) → Bool
  | [] => false
  | (first, last) :: rest =>
    if n < first then false else if n ≤ last then true else inRanges n rest

/-- A code point found in the ranges lies in one of them. -/
theorem exists_of_inRanges {n : Nat} {ranges : List (Nat × Nat)} (h : inRanges n ranges = true) :
    ∃ r ∈ ranges, r.1 ≤ n ∧ n ≤ r.2 := by
  induction ranges with
  | nil => simp [inRanges] at h
  | cons r rest ih =>
    obtain ⟨first, last⟩ := r
    simp only [inRanges] at h
    split at h
    · cases h
    · split at h
      · exact ⟨(first, last), by simp, by omega, by assumption⟩
      · obtain ⟨r, mem, lo, hi⟩ := ih h
        exact ⟨r, by simp [mem], lo, hi⟩

end Reckon.Text
