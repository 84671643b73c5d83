import Mathlib.Data.List.Basic
import Reckon.Scope.Lemmas

/-!
# Layouts

A machine keeps variables in cells, and the code it runs knows their places from a layout: the scope
that the code was made against, of which only the slots matter. `Represents layout cells scope` says
that the cells hold what `scope` holds, each name at the slot that the layout gives it. There may be
more cells than slots, so the cells need not be those of the layout.

* `Represents.touch`, `Represents.assign`: reading and writing a name of the layout touches the cell
  at its slot and nothing else.
* `Represents.withCells`: any cells, if there are enough of them, represent some scope.
* `Represents.get?_withCells`: a scope that takes over the cells holds what they represent.
-/

namespace Reckon

namespace Scope

/-- One layout continues another: the slots of the first are the same in the second. -/
def Continues (first second : Scope) : Prop := first.names <+: second.names

/-- A table continues itself. -/
lemma Continues.refl (s : Scope) : Continues s s := List.prefix_refl s.names

/-- What continues a continuation continues the first table. -/
lemma Continues.trans {a b c : Scope} (h₁ : Continues a b) (h₂ : Continues b c) : Continues a c :=
  List.IsPrefix.trans h₁ h₂

/-- Reserving a name continues a layout. -/
lemma continues_reserve (s : Scope) (n : String) : Continues s (s.reserve n) := by
  rw [Continues, names_reserve]
  split
  · exact List.prefix_refl _
  · exact List.prefix_append _ _

/-- Reading or writing a name continues a layout, since it gives a slot at most. -/
lemma continues_touch (s : Scope) (n : String) : Continues s (s.touch n) := by
  rw [Continues, names_touch]
  exact continues_reserve s n

/-- To give a name a value moves no slot. -/
lemma continues_assign (s : Scope) (n : String) (v : Int64) : Continues s (s.assign n v) := by
  rw [Continues, names_assign]
  exact continues_reserve s n

/-- A change of cells leaves the slots where they are. -/
lemma continues_withCells (s : Scope) (cells : Cells) : Continues s (s.withCells cells) := by
  show s.names <+: (s.withCells cells).names
  exact (names_withCells s cells).symm ▸ List.prefix_refl s.names

/-- A name with a slot keeps having one. -/
lemma Continues.mem {a b : Scope} {n : String} (h : Continues a b) (mem : n ∈ a.names) :
    n ∈ b.names :=
  h.subset mem

/-- A name keeps its slot in a layout that is continued. -/
lemma Continues.slot_eq {a b : Scope} {n : String} (h : Continues a b) (mem : n ∈ a.names) :
    b.slot n = a.slot n := by
  obtain ⟨more, eq⟩ := h
  rw [slot, slot, ← eq, List.idxOf_append_of_mem mem]

/-- A name that has just got its slot keeps it in a layout that is continued. -/
lemma Continues.slot_eq_of_reserve {a b : Scope} {n : String} (h : Continues (a.reserve n) b) :
    b.slot n = a.slot n := by
  rw [h.slot_eq (mem_names_reserve.2 (.inl rfl)), slot_reserve_self]

/-- Names with the same slot are the same. -/
lemma slot_injective {s : Scope} {n m : String} (mem : n ∈ s.names) (same : s.slot n = s.slot m) :
    n = m :=
  (List.idxOf_inj mem).1 same

end Scope

open Scope

/-- The cells hold the values of a scope, each at the slot that the layout has for its name. A name
outside the layout has no value. -/
structure Represents (layout : Scope) (cells : Cells) (scope : Scope) : Prop where
  fits : layout.size ≤ cells.size
  inside : ∀ n ∈ layout.names, cells[layout.slot n]? = some (scope.get? n)
  outside : ∀ n ∉ layout.names, scope.get? n = none

namespace Represents

variable {layout scope scope' : Scope} {cells : Cells} {n : String}

/-- A change of one cell goes with a change of the value of its name. -/
lemma set (h : Represents layout cells scope) (mem : n ∈ layout.names) {v? : Option Int64}
    (here : scope'.get? n = v?) (elsewhere : ∀ m, m ≠ n → scope'.get? m = scope.get? m) :
    Represents layout (cells.setIfInBounds (layout.slot n) v?) scope' where
  fits := by
    rw [Array.size_setIfInBounds]
    exact h.fits
  inside m mem' := by
    cases decEq m n with
    | isTrue same =>
      subst same
      have room : layout.slot m < cells.size := Nat.lt_of_lt_of_le (slot_lt mem) h.fits
      rw [Array.getElem?_setIfInBounds_self_of_lt room, here]
    | isFalse differ =>
      -- names do not share slots, so no other cell is meant
      have other : layout.slot n ≠ layout.slot m := fun eq => differ (slot_injective mem eq).symm
      rw [Array.getElem?_setIfInBounds_ne other, h.inside m mem', elsewhere m differ]
  outside m absent := by
    have other : m ≠ n := fun same => absent (same ▸ mem)
    rw [elsewhere m other, h.outside m absent]

/-- To read a name is to put its value in its cell. -/
lemma touch (h : Represents layout cells scope) (mem : n ∈ layout.names) :
    Represents layout (cells.setIfInBounds (layout.slot n) (some (scope.value n)))
      (scope.touch n) := by
  apply h.set mem
  · rw [get?_touch, if_pos rfl]
  · intro m other
    rw [get?_touch, if_neg other]

/-- To give a name a value is to put it in its cell. -/
lemma assign (h : Represents layout cells scope) (mem : n ∈ layout.names) (v : Int64) :
    Represents layout (cells.setIfInBounds (layout.slot n) (some v)) (scope.assign n v) := by
  apply h.set mem
  · rw [get?_assign, if_pos rfl]
  · intro m other
    rw [get?_assign, if_neg other]

/-- Cells without values represent the scope without variables. -/
lemma empty (layout : Scope) : Represents layout (Array.replicate layout.size none) .empty where
  fits := by simp
  inside n mem := by simp [slot_lt mem]
  outside n _ := get?_empty n

/-- The cells of a layout represent any scope that holds the same values. -/
lemma ofLayout (same : ∀ n, scope.get? n = layout.get? n) :
    Represents layout layout.cells scope where
  fits := by simp
  inside n mem := by rw [getElem?_cells_slot mem, same]
  outside n absent := by rw [same, get?_of_not_mem absent]

/-- Any cells represent some scope if there is one for every slot: the layout with these values. -/
lemma withCells (layout : Scope) {cells : Cells} (fits : layout.size ≤ cells.size) :
    Represents layout cells (layout.withCells cells) where
  fits := fits
  inside n mem := (get?_withCells fits mem).symm
  outside n absent := get?_of_not_mem (by simpa using absent)

/-- A layout that takes over cells holds what they represent. -/
lemma get?_withCells (h : Represents layout cells scope) (n : String) :
    (layout.withCells cells).get? n = scope.get? n := by
  by_cases mem : n ∈ layout.names
  · have eq : some ((layout.withCells cells).get? n) = some (scope.get? n) :=
      (Scope.get?_withCells h.fits mem).trans (h.inside n mem)
    exact Option.some.inj eq
  · rw [h.outside n mem, get?_of_not_mem (by simpa using mem)]

end Represents

end Reckon
