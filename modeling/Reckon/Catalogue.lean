/-!
# Catalogues

A `Catalogue name` is a finite collection of entries with at most one entry under each name. It
keeps its entries in strictly increasing order of their names, so two catalogues with the same
entries are equal whatever order they were filled in.

The operations are told apart by what they do to `find?`: `find?_insert_self`,
`find?_insert_of_ne` and `find?_empty`. A catalogue is determined by what is found in it (`ext_find?`).
-/

namespace Reckon

/-- A collection of entries in strictly increasing order of their names. -/
structure Catalogue {α : Type} (name : α → String) where
  entries : List α
  sorted : entries.Pairwise (name · < name ·)

namespace Catalogue

variable {α : Type} {name : α → String}

/-- The collection without entries. -/
def empty : Catalogue name := ⟨[], .nil⟩

/-- The entry under a name. -/
def find? (c : Catalogue name) (n : String) : Option α := c.entries.find? (name · == n)

/-- Whether there is an entry under a name. -/
def contains (c : Catalogue name) (n : String) : Bool := (c.find? n).isSome

/-- Number of entries. -/
def size (c : Catalogue name) : Nat := c.entries.length

/-- Puts `e` at its place in a sorted list, instead of an entry of the same name. -/
def place (name : α → String) (e : α) : List α → List α
  | [] => [e]
  | a :: rest =>
    if name e < name a then e :: a :: rest
    else if name e = name a then e :: rest
    else a :: place name e rest

/-- An entry that is there after `place` was placed or was there before. -/
theorem mem_place {e x : α} {l : List α} (h : x ∈ place name e l) : x = e ∨ x ∈ l := by
  induction l with
  | nil => simpa [place] using h
  | cons a rest ih =>
    simp only [place] at h
    split at h
    · simpa using h
    · split at h
      · rcases List.mem_cons.1 h with rfl | h
        · exact .inl rfl
        · exact .inr (List.mem_cons_of_mem _ h)
      · rcases List.mem_cons.1 h with rfl | h
        · exact .inr (by simp)
        · rcases ih h with rfl | h
          · exact .inl rfl
          · exact .inr (List.mem_cons_of_mem _ h)

/-- Placing an entry keeps the order of the names. -/
theorem pairwise_place {e : α} {l : List α} (h : l.Pairwise (name · < name ·)) :
    (place name e l).Pairwise (name · < name ·) := by
  induction l with
  | nil => simp [place]
  | cons a rest ih =>
    obtain ⟨above, sorted⟩ := List.pairwise_cons.1 h
    simp only [place]
    split
    · refine List.pairwise_cons.2 ⟨fun x mem => ?_, h⟩
      rcases List.mem_cons.1 mem with rfl | mem
      · assumption
      · exact String.lt_trans (by assumption) (above x mem)
    · split
      · rename_i same
        exact List.pairwise_cons.2 ⟨fun x mem => same ▸ above x mem, sorted⟩
      · rename_i notLt ne
        refine List.pairwise_cons.2 ⟨fun x mem => ?_, ih sorted⟩
        rcases mem_place mem with rfl | mem
        · have le := String.not_lt.1 notLt
          exact Decidable.byContradiction fun h => ne (String.le_antisymm (String.not_lt.1 h) le)
        · exact above x mem

/-- Adds an entry, in the place of the one that had its name. -/
def insert (e : α) (c : Catalogue name) : Catalogue name :=
  ⟨place name e c.entries, pairwise_place c.sorted⟩

/-- Nothing is found where there is nothing. -/
@[simp] theorem find?_empty (n : String) : (empty : Catalogue name).find? n = none := rfl

/-- What is found under the name of the entry just added is that entry. -/
@[simp] theorem find?_insert_self (e : α) (c : Catalogue name) :
    (c.insert e).find? (name e) = some e := by
  obtain ⟨l, sorted⟩ := c
  simp only [find?, insert]
  clear sorted
  induction l with
  | nil => simp [place]
  | cons a rest ih =>
    simp only [place]
    split
    · simp
    · split
      · simp
      · rename_i ne
        rw [List.find?_cons_of_neg (by simpa using Ne.symm ne)]
        exact ih

/-- Adding an entry changes nothing under the other names. -/
theorem find?_insert_of_ne {e : α} {n : String} (c : Catalogue name) (h : name e ≠ n) :
    (c.insert e).find? n = c.find? n := by
  obtain ⟨l, sorted⟩ := c
  simp only [find?, insert]
  clear sorted
  induction l with
  | nil => simp [place, h]
  | cons a rest ih =>
    simp only [place]
    split
    · rw [List.find?_cons_of_neg (by simpa using h)]
    · split
      · rename_i same
        rw [List.find?_cons_of_neg (by simpa using h),
          List.find?_cons_of_neg (by simpa [← same] using h)]
      · simp only [List.find?_cons]
        split
        · rfl
        · exact ih

/-- There is an entry under the name of the one just added and under those that had one. -/
theorem contains_insert {e : α} {n : String} {c : Catalogue name} :
    (c.insert e).contains n ↔ name e = n ∨ c.contains n := by
  cases decEq (name e) n with
  | isTrue same =>
    subst same
    rw [contains, find?_insert_self]
    exact iff_of_true rfl (.inl rfl)
  | isFalse differ =>
    rw [contains, find?_insert_of_ne c differ]
    exact (or_iff_right differ).symm

/-- An entry that is found has the name it was asked by. -/
theorem name_of_find? {c : Catalogue name} {n : String} {e : α} (h : c.find? n = some e) :
    name e = n := by
  simpa using List.find?_some h

/-- The entries are those that are found under their names. -/
theorem mem_entries_iff {c : Catalogue name} {e : α} :
    e ∈ c.entries ↔ c.find? (name e) = some e := by
  obtain ⟨l, sorted⟩ := c
  simp only [find?]
  constructor
  · intro mem
    induction l with
    | nil => cases mem
    | cons a rest ih =>
      obtain ⟨above, sorted⟩ := List.pairwise_cons.1 sorted
      rcases List.mem_cons.1 mem with rfl | mem
      · simp
      · have differ : name a ≠ name e := fun same => String.lt_irrefl _ (same ▸ above e mem)
        rw [List.find?_cons_of_neg (by simpa using differ)]
        exact ih sorted mem
  · exact List.mem_of_find?_eq_some

/-- Lists in strictly increasing order of the names are equal if they have the same members. -/
theorem eq_of_mem_iff {l m : List α} (hl : l.Pairwise (name · < name ·))
    (hm : m.Pairwise (name · < name ·)) (same : ∀ e, e ∈ l ↔ e ∈ m) : l = m := by
  have distinct : ∀ l : List α, l.Pairwise (name · < name ·) → l.Nodup := by
    intro l sorted
    refine sorted.imp fun {a b} lt eq => ?_
    exact String.lt_irrefl _ (eq ▸ lt)
  have perm : l.Perm m := (List.perm_ext_iff_of_nodup (distinct l hl) (distinct m hm)).2 same
  exact perm.eq_of_pairwise (fun a b _ _ lt gt => absurd lt (String.lt_asymm gt)) hl hm

/-- Two catalogues in which the same is found are equal. -/
theorem ext_find? {c d : Catalogue name} (same : ∀ n, c.find? n = d.find? n) : c = d := by
  have entries : c.entries = d.entries := eq_of_mem_iff c.sorted d.sorted fun e => by
    rw [mem_entries_iff, mem_entries_iff, same]
  cases c
  cases d
  cases entries
  rfl

end Catalogue

end Reckon
