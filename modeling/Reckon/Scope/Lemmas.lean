import Reckon.Scope

/-!
# What the operations do to a scope

Each operation is described by the names in the order of their slots and by the value of every name:

* `reserve` changes no value, and `names_reserve` puts a new name behind the others, so the slot of a
  name that has one stays (`slot_reserve`).
* `assign` and `touch` change the value of one name only (`get?_assign`, `get?_touch`).
* A slot holds the value of its name (`getElem?_cells_slot`), and `withCells` gives each name the value
  in its slot (`get?_withCells`).
* The live variables are those with a value (`find?_live`).
-/

namespace Reckon.Scope

/-- The empty scope has no names. -/
@[simp] theorem names_empty : empty.names = [] := rfl

/-- The empty scope holds nothing. -/
@[simp] theorem get?_empty (n : String) : empty.get? n = none := rfl

/-- There are as many names as slots. -/
@[simp] theorem length_names (s : Scope) : s.names.length = s.size := by simp [names, size]

/-- There are as many cells as slots. -/
@[simp] theorem size_cells (s : Scope) : s.cells.size = s.size := by simp [cells, size]

/-- No name has two slots. -/
theorem nodup_names (s : Scope) : s.names.Nodup := s.distinct

/-- A name that has a slot gets no other. -/
theorem reserve_of_mem {s : Scope} {n : String} (mem : n ∈ s.names) : s.reserve n = s := dif_pos mem

/-- A new name stands behind the others. -/
theorem names_reserve (s : Scope) (n : String) :
    (s.reserve n).names = if n ∈ s.names then s.names else s.names ++ [n] := by
  rw [reserve]
  split
  · rfl
  · simp [names]

/-- A name has a slot once it is reserved, as have those that had one. -/
theorem mem_names_reserve {s : Scope} {n m : String} :
    m ∈ (s.reserve n).names ↔ m = n ∨ m ∈ s.names := by
  rw [names_reserve]
  split
  · refine ⟨.inr, fun h => ?_⟩
    cases h with
    | inl same =>
      rw [same]
      assumption
    | inr mem => exact mem
  · simp [or_comm]

/-- To change a value changes no name. -/
@[simp] theorem names_update (s : Scope) (n : String) (f : Option Int64 → Option Int64) :
    (s.update n f).names = s.names := by
  simp only [names, update, List.map_map]
  refine List.map_congr_left fun v _ => ?_
  simp only [Function.comp]
  split <;> rfl

/-- To give a name a value is to give it a slot. -/
@[simp] theorem names_assign (s : Scope) (n : String) (v : Int64) :
    (s.assign n v).names = (s.reserve n).names := names_update ..

/-- To read a name is to give it a slot. -/
@[simp] theorem names_touch (s : Scope) (n : String) :
    (s.touch n).names = (s.reserve n).names := names_update ..

/-- To change the cells changes no name. -/
@[simp] theorem names_withCells (s : Scope) (cells : Cells) :
    (s.withCells cells).names = s.names := by
  refine List.ext_getElem? fun i => ?_
  simp [names, withCells, Function.comp_def]

/-- The slot of a name never changes once it has one. -/
theorem slot_reserve {s : Scope} {n m : String} (h : m ∈ s.names) :
    (s.reserve n).slot m = s.slot m := by
  rw [slot, slot, names_reserve]
  split
  · rfl
  · rw [List.idxOf_append, if_pos h]

/-- The slot that a name gets is the one it was told before it had it. -/
@[simp] theorem slot_reserve_self (s : Scope) (n : String) : (s.reserve n).slot n = s.slot n := by
  by_cases h : n ∈ s.names
  · exact slot_reserve h
  · rw [slot, slot, names_reserve, if_neg h, List.idxOf_append, if_neg h, List.idxOf_eq_length h]
    simp

/-- The slot of a name is in the scope. -/
theorem slot_lt {s : Scope} {n : String} (h : n ∈ s.names) : s.slot n < s.size := by
  rw [← length_names]
  exact List.idxOf_lt_length_of_mem h

/-- Reserving a slot changes no value. -/
@[simp] theorem get?_reserve (s : Scope) (n m : String) : (s.reserve n).get? m = s.get? m := by
  rw [reserve]
  split
  · rfl
  · simp only [get?, List.find?_append, List.find?_singleton]
    cases h : s.vars.find? (·.name == m) with
    | some v => rfl
    | none =>
      by_cases same : n = m <;> simp [same]

/-- A name without a slot has no value. -/
theorem get?_of_not_mem {s : Scope} {n : String} (h : n ∉ s.names) : s.get? n = none := by
  have absent : s.vars.find? (·.name == n) = none := by
    rw [List.find?_eq_none]
    intro v mem same
    exact h (List.mem_map.2 ⟨v, mem, by simpa using same⟩)
  rw [get?, absent]
  rfl

/-- Changing the value of a name with a slot changes no other. -/
theorem get?_update {s : Scope} {n m : String} {f : Option Int64 → Option Int64} (h : n ∈ s.names) :
    (s.update n f).get? m = if m = n then f (s.get? n) else s.get? m := by
  have keep : ∀ v : Variable, (if v.name = n then Variable.mk v.name (f v.value?) else v).name =
      v.name := fun v => by split <;> rfl
  simp only [get?, update, List.find?_map, Function.comp_def, keep]
  by_cases same : m = n
  · subst same
    obtain ⟨w, mem, name⟩ := List.mem_map.1 h
    cases found : s.vars.find? (·.name == m) with
    | none => exact absurd (by simpa using name) (List.find?_eq_none.1 found w mem)
    | some v =>
      have name : v.name = m := by simpa using List.find?_some found
      simp [name]
  · cases found : s.vars.find? (·.name == m) with
    | none => simp [same]
    | some v =>
      have name : v.name = m := by simpa using List.find?_some found
      simp [name, same]

/-- A name that was assigned has the value assigned, and no other value changed. -/
theorem get?_assign (s : Scope) (n m : String) (v : Int64) :
    (s.assign n v).get? m = if m = n then some v else s.get? m := by
  rw [assign, get?_update (mem_names_reserve.2 (.inl rfl)), get?_reserve]

/-- A name that was read is live, and no other value changed. -/
theorem get?_touch (s : Scope) (n m : String) :
    (s.touch n).get? m = if m = n then some (s.value n) else s.get? m := by
  rw [touch, get?_update (mem_names_reserve.2 (.inl rfl)), get?_reserve, get?_reserve]
  rfl

/-- In a list of variables, the value at the place of a name is that of the variable found by it. -/
theorem getElem?_idxOf {vars : List Variable} {n : String} (mem : n ∈ vars.map Variable.name) :
    (vars.map Variable.value?)[(vars.map Variable.name).idxOf n]? =
      some ((vars.find? (·.name == n)).bind Variable.value?) := by
  induction vars with
  | nil => cases mem
  | cons v rest ih =>
    by_cases same : v.name = n
    · simp [same]
    · have mem : n ∈ rest.map Variable.name := by
        cases List.mem_cons.1 mem with
        | inl first => exact absurd first.symm same
        | inr mem => exact mem
      have differ : (v.name == n) = false := by simpa using same
      rw [List.map_cons, List.map_cons, List.idxOf_cons, differ, cond_false,
        List.getElem?_cons_succ, ih mem, List.find?_cons_of_neg (by simpa using same)]

/-- The slot of a name holds its value. -/
theorem getElem?_cells_slot {s : Scope} {n : String} (h : n ∈ s.names) :
    s.cells[s.slot n]? = some (s.get? n) := by
  rw [cells, List.getElem?_toArray]
  exact getElem?_idxOf h

/-- The cells of a scope after `withCells` are the given ones, as far as it has slots. -/
theorem cells_withCells {s : Scope} {cells : Cells} (size : cells.size = s.size) :
    (s.withCells cells).cells = cells := by
  refine Array.ext (by simp [Scope.cells, withCells, size, Scope.size]) fun i h h' => ?_
  simp [Scope.cells, withCells, h']

/-- Each name gets the value in its slot, if there are cells for all slots. -/
theorem get?_withCells {s : Scope} {n : String} {cells : Cells} (size : s.size ≤ cells.size)
    (h : n ∈ s.names) : some ((s.withCells cells).get? n) = cells[s.slot n]? := by
  have mem : n ∈ (s.withCells cells).names := by simpa using h
  have slot : (s.withCells cells).slot n = s.slot n := by simp [Scope.slot]
  have lt := slot_lt h
  have inside : s.slot n < s.vars.length := lt
  rw [← getElem?_cells_slot mem, slot]
  simp [Scope.cells, withCells, inside, Nat.lt_of_lt_of_le lt size]

section Live

variable {live : Catalogue (Prod.fst : String × Int64 → String)} {v : Variable} {n : String}

/-- A live variable that is added is found. -/
theorem find?_addLive_self :
    (addLive live v).find? v.name = (v.value?.map (v.name, ·)).or (live.find? v.name) := by
  cases held : v.value? with
  | none => simp [addLive, held]
  | some value =>
    simp only [addLive, held, Option.map_some, Option.some_or]
    exact Catalogue.find?_insert_self (v.name, value) live

/-- A variable that is added changes nothing under other names. -/
theorem find?_addLive_of_ne (differ : v.name ≠ n) : (addLive live v).find? n = live.find? n := by
  rw [addLive]
  split
  · exact Catalogue.find?_insert_of_ne live differ
  · rfl

/-- What was added from a list of variables is found before what was there already. -/
theorem find?_foldl_addLive (vars : List Variable) (distinct : (vars.map Variable.name).Nodup) :
    (vars.foldl addLive live).find? n =
      (((vars.find? (·.name == n)).bind Variable.value?).map (n, ·)).or (live.find? n) := by
  induction vars generalizing live with
  | nil => rfl
  | cons v rest ih =>
    obtain ⟨fresh, distinct⟩ := List.nodup_cons.1 distinct
    rw [List.foldl_cons, ih distinct]
    by_cases same : v.name = n
    · subst same
      -- no name stands twice in the list
      have absent : rest.find? (·.name == v.name) = none := by
        rw [List.find?_eq_none]
        intro w mem eq
        exact fresh (List.mem_map.2 ⟨w, mem, by simpa using eq⟩)
      rw [absent, List.find?_cons_of_pos (by simp), find?_addLive_self]
      rfl
    · rw [List.find?_cons_of_neg (by simpa using same), find?_addLive_of_ne same]

/-- The live variables are the names that have a value. -/
theorem find?_live (s : Scope) (n : String) : s.live.find? n = (s.get? n).map (n, ·) := by
  rw [Scope.live, find?_foldl_addLive s.vars s.distinct, Catalogue.find?_empty, Option.or_none]
  rfl

end Live

end Reckon.Scope
