import Reckon.Proofs.History
import Reckon.Scope.Table

/-!
# Symbol tables hold scopes

A symbol table keeps the slots of names and the cells of slots apart, and each operation changes the one
and then the other. Still they stay in step: the table holds what a scope does that the same was done to
(`SymbolTable.Holds`), so no operation meets a slot without a cell.

* `SymbolTable.Holds.resolve`, `Holds.write`, `Holds.assign`, `Holds.lookup`: the operations one by one.
* `SymbolTable.Holds.perform`: one step of a history, and `SymbolTable.holds_ofHistory`: a whole one.
* `SymbolTable.Holds.get`, `Holds.bindings`, `Holds.liveCount`, `Holds.text`: what is asked of a table.
* `SymbolTable.slot?_ofHistory`, `get?_ofHistory`, `lookup?_ofHistory`: what a history tells of a table.
* `SymbolTable.ofHistory_represents`: what a history leaves in the two containers.
-/

namespace Reckon.SymbolTable

open Text
open Scope (Op lastValue resolved)
open Token (isName)

variable {t u : SymbolTable} {s : Scope} {n m : String} {i : Nat}

/-- A table holds what a scope does: each slot is filed for its name, and there are the same cells. -/
structure Holds (t : SymbolTable) (s : Scope) : Prop where
  filed : ∀ n i, t.slot? n = some i ↔ s.names[i]? = some n
  cells : t.cells = s.cells

/-- Once a slot was filed for a name, it is found under this name, and the others are where they were. -/
lemma slot?_insert (t : SymbolTable) (n m : String) (i : Nat) (cells : Cells) :
    slot? ⟨t.slots.insert (n, i), cells⟩ m = if m = n then some i else t.slot? m := by
  rw [slot?, slot?]
  by_cases same : m = n
  · subst same
    have here : (t.slots.insert (m, i)).find? m = some (m, i) := Catalogue.find?_insert_self (m, i) _
    rw [if_pos rfl, here, Option.map_some]
  · have other : (Prod.fst (n, i) : String) ≠ m := Ne.symm same
    rw [if_neg same, Catalogue.find?_insert_of_ne t.slots other]

/-- The map lists the slots that are filed. -/
lemma mem_entries_iff_slot? : (n, i) ∈ t.slots.entries ↔ t.slot? n = some i := by
  rw [Catalogue.mem_entries_iff, slot?, Option.map_eq_some_iff]
  refine ⟨fun found => ⟨(n, i), found, rfl⟩, fun ⟨b, found, slot⟩ => ?_⟩
  have name : b.1 = n := Catalogue.name_of_find? found
  rw [found, ← name, ← slot]

/-- The places in a list with one more member. -/
lemma getElem?_concat_eq_some_iff {l : List String} :
    (l ++ [n])[i]? = some m ↔ l[i]? = some m ∨ i = l.length ∧ n = m := by
  rw [List.getElem?_append]
  split
  · have inside : i ≠ l.length := by omega
    simp [inside]
  · have outside : l[i]? = none := List.getElem?_eq_none (by omega)
    rw [outside, List.getElem?_singleton]
    by_cases last : i = l.length
    · simp [last]
    · have behind : i - l.length ≠ 0 := by omega
      simp [last, behind]

/-- Where each filed slot has a cell, those are listed that hold a value. -/
lemma held?_eq {cells : Cells} {l : List (String × Nat)} {f : String → Option Int64}
    (filed : ∀ b ∈ l, cells[b.2]? = some (f b.1)) :
    held? cells l = some (l.filterMap fun b => (f b.1).map (b.1, ·)) := by
  induction l with
  | nil => rfl
  | cons b rest ih =>
    obtain ⟨n, slot⟩ := b
    obtain ⟨first, others⟩ := List.forall_mem_cons.1 filed
    rw [held?, first, ih others, List.filterMap_cons]
    cases f n <;> rfl

/-- The empty table holds what the empty scope does. -/
lemma holds_empty : Holds .empty .empty := ⟨fun _ _ => ⟨nofun, nofun⟩, rfl⟩

namespace Holds

/-- A name that is filed has its slot in the scope. -/
lemma slot_eq (holds : Holds t s) (found : t.slot? n = some i) : n ∈ s.names ∧ s.slot n = i :=
  Scope.getElem?_names_eq_some_iff.1 ((holds.filed n i).1 found)

/-- A name that is not filed has no slot in the scope. -/
lemma not_mem (holds : Holds t s) (none : t.slot? n = none) : n ∉ s.names := by
  intro mem
  have found := (holds.filed n _).2 (Scope.getElem?_names_eq_some_iff.2 ⟨mem, rfl⟩)
  cases none.symm.trans found

/-- There is a cell for each slot. -/
lemma size (holds : Holds t s) : t.cells.size = s.size := by rw [holds.cells, Scope.size_cells]

/-- A table that holds what a scope does is the only one. -/
lemma unique (ht : Holds t s) (hu : Holds u s) : t = u := by
  have slots : t.slots = u.slots := Catalogue.ext_find? fun n => by
    have same : t.slot? n = u.slot? n := Option.ext fun i => (ht.filed n i).trans (hu.filed n i).symm
    have own : ∀ (c : Catalogue (Prod.fst : String × Nat → String)) b, c.find? n = some b →
        b = (n, b.2) := fun c b found => Prod.ext (Catalogue.name_of_find? found) rfl
    rw [slot?, slot?] at same
    cases ft : t.slots.find? n <;> cases fu : u.slots.find? n <;> rw [ft, fu] at same
    · cases same
    · cases same
    · rw [own _ _ ft, own _ _ fu, Option.some.inj same]
  cases t
  cases u
  cases slots
  cases ht.cells.trans hu.cells.symm
  rfl

/-- A name is resolved to its slot in the scope, where it has one from then on. -/
lemma resolve (holds : Holds t s) (n : String) :
    ∃ u, t.resolve n = (s.slot n, u) ∧ Holds u (s.reserve n) := by
  rw [SymbolTable.resolve]
  cases found : t.slot? n with
  | some i =>
    obtain ⟨mem, slot⟩ := holds.slot_eq found
    rw [Scope.reserve_of_mem mem, slot]
    exact ⟨t, rfl, holds⟩
  | none =>
    have fresh := holds.not_mem found
    have names : (s.reserve n).names = s.names ++ [n] := by rw [Scope.names_reserve, if_neg fresh]
    have slot : t.cells.size = s.slot n := by
      rw [holds.size, Scope.slot, List.idxOf_eq_length fresh, Scope.length_names]
    refine ⟨_, Prod.ext slot rfl, fun m i => ?_, ?_⟩
    · rw [slot?_insert, names, getElem?_concat_eq_some_iff, ← holds.filed, Scope.length_names,
        holds.size]
      split
      · rename_i same
        subst same
        simp [found, eq_comm]
      · rename_i other
        simp [Ne.symm other]
    · rw [Scope.cells, Scope.reserve, dif_neg fresh, holds.cells, Scope.cells]
      simp

/-- A cell that is there is written. -/
lemma write (holds : Holds t s) (lt : i < s.size) (v? : Option Int64) :
    ∃ u, t.write? i v? = some u ∧ Holds u (s.setCell i v?) := by
  have there : i < t.cells.size := by
    rw [holds.size]
    exact lt
  refine ⟨_, if_pos there, fun n j => ?_, ?_⟩
  · rw [Scope.setCell, Scope.names_withCells]
    exact holds.filed n j
  · have size : (s.cells.setIfInBounds i v?).size = s.size := by simp
    rw [Scope.setCell, Scope.cells_withCells size, ← holds.cells]

/-- A value is put in the slot of its name. -/
lemma assign (holds : Holds t s) (n : String) (v : Int64) :
    ∃ u, t.assign? n v = some u ∧ Holds u (s.assign n v) := by
  obtain ⟨after, found, resolved⟩ := holds.resolve n
  rw [assign?, found, Scope.assign_eq_setCell]
  exact resolved.write (Scope.slot_lt_reserve s n) (some v)

/-- A name is read from its slot, and its cell holds what was read. -/
lemma lookup (holds : Holds t s) (n : String) :
    ∃ u, t.lookup? n = some (s.value n, u) ∧ Holds u (s.touch n) := by
  obtain ⟨after, found, resolved⟩ := holds.resolve n
  obtain ⟨u, written, left⟩ := resolved.write (Scope.slot_lt_reserve s n) (some (s.value n))
  have cell : after.cells[s.slot n]? = some (s.get? n) := by
    rw [resolved.cells, Scope.getElem?_cells_reserve]
  have value : (s.get? n).getD 0 = s.value n := rfl
  refine ⟨u, ?_, Scope.touch_eq_setCell s n ▸ left⟩
  rw [lookup?, found]
  simp only [cell, value, written, Option.map_some]

/-- What is held under a name is found there. -/
lemma get (holds : Holds t s) (n : String) : t.get? n = some (s.get? n) := by
  rw [get?]
  cases found : t.slot? n with
  | none => rw [Scope.get?_of_not_mem (holds.not_mem found)]
  | some i =>
    obtain ⟨mem, slot⟩ := holds.slot_eq found
    rw [← Scope.getElem?_cells_slot mem, slot, holds.cells]

/-- The live variables are listed in the order of their names. -/
lemma bindings (holds : Holds t s) : t.bindings? = some s.live.entries := by
  have filed : ∀ b : String × Nat, b ∈ t.slots.entries → t.cells[b.2]? = some (s.get? b.1) := by
    intro b mem
    obtain ⟨mem, slot⟩ := holds.slot_eq (mem_entries_iff_slot?.1 mem)
    rw [← Scope.getElem?_cells_slot mem, slot, holds.cells]
  rw [bindings?, held?_eq filed]
  refine congrArg some (Catalogue.eq_of_mem_iff ?_ s.live.sorted fun e => ?_)
  · refine List.pairwise_filterMap.2 (t.slots.sorted.imp fun {a b} lt c hc d hd => ?_)
    obtain ⟨v, -, rfl⟩ := Option.map_eq_some_iff.1 hc
    obtain ⟨w, -, rfl⟩ := Option.map_eq_some_iff.1 hd
    exact lt
  · obtain ⟨n, v⟩ := e
    rw [Scope.mem_entries_live, List.mem_filterMap]
    constructor
    · rintro ⟨b, -, here⟩
      obtain ⟨w, held, eq⟩ := Option.map_eq_some_iff.1 here
      cases eq
      exact held
    · intro held
      have mem := Scope.mem_of_live held
      have found := (holds.filed n _).2 (Scope.getElem?_names_eq_some_iff.2 ⟨mem, rfl⟩)
      exact ⟨(n, s.slot n), mem_entries_iff_slot?.2 found, by rw [held, Option.map_some]⟩

/-- As many cells hold a value as there are live variables. -/
lemma liveCount (holds : Holds t s) : t.liveCount = s.liveCount := by
  rw [SymbolTable.liveCount, Scope.liveCount, holds.cells, Scope.cells]
  simp [List.countP_map, Function.comp_def]

/-- The table is shown as the scope is. -/
lemma text (holds : Holds t s) : t.text? = some s.text := by
  rw [text?, holds.bindings]
  rfl

end Holds

section Histories

variable {op : Op} {ops : List Op}

/-- What an operation makes of a table, if no cell is missing. -/
def perform? (t : SymbolTable) : Op → Option SymbolTable
  | .reserve n => some (t.resolve n).2
  | .touch n => (t.lookup? n).map Prod.snd
  | .assign n v => t.assign? n v
  | .setCell i v? => t.write? i v?

/-- The table that operations leave of the empty one, the latest of them first, if no cell is missing. -/
def ofHistory : List Op → Option SymbolTable
  | [] => some .empty
  | op :: earlier => (ofHistory earlier).bind (·.perform? op)

/-- Each cell that is written belongs to one of the names that were resolved before. -/
def InRange : List Op → Prop
  | [] => True
  | .setCell i _ :: earlier => i < (resolved earlier).length ∧ InRange earlier
  | _ :: earlier => InRange earlier

/-- One step: an operation that writes no cell but one that is there has a result, which holds what the
scope does. -/
lemma Holds.perform (holds : Holds t s) (there : ∀ i v?, op = .setCell i v? → i < s.size) :
    ∃ u, t.perform? op = some u ∧ Holds u (op.apply s) := by
  cases op with
  | reserve n =>
    obtain ⟨u, found, left⟩ := holds.resolve n
    exact ⟨u, congrArg (fun r : Nat × SymbolTable => some r.2) found, left⟩
  | touch n =>
    obtain ⟨u, found, left⟩ := holds.lookup n
    exact ⟨u, congrArg (·.map Prod.snd) found, left⟩
  | assign n v => exact holds.assign n v
  | setCell i v? => exact holds.write (there i v? rfl) v?

/-- Only writing a cell that is not there has no result. -/
lemma Holds.exists_perform_iff (holds : Holds t s) :
    (∃ u, t.perform? op = some u) ↔ ∀ i v?, op = .setCell i v? → i < s.size := by
  refine ⟨?_, fun there => (holds.perform there).imp fun u done => done.1⟩
  rintro ⟨u, written⟩ i v? rfl
  rw [perform?, write?, holds.size] at written
  by_contra missing
  rw [if_neg missing] at written
  cases written

/-- A whole history: the table that it leaves holds what the scope does that it leaves. -/
lemma holds_ofHistory (made : ofHistory ops = some t) : Holds t (Scope.ofHistory ops) := by
  induction ops generalizing t with
  | nil =>
    cases made
    exact holds_empty
  | cons op earlier ih =>
    obtain ⟨before, made, performed⟩ := Option.bind_eq_some_iff.1 made
    obtain ⟨u, same, left⟩ := (ih made).perform ((ih made).exists_perform_iff.1 ⟨t, performed⟩)
    cases same.symm.trans performed
    exact left

/-- The cells that there are after a history are those of the names that were resolved. -/
lemma size_ofHistory (ops : List Op) : (Scope.ofHistory ops).size = (resolved ops).length := by
  rw [← Scope.length_names, Scope.names_ofHistory]

/-- A history in which no missing cell is written leaves a table. -/
lemma exists_ofHistory (inRange : InRange ops) : ∃ t, ofHistory ops = some t := by
  induction ops with
  | nil => exact ⟨.empty, rfl⟩
  | cons op earlier ih =>
    have before : InRange earlier := by
      cases op with
      | setCell i v? => exact inRange.2
      | _ => exact inRange
    have there : ∀ i v?, op = .setCell i v? → i < (Scope.ofHistory earlier).size := by
      rintro i v? rfl
      rw [size_ofHistory]
      exact inRange.1
    obtain ⟨t, made⟩ := ih before
    obtain ⟨u, performed, -⟩ := (holds_ofHistory made).perform there
    refine ⟨u, ?_⟩
    rw [ofHistory, made]
    exact performed

/-- The slots are given in the order in which the names are first resolved. -/
lemma slot?_ofHistory (made : ofHistory ops = some t) :
    t.slot? n = some i ↔ (resolved ops)[i]? = some n := by
  rw [(holds_ofHistory made).filed, Scope.names_ofHistory]

/-- Each name is found as its history left it. -/
lemma get?_ofHistory (made : ofHistory ops = some t) (n : String) :
    t.get? n = some (lastValue ops n) := by
  rw [(holds_ofHistory made).get, Scope.get?_ofHistory]

/-- What a name is read as, and what is left by it: another table only if the name was absent. -/
lemma lookup?_ofHistory (made : ofHistory ops = some t) (n : String) :
    ∃ u, t.lookup? n = some ((lastValue ops n).getD 0, u) ∧ (lastValue ops n ≠ none → u = t) ∧
      ∀ m, u.get? m = if m = n ∧ lastValue ops n = none then some (some 0) else t.get? m := by
  have holds := holds_ofHistory made
  obtain ⟨u, found, left⟩ := holds.lookup n
  have held := Scope.get?_ofHistory ops n
  refine ⟨u, ?_, fun live => ?_, fun m => ?_⟩
  · rw [found, Scope.value, held]
  · obtain ⟨v, live⟩ := Option.ne_none_iff_exists'.1 live
    rw [Scope.touch_of_live (held.trans live)] at left
    exact left.unique holds
  · rw [left.get, holds.get, Scope.get?_touch, Scope.value, ← held]
    by_cases same : m = n
    · subst same
      cases (Scope.ofHistory ops).get? m <;> simp
    · simp [same]

/-- A history leaves the two containers in step. Each operation has a result but for the write of a cell
that is not there. The names resolved so far and the places of the cells belong together one to one, in
the order in which the names were first resolved, and a slot that was given never changes. Under a name is
found the value that it was last given, or that was put in its cell, or 0 if it was read while absent.
Reading changes nothing else. What is listed are the names with a value, each once, in increasing order of
their bytes, and two tables of identifiers are shown the same only if they hold the same. -/
theorem ofHistory_represents {ops : List Op} (inRange : InRange ops) :
    ∃ t, ofHistory ops = some t ∧
      (∀ op, (∃ u, t.perform? op = some u) ↔ ∀ i v?, op = .setCell i v? → i < t.cells.size) ∧
      (∀ n, (∃ i, t.slot? n = some i) ↔ ∃ op ∈ ops, op.name? = some n) ∧
      (∀ i, (∃ n, t.slot? n = some i) ↔ i < t.cells.size) ∧
      (∀ n m i, t.slot? n = some i → t.slot? m = some i → n = m) ∧
      (∀ n i, t.slot? n = some i ↔ (resolved ops)[i]? = some n) ∧
      (∀ n, (t.resolve n).2.slot? n = some (t.resolve n).1) ∧
      (∀ later u, ofHistory (later ++ ops) = some u →
        ∀ n i, t.slot? n = some i → u.slot? n = some i) ∧
      (∀ n, t.get? n = some (lastValue ops n)) ∧
      (∀ n, ∃ u, t.lookup? n = some ((lastValue ops n).getD 0, u) ∧ (lastValue ops n ≠ none → u = t) ∧
        ∀ m, u.get? m = if m = n ∧ lastValue ops n = none then some (some 0) else t.get? m) ∧
      (∃ bindings, t.bindings? = some bindings ∧
        (∀ n v, (n, v) ∈ bindings ↔ t.get? n = some (some v)) ∧
        bindings.Pairwise (fun a b => encode a.1 < encode b.1) ∧
        t.liveCount = bindings.length ∧ t.text? = some (Scope.render bindings)) ∧
      ∀ others u, ofHistory others = some u →
        (∀ n v, t.get? n = some (some v) ∨ u.get? n = some (some v) → isName n.toList = true) →
        (t.text? = u.text? ↔ ∀ n, t.get? n = u.get? n) := by
  obtain ⟨t, made⟩ := exists_ofHistory inRange
  have holds := holds_ofHistory made
  have size : t.cells.size = (resolved ops).length := holds.size.trans (size_ofHistory ops)
  have distinct : (resolved ops).Nodup := Scope.names_ofHistory ops ▸ Scope.nodup_names _
  refine ⟨t, made, fun op => ?_, fun n => ?_, fun i => ?_, fun n m i here there => ?_,
    fun n i => slot?_ofHistory made, fun n => ?_, fun later u madeLater n i here => ?_,
    get?_ofHistory made, lookup?_ofHistory made, ?_, fun others u madeOther names => ?_⟩
  · rw [holds.exists_perform_iff, holds.size]
  · rw [← Scope.mem_resolved_iff, List.mem_iff_getElem?]
    exact exists_congr fun i => slot?_ofHistory made
  · rw [size]
    refine ⟨fun ⟨n, here⟩ => ?_, fun lt => ⟨(resolved ops)[i], ?_⟩⟩
    · exact (List.getElem?_eq_some_iff.1 ((slot?_ofHistory made).1 here)).1
    · exact (slot?_ofHistory made).2 (List.getElem?_eq_getElem lt)
  · exact Option.some.inj (((slot?_ofHistory made).1 here).symm.trans ((slot?_ofHistory made).1 there))
  · obtain ⟨u, resolve, left⟩ := holds.resolve n
    rw [resolve, left.filed, Scope.getElem?_names_eq_some_iff]
    exact ⟨Scope.mem_names_reserve.2 (.inl rfl), Scope.slot_reserve_self _ n⟩
  · obtain ⟨mem, slot⟩ := holds.slot_eq here
    have continues := Scope.continues_ofHistory later ops
    rw [(holds_ofHistory madeLater).filed, Scope.getElem?_names_eq_some_iff]
    exact ⟨continues.mem mem, (continues.slot_eq mem).trans slot⟩
  · refine ⟨_, holds.bindings, fun n v => ?_, ?_, ?_, ?_⟩
    · rw [Scope.mem_entries_live, holds.get, Option.some_inj]
    · exact (Scope.ofHistory ops).live.sorted.imp fun lt => encode_lt_encode_iff.2 lt
    · rw [holds.liveCount, Scope.length_entries_live]
    · exact holds.text
  · have other := holds_ofHistory madeOther
    simp only [holds.get, other.get, Option.some_inj] at names ⊢
    rw [holds.text, other.text, Option.some_inj]
    exact Scope.text_eq_text_iff (fun n v live => names n v (.inl live)) fun n v live =>
      names n v (.inr live)

/-- A name that was only reserved and one whose cell was emptied have their slots but are not shown, so
the table shows the same as one that has neither of them. Read again, the emptied one is 0. -/
theorem ofHistory_represents_emptied :
    ∃ t, ofHistory [.setCell 1 none, .assign "a" 7, .touch "b", .reserve "c"] = some t ∧
      t.slot? "b" = some 1 ∧ (∀ u, t.perform? (.setCell 3 none) ≠ some u) ∧
      t.get? "a" = some (some 7) ∧ t.get? "b" = some none ∧
      (∃ u, t.lookup? "b" = some (0, u) ∧ u.get? "b" = some (some 0) ∧ u.get? "c" = some none) ∧
      ∃ u, ofHistory [.assign "a" 7] = some u ∧ t.text? = u.text? := by
  obtain ⟨t, made, performs, -, filled, -, slot, -, -, get, read, -, shown⟩ :=
    @ofHistory_represents [.setCell 1 none, .assign "a" 7, .touch "b", .reserve "c"]
      ⟨by decide, trivial⟩
  obtain ⟨u, alone, -, -, -, -, -, -, -, getAlone, -⟩ :=
    @ofHistory_represents [.assign "a" 7] trivial
  have emptied : lastValue [.setCell 1 none, .assign "a" 7, .touch "b", .reserve "c"] "b" = none := by
    decide
  have held : ∀ n, t.get? n = some (if n = "a" then some 7 else none) := by
    intro n
    rw [get n]
    by_cases b : n = "b"
    · subst b
      rw [emptied, if_neg (by decide)]
    · simp [lastValue, resolved, Op.name?, b, Ne.symm b]
  have same : ∀ n, t.get? n = u.get? n := fun n => by rw [held, getAlone]; rfl
  have identifiers : ∀ n v, t.get? n = some (some v) ∨ u.get? n = some (some v) →
      isName n.toList = true := by
    intro n v live
    rw [← same n, or_self, held n] at live
    by_cases a : n = "a"
    · subst a
      decide
    · rw [if_neg a] at live
      cases live
  obtain ⟨v, reads, -, left⟩ := read "b"
  refine ⟨t, made, (slot "b" 1).2 (by decide), fun w written => ?_, held "a", held "b",
    ⟨v, ?_, ?_, ?_⟩, u, alone, (shown _ u alone identifiers).2 same⟩
  · obtain ⟨n, here⟩ := (filled 3).2 ((performs _).1 ⟨w, written⟩ 3 none rfl)
    cases (slot n 3).1 here
  · rw [reads, emptied, Option.getD_none]
  · rw [left, if_pos ⟨rfl, emptied⟩]
  · rw [left, if_neg (by decide), held, if_neg (by decide)]

end Histories

end Reckon.SymbolTable
