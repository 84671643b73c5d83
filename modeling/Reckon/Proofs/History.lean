import Mathlib.Data.List.Basic
import Reckon.Proofs.ByteOrder
import Reckon.Proofs.Layout
import Reckon.Proofs.Respect
import Reckon.Proofs.Spelling

/-!
# Histories of variables

What is done to the variables of a scope is a history of operations, the latest first. The scope that it
leaves is told by the history alone:

* `Scope.names_ofHistory`: it has a slot for each name that was resolved, in the order of their first
  resolution, and `Scope.continues_ofHistory`: whatever is done later, the slots stay.
* `Scope.get?_ofHistory`: under each name it has the value that the history says was left there.
* `Scope.assign_eq_setCell`, `Scope.touch_eq_setCell`: what is left under a name is left in its slot.
* `Scope.mem_entries_live`, `Scope.length_entries_live`: what is shown of it are its live variables.
* `Scope.text_eq_text_iff`: what is shown tells what is held.
-/

namespace Reckon.Scope

open Text
open Token (isName continuesName startsName)

/-- What is done to a table: a name gets a slot, is read or is written, or a cell is changed. -/
inductive Op where
  | reserve (name : String)
  | touch (name : String)
  | assign (name : String) (value : Int64)
  | setCell (slot : Nat) (value? : Option Int64)

namespace Op

/-- The name that an operation resolves to a slot. -/
def name? : Op → Option String
  | .reserve n | .touch n | .assign n _ => some n
  | .setCell .. => none

/-- What an operation makes of a table. -/
def apply (s : Scope) : Op → Scope
  | .reserve n => s.reserve n
  | .touch n => s.touch n
  | .assign n v => s.assign n v
  | .setCell i v? => s.setCell i v?

end Op

/-- The table that operations leave of the empty one, the latest of them first. -/
def ofHistory : List Op → Scope
  | [] => .empty
  | op :: earlier => op.apply (ofHistory earlier)

/-- The names that operations resolve, in the order in which they are first resolved. -/
def resolved : List Op → List String
  | [] => []
  | op :: earlier =>
    match op.name? with
    | some n => if n ∈ resolved earlier then resolved earlier else resolved earlier ++ [n]
    | none => resolved earlier

/-- The value that operations leave under a name: that last given to it or to its cell, or 0 if it was
read while it had none. The cell of a name is told by how many names were resolved before it. -/
def lastValue : List Op → String → Option Int64
  | [], _ => none
  | .reserve _ :: earlier, n => lastValue earlier n
  | .touch m :: earlier, n =>
    if n = m then some ((lastValue earlier n).getD 0) else lastValue earlier n
  | .assign m v :: earlier, n => if n = m then some v else lastValue earlier n
  | .setCell i v? :: earlier, n =>
    if (resolved earlier)[i]? = some n then v? else lastValue earlier n

section Tables

variable {s t : Scope} {n m : String} {v : Int64}

/-- The name in a slot. -/
lemma getElem?_names_eq_some_iff {i : Nat} :
    s.names[i]? = some n ↔ n ∈ s.names ∧ s.slot n = i := by
  refine ⟨fun here => ?_, fun ⟨mem, slot⟩ => ?_⟩
  · obtain ⟨lt, rfl⟩ := List.getElem?_eq_some_iff.1 here
    exact ⟨List.getElem_mem lt, s.nodup_names.idxOf_getElem i lt⟩
  · subst slot
    exact List.getElem?_idxOf mem

/-- A change of a cell changes the value of its name only. -/
lemma get?_setCell (s : Scope) (i : Nat) (v? : Option Int64) (n : String) :
    (s.setCell i v?).get? n = if s.names[i]? = some n then v? else s.get? n := by
  simp only [getElem?_names_eq_some_iff]
  by_cases mem : n ∈ s.names
  · have room : s.size ≤ (s.cells.setIfInBounds i v?).size := by simp
    have here := get?_withCells room mem
    apply Option.some.inj
    rw [setCell, here]
    by_cases slot : s.slot n = i
    · have lt : i < s.cells.size := by
        rw [size_cells, ← slot]
        exact slot_lt mem
      rw [if_pos ⟨mem, slot⟩, slot, Array.getElem?_setIfInBounds_self_of_lt lt]
    · rw [if_neg fun h => slot h.2, Array.getElem?_setIfInBounds_ne (Ne.symm slot),
        getElem?_cells_slot mem]
  · have absent : n ∉ (s.setCell i v?).names := by
      rw [setCell, names_withCells]
      exact mem
    rw [if_neg fun h => mem h.1, get?_of_not_mem mem, get?_of_not_mem absent]

/-- The value of a variable is the one found under its name. -/
lemma get?_name {w : Variable} (mem : w ∈ s.vars) : s.get? w.name = w.value? := by
  have distinct := s.distinct
  rw [get?]
  generalize s.vars = vars at mem distinct
  induction vars with
  | nil => cases mem
  | cons u rest ih =>
    obtain ⟨fresh, distinct⟩ := List.nodup_cons.1 distinct
    cases List.mem_cons.1 mem with
    | inl first =>
      subst first
      rw [List.find?_cons_of_pos (by simp)]
      rfl
    | inr mem =>
      have other : u.name ≠ w.name := fun same => fresh (same ▸ List.mem_map_of_mem mem)
      rw [List.find?_cons_of_neg (by simpa using other), ih mem distinct]

/-- A scope is told by its names and what it holds under them. -/
lemma ext_get? (names : s.names = t.names) (same : ∀ n, s.get? n = t.get? n) : s = t := by
  have told : ∀ u : Scope, u.vars = u.names.map fun n => ⟨n, u.get? n⟩ := by
    intro u
    rw [Scope.names, List.map_map]
    refine (List.map_id u.vars).symm.trans (List.map_congr_left fun w mem => ?_)
    rw [Function.comp, get?_name mem]
    rfl
  have vars : s.vars = t.vars := by
    rw [told s, told t, names]
    exact List.map_congr_left fun n _ => by rw [same n]
  cases s
  cases t
  cases vars
  rfl

/-- A name that is resolved has a slot from then on. -/
lemma slot_lt_reserve (s : Scope) (n : String) : s.slot n < (s.reserve n).size := by
  rw [← slot_reserve_self]
  exact slot_lt (mem_names_reserve.2 (.inl rfl))

/-- In its slot is what was held under it. -/
lemma getElem?_cells_reserve (s : Scope) (n : String) :
    (s.reserve n).cells[s.slot n]? = some (s.get? n) := by
  rw [← slot_reserve_self, getElem?_cells_slot (mem_names_reserve.2 (.inl rfl)), get?_reserve]

/-- A name with a slot, in which a value is put. -/
lemma get?_setCell_reserve (s : Scope) (n m : String) (v? : Option Int64) :
    ((s.reserve n).setCell (s.slot n) v?).get? m = if m = n then v? else s.get? m := by
  have mem : n ∈ (s.reserve n).names := mem_names_reserve.2 (.inl rfl)
  have here : (s.reserve n).names[s.slot n]? = some n :=
    getElem?_names_eq_some_iff.2 ⟨mem, slot_reserve_self s n⟩
  rw [get?_setCell, here, get?_reserve]
  simp only [Option.some.injEq, eq_comm]

/-- To assign is to put the value in the slot of the name. -/
lemma assign_eq_setCell (s : Scope) (n : String) (v : Int64) :
    s.assign n v = (s.reserve n).setCell (s.slot n) (some v) := by
  apply ext_get?
  · rw [names_assign, setCell, names_withCells]
  · intro m
    rw [get?_assign, get?_setCell_reserve]

/-- To read is to put the value that was read in the slot of the name. -/
lemma touch_eq_setCell (s : Scope) (n : String) :
    s.touch n = (s.reserve n).setCell (s.slot n) (some (s.value n)) := by
  apply ext_get?
  · rw [names_touch, setCell, names_withCells]
  · intro m
    rw [get?_touch, get?_setCell_reserve]

/-- A name that is live has a slot. -/
lemma mem_of_live (live : s.get? n = some v) : n ∈ s.names := by
  by_contra absent
  cases (get?_of_not_mem absent).symm.trans live

/-- Reading a live name changes nothing. -/
lemma touch_of_live (live : s.get? n = some v) : s.touch n = s := by
  have mem := mem_of_live live
  have kept : s.vars.map (fun w => if w.name = n then ⟨w.name, some (w.value?.getD 0)⟩ else w) =
      s.vars := by
    conv_rhs => rw [← List.map_id s.vars]
    refine List.map_congr_left fun w here => ?_
    split
    · rename_i same
      obtain ⟨name, value?⟩ := w
      have value : value? = some v := (get?_name here).symm.trans (same ▸ live)
      simp only [value, Option.getD_some, id_eq]
    · rfl
  rw [touch, reserve_of_mem mem, update]
  simp only [kept]

/-- A variable is shown if it has a value. -/
lemma mem_entries_live : (n, v) ∈ s.live.entries ↔ s.get? n = some v := by
  rw [Catalogue.mem_entries_iff, find?_live]
  cases s.get? n <;> simp

/-- A name is that of a live variable if it has a value. -/
lemma mem_live_names : n ∈ (s.vars.filter (·.value?.isSome)).map Variable.name ↔
    ∃ v, s.get? n = some v := by
  simp only [List.mem_map, List.mem_filter, Option.isSome_iff_exists]
  constructor
  · rintro ⟨w, ⟨here, v, value⟩, rfl⟩
    exact ⟨v, (get?_name here).trans value⟩
  · rintro ⟨v, live⟩
    obtain ⟨w, here, rfl⟩ := List.mem_map.1 (mem_of_live live)
    exact ⟨w, ⟨here, v, (get?_name here).symm.trans live⟩, rfl⟩

/-- As many variables are shown as are live. -/
lemma length_entries_live (s : Scope) : s.live.entries.length = s.liveCount := by
  have shown : (s.live.entries.map Prod.fst).Nodup := by
    refine List.pairwise_map.2 (s.live.sorted.imp fun {a b} lt same => ?_)
    rw [same] at lt
    exact String.lt_irrefl b.1 lt
  have live : ((s.vars.filter (·.value?.isSome)).map Variable.name).Nodup :=
    s.distinct.sublist ((List.filter_sublist ..).map _)
  have perm : (s.live.entries.map Prod.fst).Perm
      ((s.vars.filter (·.value?.isSome)).map Variable.name) := by
    rw [List.perm_ext_iff_of_nodup shown live]
    intro n
    rw [mem_live_names]
    simp only [List.mem_map, Prod.exists, mem_entries_live, exists_and_right, exists_eq_right]
  rw [liveCount, List.countP_eq_length_filter]
  simpa using perm.length_eq

/-- The characters that show a variable. -/
def shownChars (binding : String × Int64) : List Char :=
  binding.1.toList ++ '=' :: (decimalChars binding.2.toInt ++ [' '])

/-- The text of a scope shows its live variables one after the other. -/
lemma toList_text (s : Scope) : s.text.toList =
    '\x7b' :: ' ' :: (s.live.entries.flatMap shownChars ++ ['\x7d']) := by
  have shown : ∀ b : String × Int64,
      (b.1 ++ "=" ++ decimal b.2 ++ " ").toList = shownChars b := fun b => by
    simp [shownChars, decimal]
  simp [text, render, String.toList_join, List.flatMap_map, shown]

/-- Characters of one kind end where one of another kind stands. -/
lemma append_cons_inj_of_stop {p : Char → Bool} {d : Char} {cs ds as bs : List Char}
    (hcs : ∀ c ∈ cs, p c = true) (hds : ∀ c ∈ ds, p c = true) (stop : p d = false)
    (same : cs ++ d :: as = ds ++ d :: bs) : cs = ds ∧ as = bs := by
  have ends : ∀ rest : List Char, ∀ c ∈ (d :: rest).head?, p c = false := by
    intro rest c here
    cases here
    exact stop
  obtain ⟨chars, behind⟩ := Token.append_inj_of_stop hcs hds (ends as) (ends bs) same
  exact ⟨chars, (List.cons.inj behind).2⟩

/-- What shows a variable tells its name and its value, whatever stands behind it. -/
lemma shownChars_append_inj {b c : String × Int64} {as bs : List Char}
    (hb : isName b.1.toList = true) (hc : isName c.1.toList = true)
    (same : shownChars b ++ as = shownChars c ++ bs) : b = c ∧ as = bs := by
  have equals : continuesName '=' = false := by decide +kernel
  have digits : ∀ i : Int, ∀ c ∈ decimalChars i, (c != ' ') = true := by
    intro i c mem
    cases mem_decimalChars mem with
    | inl sign =>
      subst sign
      rfl
    | inr digit =>
      rw [bne_iff_ne]
      rintro rfl
      cases digit
  simp only [shownChars, List.append_assoc, List.cons_append, List.nil_append] at same
  obtain ⟨name, same⟩ := append_cons_inj_of_stop (Token.all_continuesName hb)
    (Token.all_continuesName hc) equals same
  obtain ⟨value, same⟩ := append_cons_inj_of_stop (digits _) (digits _) rfl same
  refine ⟨Prod.ext (String.toList_inj.1 name) ?_, same⟩
  exact Int64.toInt_inj.1 (decimalChars_inj.1 value)

/-- What shows a variable is not the closing brace. -/
lemma shownChars_append_ne {b : String × Int64} {as bs : List Char}
    (hb : isName b.1.toList = true) : shownChars b ++ as ≠ '\x7d' :: bs := by
  intro same
  rw [shownChars] at same
  cases name : b.1.toList with
  | nil => simp [name, isName] at hb
  | cons c cs =>
    simp only [name, List.cons_append, List.cons.injEq] at same
    obtain ⟨start, -⟩ := Bool.and_eq_true_iff.1 (name ▸ hb)
    rw [same.1] at start
    exact absurd start (by decide +kernel)

/-- What shows variables of which the names are identifiers tells each of them. -/
lemma flatMap_shownChars_inj {l m : List (String × Int64)}
    (hl : ∀ b ∈ l, isName b.1.toList = true) (hm : ∀ b ∈ m, isName b.1.toList = true)
    (same : l.flatMap shownChars ++ ['\x7d'] = m.flatMap shownChars ++ ['\x7d']) : l = m := by
  induction l generalizing m with
  | nil =>
    cases m with
    | nil => rfl
    | cons c m =>
      rw [List.flatMap_cons, List.append_assoc] at same
      exact absurd same.symm (shownChars_append_ne (hm c (by simp)))
  | cons b l ih =>
    cases m with
    | nil =>
      rw [List.flatMap_cons, List.append_assoc] at same
      exact absurd same (shownChars_append_ne (hl b (by simp)))
    | cons c m =>
      simp only [List.flatMap_cons, List.append_assoc] at same
      obtain ⟨rfl, rest⟩ := shownChars_append_inj (hl b (by simp)) (hm c (by simp)) same
      rw [ih (fun b mem => hl b (by simp [mem])) (fun c mem => hm c (by simp [mem])) rest]

/-- Tables whose live variables are identifiers show the same only if they hold the same. -/
lemma text_eq_text_iff {s t : Scope}
    (hs : ∀ n v, s.get? n = some v → isName n.toList = true)
    (ht : ∀ n v, t.get? n = some v → isName n.toList = true) :
    s.text = t.text ↔ ∀ n, s.get? n = t.get? n := by
  refine ⟨fun same n => ?_, text_congr⟩
  have chars := congrArg String.toList same
  simp only [toList_text, List.cons.injEq, true_and] at chars
  have entries : s.live.entries = t.live.entries :=
    flatMap_shownChars_inj (fun b mem => hs b.1 b.2 (mem_entries_live.1 mem))
      (fun b mem => ht b.1 b.2 (mem_entries_live.1 mem)) chars
  apply Option.ext
  intro v
  rw [← mem_entries_live, ← mem_entries_live, entries]

end Tables

section Histories

variable {ops : List Op} {n : String}

/-- The names of a table are those that were resolved, in this order. -/
lemma names_ofHistory (ops : List Op) : (ofHistory ops).names = resolved ops := by
  induction ops with
  | nil => rfl
  | cons op earlier ih =>
    cases op with
    | setCell i v? => exact (names_withCells _ _).trans ih
    | _ => simp only [ofHistory, Op.apply, resolved, Op.name?, names_touch, names_assign,
        names_reserve, ih]

/-- The value of a name is the last that was left under it. -/
lemma get?_ofHistory (ops : List Op) (n : String) : (ofHistory ops).get? n = lastValue ops n := by
  induction ops with
  | nil => rfl
  | cons op earlier ih =>
    cases op with
    | reserve m => exact (get?_reserve _ m n).trans ih
    | touch m =>
      rw [ofHistory, Op.apply, get?_touch, lastValue, ih]
      by_cases same : n = m
      · subst same
        rw [if_pos rfl, if_pos rfl, value, ih]
      · rw [if_neg same, if_neg same]
    | assign m v => rw [ofHistory, Op.apply, get?_assign, lastValue, ih]
    | setCell i v? => rw [ofHistory, Op.apply, get?_setCell, names_ofHistory, lastValue, ih]

/-- A name is among those that were resolved if an operation resolves it. -/
lemma mem_resolved_iff : n ∈ resolved ops ↔ ∃ op ∈ ops, op.name? = some n := by
  induction ops with
  | nil => simp [resolved]
  | cons op earlier ih =>
    simp only [List.mem_cons, exists_eq_or_imp, ← ih, resolved]
    cases name : op.name? with
    | none => simp
    | some m =>
      by_cases mem : m ∈ resolved earlier
      · simp only [mem, if_true, Option.some.injEq]
        exact ⟨.inr, fun h => h.elim (fun same => same ▸ mem) id⟩
      · simp only [mem, if_false, List.mem_append, List.mem_singleton, Option.some.injEq]
        rw [or_comm, eq_comm]

/-- No operation moves a slot. -/
lemma Op.continues (op : Op) (s : Scope) : Continues s (op.apply s) := by
  cases op with
  | reserve n => exact continues_reserve s n
  | touch n => exact continues_touch s n
  | assign n v => exact continues_assign s n v
  | setCell i v? => exact continues_withCells s _

/-- Whatever is done later to a table, its slots stay where they are. -/
lemma continues_ofHistory (later ops : List Op) :
    Continues (ofHistory ops) (ofHistory (later ++ ops)) := by
  induction later with
  | nil => exact .refl _
  | cons op later ih => exact ih.trans (op.continues _)

end Histories

end Reckon.Scope
