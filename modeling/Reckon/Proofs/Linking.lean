import Mathlib.Tactic.Lemma
import Reckon.Program.Compile

/-!
# Linked functions

Every chunk that `link` adds is that of a function under its own name, and no chunk calls a defined
function that was left out (`Linked`, `linked_link`). So the machine finds the chunk of every defined
function that linked code calls (`contains_link_of_mem`, `Linked.find?_eq`).
-/

namespace Reckon

variable {fns : FunctionTable} {todo : List String} {linked : ChunkTable} {f g : String}
  {d : Definition} {entry : String × Chunk}

/-- Every chunk is that of a function under its own name, and the defined functions that it calls are
linked or still to be linked. -/
structure Linked (fns : FunctionTable) (todo : List String) (linked : ChunkTable) : Prop where
  own : ∀ {f entry}, linked.find? f = some entry →
    ∃ d, fns.find? f = some d ∧ entry = (f, d.chunk fns)
  covered : ∀ {f entry}, linked.find? f = some entry →
    ∀ g ∈ entry.2.callees, (fns.find? g).isSome → g ∈ todo ∨ linked.contains g

namespace Linked

/-- Nothing is linked at first, so all is still to do. -/
lemma empty (todo : List String) : Linked fns todo .empty where
  own found := by cases found
  covered found := by cases found

/-- Of the functions to be linked, only those are left that are defined and not linked. -/
lemma settle {more : List String} (h : Linked fns todo linked)
    (settled : ∀ g ∈ todo, (fns.find? g).isSome → g ∈ more ∨ linked.contains g) :
    Linked fns more linked where
  own := h.own
  covered found g called defined := by
    cases h.covered found g called defined with
    | inl mem => exact settled g mem defined
    | inr there => exact .inr there

/-- A function that is linked already, or not defined, need not be linked any more. -/
lemma drop (h : Linked fns (g :: todo) linked)
    (settled : (fns.find? g).isSome → linked.contains g) : Linked fns todo linked := by
  apply h.settle
  rintro f (_ | ⟨_, mem⟩) defined
  · exact .inr (settled defined)
  · exact .inl mem

/-- Linking a function leaves what its chunk calls to be linked. -/
lemma insert (h : Linked fns (f :: todo) linked) (found : fns.find? f = some d) :
    Linked fns ((d.chunk fns).callees ++ todo) (linked.insert (f, d.chunk fns)) where
  own {g entry} here := by
    cases decEq f g with
    | isTrue same =>
      subst same
      rw [Catalogue.find?_insert_self (f, d.chunk fns) linked] at here
      exact ⟨d, found, (Option.some.inj here).symm⟩
    | isFalse differ =>
      rw [Catalogue.find?_insert_of_ne linked differ] at here
      exact h.own here
  covered {g entry} here m called defined := by
    cases decEq f g with
    | isTrue same =>
      subst same
      rw [Catalogue.find?_insert_self (f, d.chunk fns) linked] at here
      cases here
      exact .inl (List.mem_append_left _ called)
    | isFalse differ =>
      rw [Catalogue.find?_insert_of_ne linked differ] at here
      cases h.covered here m called defined with
      | inl mem =>
        -- a chunk that was left to be linked may be the one that is linked now
        cases List.mem_cons.1 mem with
        | inl first =>
          subst first
          exact .inr (Catalogue.contains_insert.2 (.inl rfl))
        | inr mem => exact .inl (List.mem_append_right _ mem)
      | inr there => exact .inr (Catalogue.contains_insert.2 (.inr there))

end Linked

/-- What is linked stays linked. -/
lemma contains_link (h : linked.contains g) : (link fns todo linked).contains g := by
  fun_induction link fns todo linked with
  | case1 => exact h
  | case2 linked f rest fresh ih => exact ih h
  | case3 linked f rest fresh found ih => exact ih h
  | case4 linked f rest fresh d found _ ih => exact ih (Catalogue.contains_insert.2 (.inr h))

/-- What was to be linked is linked, if it is defined. -/
lemma contains_link_of_mem (mem : g ∈ todo) (defined : (fns.find? g).isSome) :
    (link fns todo linked).contains g := by
  fun_induction link fns todo linked with
  | case1 => cases mem
  | case2 linked f rest there ih =>
    cases List.mem_cons.1 mem with
    | inl first =>
      subst first
      exact contains_link there
    | inr mem => exact ih mem
  | case3 linked f rest fresh found ih =>
    cases List.mem_cons.1 mem with
    | inl first =>
      subst first
      rw [found] at defined
      cases defined
    | inr mem => exact ih mem
  | case4 linked f rest fresh d found _ ih =>
    cases List.mem_cons.1 mem with
    | inl first =>
      subst first
      exact contains_link (Catalogue.contains_insert.2 (.inl rfl))
    | inr mem => exact ih (List.mem_append_right _ mem)

/-- Linking leaves nothing to be linked. -/
lemma linked_link (h : Linked fns todo linked) : Linked fns [] (link fns todo linked) := by
  fun_induction link fns todo linked with
  | case1 => exact h
  | case2 linked f rest there ih => exact ih (h.drop fun _ => there)
  | case3 linked f rest fresh found ih =>
    apply ih
    apply h.drop
    intro defined
    rw [found] at defined
    cases defined
  | case4 linked f rest fresh d found _ ih => exact ih (h.insert found)

/-- A function that is linked and defined is found as its own chunk. -/
lemma Linked.find?_eq (h : Linked fns todo linked) (there : linked.contains f)
    (found : fns.find? f = some d) : linked.find? f = some (f, d.chunk fns) := by
  obtain ⟨entry, here⟩ := Option.isSome_iff_exists.1 there
  obtain ⟨d', found', rfl⟩ := h.own here
  rw [found] at found'
  cases found'
  exact here

end Reckon
