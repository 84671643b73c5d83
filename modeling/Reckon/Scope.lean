import Reckon.Catalogue
import Reckon.Text.Decimal

/-!
# Scopes

A scope holds the variables of the session, or those of one call. Each name that was ever resolved
has a slot: its place in the order of first resolution, which never changes. A variable is live once
it holds a value; until then its slot is only reserved. Reading a name that is not live makes it live
with the value 0.

What a program can see of a scope is `get?`; what a machine works on is `cells`, the values by slot. A map
of slots and a row of cells that hold the same are in `Reckon.Scope.Table`.
-/

namespace Reckon

open Text

/-- A name with its value, if it has one. -/
structure Variable where
  name : String
  value? : Option Int64

/-- The variables of a scope in the order of their slots. -/
structure Scope where
  vars : List Variable
  distinct : (vars.map Variable.name).Nodup

/-- The values of variables by slot. -/
abbrev Cells := Array (Option Int64)

namespace Scope

/-- The scope without variables. -/
def empty : Scope := ⟨[], by simp⟩

/-- The names in the order of their slots. -/
def names (s : Scope) : List String := s.vars.map Variable.name

/-- Number of slots, live or reserved. -/
def size (s : Scope) : Nat := s.vars.length

/-- The value of a name, if it is live. -/
def get? (s : Scope) (n : String) : Option Int64 :=
  (s.vars.find? (·.name == n)).bind Variable.value?

/-- The slot of a name. A name without one stands before its first free slot, the number of slots
there are. -/
def slot (s : Scope) (n : String) : Nat := s.names.idxOf n

/-- Reserves a slot for a name, unless it has one. -/
def reserve (s : Scope) (n : String) : Scope :=
  if h : n ∈ s.names then s
  else ⟨s.vars ++ [⟨n, none⟩], by
    have h : n ∉ s.vars.map Variable.name := h
    rw [List.map_append, List.nodup_append]
    refine ⟨s.distinct, by simp, fun a mem b last same => h ?_⟩
    have last : b = n := by simpa using last
    exact last ▸ same ▸ mem⟩

/-- Changes the value of a name. -/
def update (s : Scope) (n : String) (f : Option Int64 → Option Int64) : Scope :=
  ⟨s.vars.map fun v => if v.name = n then ⟨v.name, f v.value?⟩ else v, by
    have same : (s.vars.map fun v => if v.name = n then ⟨v.name, f v.value?⟩ else v).map
        Variable.name = s.vars.map Variable.name := by
      rw [List.map_map]
      refine List.map_congr_left fun v _ => ?_
      simp only [Function.comp]
      split <;> rfl
    exact same ▸ s.distinct⟩

/-- Gives a name a value. -/
def assign (s : Scope) (n : String) (v : Int64) : Scope := (s.reserve n).update n fun _ => some v

/-- The value that reading a name yields: 0 if it is not live. -/
def value (s : Scope) (n : String) : Int64 := (s.get? n).getD 0

/-- The scope after a name was read: it is live. -/
def touch (s : Scope) (n : String) : Scope := (s.reserve n).update n fun v? => some (v?.getD 0)

/-- The values by slot. -/
def cells (s : Scope) : Cells := (s.vars.map Variable.value?).toArray

/-- The same names with the values of `cells`. -/
def withCells (s : Scope) (cells : Cells) : Scope :=
  ⟨s.vars.mapIdx fun i v => ⟨v.name, cells[i]?.getD v.value?⟩, by
    have same : (s.vars.mapIdx fun i v => Variable.mk v.name (cells[i]?.getD v.value?)).map
        Variable.name = s.vars.map Variable.name := by
      refine List.ext_getElem? fun i => ?_
      simp [Function.comp_def]
    exact same ▸ s.distinct⟩

/-- Changes or takes away the value in one slot. -/
def setCell (s : Scope) (i : Nat) (v? : Option Int64) : Scope :=
  s.withCells (s.cells.setIfInBounds i v?)

/-- Adds a variable to a catalogue of values, if it is live. -/
def addLive (found : Catalogue (Prod.fst : String × Int64 → String)) (v : Variable) :
    Catalogue (Prod.fst : String × Int64 → String) :=
  match v.value? with
  | some value => found.insert (v.name, value)
  | none => found

/-- The live variables in increasing order of their names. -/
def live (s : Scope) : Catalogue (Prod.fst : String × Int64 → String) :=
  s.vars.foldl addLive .empty

/-- Number of live variables. -/
def liveCount (s : Scope) : Nat := s.vars.countP (·.value?.isSome)

/-- Names with their values as shown to the user, such as `A=5 B=2` in braces. -/
def render (bindings : List (String × Int64)) : String :=
  "\x7b " ++ String.join (bindings.map fun (n, v) => n ++ "=" ++ decimal v ++ " ") ++ "\x7d"

/-- The live variables as shown to the user. -/
def text (s : Scope) : String := render s.live.entries

/-- The scope of a call: each parameter in turn gets its argument. -/
def ofArguments (params : List String) (args : List Int64) : Scope :=
  (params.zip args).foldl (fun s (n, v) => s.assign n v) empty

end Scope

end Reckon
