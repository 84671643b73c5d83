import Reckon.Scope

/-!
# Symbol tables

The variables of a scope as they are stored: a map that files the slot of each name, and a row of cells,
one for each slot. A name that is new is filed in the one and gets a cell at the end of the other; a value
is written into the row alone. Nothing but the operations keeps the two in step, and an operation that
meets a slot without a cell has no result.
-/

namespace Reckon

/-- Slots by name, and cells by slot. -/
structure SymbolTable where
  slots : Catalogue (Prod.fst : String × Nat → String)
  cells : Cells

namespace SymbolTable

/-- The table without names. -/
def empty : SymbolTable := ⟨.empty, #[]⟩

/-- The slot that is filed for a name. -/
def slot? (t : SymbolTable) (n : String) : Option Nat := (t.slots.find? n).map Prod.snd

/-- The slot of a name. A new name is given the next one, with an empty cell. -/
def resolve (t : SymbolTable) (n : String) : Nat × SymbolTable :=
  match t.slot? n with
  | some slot => (slot, t)
  | none => (t.cells.size, ⟨t.slots.insert (n, t.cells.size), t.cells.push none⟩)

/-- Writes the cell of a slot, if there is one. -/
def write? (t : SymbolTable) (slot : Nat) (v? : Option Int64) : Option SymbolTable :=
  if slot < t.cells.size then some { t with cells := t.cells.setIfInBounds slot v? } else none

/-- Gives a name a value. -/
def assign? (t : SymbolTable) (n : String) (v : Int64) : Option SymbolTable :=
  let (slot, t) := t.resolve n
  t.write? slot (some v)

/-- Reads a name, which has the value 0 from then on if it had none. -/
def lookup? (t : SymbolTable) (n : String) : Option (Int64 × SymbolTable) :=
  let (slot, t) := t.resolve n
  match t.cells[slot]? with
  | none => none
  | some v? => (t.write? slot (some (v?.getD 0))).map fun t => (v?.getD 0, t)

/-- What a name holds, if it is filed at all. -/
def get? (t : SymbolTable) (n : String) : Option (Option Int64) :=
  match t.slot? n with
  | none => some none
  | some slot => t.cells[slot]?

/-- Those of the filed names whose cells hold a value, if all of them have cells. -/
def held? (cells : Cells) : List (String × Nat) → Option (List (String × Int64))
  | [] => some []
  | (n, slot) :: rest =>
    match cells[slot]? with
    | none => none
    | some none => held? cells rest
    | some (some v) => (held? cells rest).map ((n, v) :: ·)

/-- The names that have a value, in their order. -/
def bindings? (t : SymbolTable) : Option (List (String × Int64)) := held? t.cells t.slots.entries

/-- Number of cells that hold a value. -/
def liveCount (t : SymbolTable) : Nat := t.cells.countP (·.isSome)

/-- The names that have a value, as shown to the user. -/
def text? (t : SymbolTable) : Option String := t.bindings?.map Scope.render

end SymbolTable

end Reckon
