import Reckon.Proofs.Reached
import Reckon.Proofs.Respect

/-!
# Slots that compiling reserves

The code of an expression reads and writes the variables at its lowered places, in the order in which
these are lowered (`Expr.accesses`). Each takes the slot that it has, or the first free one.

* `Scope.vars_foldl_reserve`: names that are met one after the other take the slots behind those taken,
  each once.
* `Expr.scope_lower`, `Expr.accesses_lower`: lowering reserves the variables that the code reads and
  writes, and the code names their slots.
* `compile_slots`: what compiling does to the table of variables, and the slots in the chunks.
-/

namespace Reckon

open Scope

/-- A place where a variable is read or written: its name in an expression, its slot in code. -/
inductive Access (α : Type) where
  | load (place : α)
  | store (place : α)
  deriving DecidableEq

namespace Access

variable {α β γ : Type}

/-- What is read or written. -/
def place : Access α → α
  | .load a | .store a => a

/-- The same access to something else. -/
def map (f : α → β) : Access α → Access β
  | .load a => .load (f a)
  | .store a => .store (f a)

end Access

/-- The slot that an instruction reads or writes. -/
def Instruction.access? : Instruction → Option (Access Slot)
  | .loadVar _ slot => some (.load slot)
  | .storeVar slot _ => some (.store slot)
  | _ => none

/-- What the code of a chunk reads and writes, in the order of its instructions. -/
def Chunk.accesses (c : Chunk) : List (Access Slot) := c.code.toList.filterMap Instruction.access?

namespace Expr

mutual

/-- What an expression reads and writes at places that are lowered, in the order of lowering: the left
operand before the right, the test before the arms, the arguments in turn, the target of an assignment
behind its right side. An assignment to something other than a variable and a call that is refused are
not lowered, and no body of a function is. -/
def accesses (fns : FunctionTable) : Expr → List (Access String)
  | .lit _ => []
  | .var x => [.load x]
  | .assign (.var x) value => accesses fns value ++ [.store x]
  | .assign _ _ => []
  | .binary _ left right => accesses fns left ++ accesses fns right
  | .cond test whenTrue whenFalse =>
    accesses fns test ++ accesses fns whenTrue ++ accesses fns whenFalse
  | .call f args =>
    match fns.find? f with
    | none => []
    | some d => if args.length = d.arity then argAccesses fns args else []

/-- What the arguments of a call read and write. -/
def argAccesses (fns : FunctionTable) : List Expr → List (Access String)
  | [] => []
  | e :: es => accesses fns e ++ argAccesses fns es

end

/-- The variables at lowered places, in the order of lowering. -/
def met (fns : FunctionTable) (e : Expr) : List String := (e.accesses fns).map Access.place

end Expr

namespace Scope

variable {s : Scope} {x : String}

/-- A new name takes the slot behind the others. -/
lemma vars_reserve (fresh : x ∉ s.names) : (s.reserve x).vars = s.vars ++ [⟨x, none⟩] := by
  rw [reserve, dif_neg fresh]

/-- Names that are met one after the other get slots behind those taken. Of a name that is met again
only the first place counts. -/
lemma vars_foldl_reserve (xs : List String) (s : Scope) : (xs.foldl reserve s).vars =
    s.vars ++ (xs.filter fun x => x ∉ s.names).eraseDups.map fun x => ⟨x, none⟩ := by
  induction xs generalizing s with
  | nil => simp
  | cons x xs ih =>
    rw [List.foldl_cons, ih]
    by_cases known : x ∈ s.names
    · rw [reserve_of_mem known, List.filter_cons_of_neg (by simpa using known)]
    · -- the name is known for what is met behind it
      have behind : (xs.filter fun y => y ∉ (s.reserve x).names) =
          (xs.filter fun y => y ∉ s.names).filter fun y => !y == x := by
        rw [List.filter_filter]
        refine List.filter_congr fun y _ => ?_
        rw [names_reserve, if_neg known]
        by_cases same : y = x <;> simp [same]
      rw [List.filter_cons_of_pos (by simpa using known), List.eraseDups_cons, vars_reserve known,
        behind, List.map_cons, List.append_assoc]
      rfl

/-- Names that are met take slots behind those there are, each once. -/
lemma names_foldl_reserve (xs : List String) (s : Scope) : (xs.foldl reserve s).names =
    s.names ++ (xs.filter fun x => x ∉ s.names).eraseDups := by
  rw [names, vars_foldl_reserve, List.map_append, List.map_map]
  exact congrArg (s.names ++ ·) (List.map_id _)

/-- In an empty table, names take slots in the order in which they are first met. -/
lemma names_foldl_reserve_empty (xs : List String) : (xs.foldl reserve empty).names = xs.eraseDups := by
  rw [names_foldl_reserve, names_empty, List.nil_append, List.filter_eq_self.2 (by simp)]

end Scope

namespace Expr

variable {fns : FunctionTable} {f : String} {args : List Expr}

/-- A call that fits reads and writes what its arguments do. -/
lemma accesses_call {d : Definition} (found : fns.find? f = some d) (fits : args.length = d.arity) :
    (call f args).accesses fns = argAccesses fns args := by
  simp only [accesses, found, if_pos fits]

/-- A call that is refused reads and writes nothing. -/
lemma accesses_call_cases (fns : FunctionTable) (f : String) (args : List Expr) :
    (∃ d, fns.find? f = some d ∧ args.length = d.arity) ∨
      (call f args).accesses fns = [] ∧ ∃ reason, ∀ base next scope,
        (call f args).lower fns base next scope = .rejected reason next scope := by
  cases found : fns.find? f with
  | none => exact .inr ⟨by simp only [accesses, found], _, fun _ _ _ => by rw [lower, found]⟩
  | some d =>
    cases decEq args.length d.arity with
    | isTrue fits => exact .inl ⟨d, rfl, fits⟩
    | isFalse misfit =>
      refine .inr ⟨by simp only [accesses, found, if_neg misfit],
        .arityMismatch f d.arity args.length, fun base next scope => ?_⟩
      simp only [lower, found, if_neg misfit]

/-- Arguments reserve the names that are met in them, if each of them does. -/
lemma scope_lowerArgs_of {es : List Expr}
    (all : ∀ e ∈ es, ∀ base next scope,
      (e.lower fns base next scope).scope = (e.met fns).foldl reserve scope)
    (base : Nat) (next : Register) (scope : Scope) : (lowerArgs fns es base next scope).scope =
      ((argAccesses fns es).map Access.place).foldl reserve scope := by
  induction es generalizing base next scope with
  | nil => rfl
  | cons e es ih =>
    obtain ⟨first, others⟩ := List.forall_mem_cons.1 all
    rw [lowerArgs, argAccesses, List.map_append, List.foldl_append]
    simp only [ih others, first]
    rfl

/-- Lowering reserves the variables that it meets. -/
lemma scope_lower (e : Expr) : ∀ base next scope,
    (e.lower fns base next scope).scope = (e.met fns).foldl reserve scope := by
  induction e using Expr.induction with
  | lit | var => exact fun _ _ _ => rfl
  | assign target value _ ih =>
    intro base next scope
    cases target with
    | var x =>
      rw [met, accesses, List.map_append, List.foldl_append]
      exact congrArg (reserve · x) (ih base next scope)
    | _ => rfl
  | binary op left right ihl ihr =>
    intro base next scope
    rw [met, accesses, List.map_append, List.foldl_append]
    simp only [lower, ihl, ihr]
    rfl
  | cond test whenTrue whenFalse iht iha ihb =>
    intro base next scope
    rw [met, accesses, List.map_append, List.map_append, List.foldl_append, List.foldl_append]
    simp only [lower, iht, iha, ihb]
    rfl
  | call f args ih =>
    intro base next scope
    cases accesses_call_cases fns f args with
    | inl entered =>
      obtain ⟨d, found, fits⟩ := entered
      rw [lower_call found fits, met, accesses_call found fits]
      exact scope_lowerArgs_of ih base next scope
    | inr refused =>
      obtain ⟨none, reason, lowered⟩ := refused
      rw [lowered, met, none]
      rfl

/-- The code of arguments names the slots of what they read and write, if the code of each of them does.
-/
lemma accesses_lowerArgs_of {es : List Expr} {layout : Scope}
    (all : ∀ e ∈ es, ∀ base next scope, Continues (e.lower fns base next scope).scope layout →
      (e.lower fns base next scope).code.filterMap Instruction.access? =
        (e.accesses fns).map (Access.map layout.slot))
    (base : Nat) (next : Register) (scope : Scope)
    (kept : Continues (lowerArgs fns es base next scope).scope layout) :
    (lowerArgs fns es base next scope).code.filterMap Instruction.access? =
      (argAccesses fns es).map (Access.map layout.slot) := by
  induction es generalizing base next scope with
  | nil => rfl
  | cons e es ih =>
    obtain ⟨first, others⟩ := List.forall_mem_cons.1 all
    rw [lowerArgs, argAccesses, List.filterMap_append, List.map_append, ih others _ _ _ kept,
      first base next scope ((extends_lowerArgs es _ _ _).continues.trans kept)]

/-- The code reads and writes the slots of the variables that it was lowered from, in their order. It
names them as any layout does that continues the one in which lowering leaves the scope. -/
lemma accesses_lower {layout : Scope} (e : Expr) : ∀ base next scope,
    Continues (e.lower fns base next scope).scope layout →
      (e.lower fns base next scope).code.filterMap Instruction.access? =
        (e.accesses fns).map (Access.map layout.slot) := by
  induction e using Expr.induction with
  | lit => exact fun _ _ _ _ => rfl
  | var x =>
    intro base next scope kept
    exact congrArg (fun slot => [Access.load slot]) kept.slot_eq_of_reserve.symm
  | assign target value _ ih =>
    intro base next scope kept
    cases target with
    | var x =>
      have before := ih base next scope ((continues_reserve _ x).trans kept)
      rw [lower, accesses, List.filterMap_append, List.map_append, before]
      exact congrArg (_ ++ [Access.store ·]) kept.slot_eq_of_reserve.symm
    | _ => rfl
  | binary op left right ihl ihr =>
    intro base next scope kept
    have first := ihl base next scope ((extends_lower right _ _ _).continues.trans kept)
    have second := ihr _ _ _ kept
    rw [lower, accesses, List.map_append, List.filterMap_append, List.filterMap_append, first, second]
    exact List.append_nil _
  | cond test whenTrue whenFalse iht iha ihb =>
    intro base next scope kept
    have arms := (extends_lower whenFalse _ _ _).continues.trans kept
    have first := iht base next scope ((extends_lower whenTrue _ _ _).continues.trans arms)
    have second := iha _ _ _ arms
    have third := ihb _ _ _ kept
    rw [lower, accesses, List.map_append, List.map_append, ← first, ← second, ← third]
    exact Instruction.filterMap_cond (fun _ _ => rfl) (fun _ => rfl) (fun _ _ => rfl) ..
  | call f args ih =>
    intro base next scope kept
    cases accesses_call_cases fns f args with
    | inl entered =>
      obtain ⟨d, found, fits⟩ := entered
      rw [lower_call found fits] at kept ⊢
      rw [accesses_call found fits, List.filterMap_append]
      simp only [accesses_lowerArgs_of ih base next scope kept]
      exact List.append_nil _
    | inr refused =>
      obtain ⟨none, reason, lowered⟩ := refused
      rw [lowered, none]
      rfl

end Expr

namespace Definition

variable {fns : FunctionTable}

/-- The slots of an activation: the parameters, then what is met in the body. -/
lemma names_lower (d : Definition) (base : Nat) (next : Register) :
    (d.body.lower fns base next d.locals).scope.names = (d.params ++ d.body.met fns).eraseDups := by
  rw [Expr.scope_lower, locals, ← List.foldl_append, names_foldl_reserve_empty]

/-- The slots in the chunk of a function are the places of its names. -/
lemma chunk_slots (fns : FunctionTable) (d : Definition) :
    let names := (d.params ++ d.body.met fns).eraseDups
    (d.chunk fns).params = d.params.map names.idxOf ∧ (d.chunk fns).slots = names.length ∧
      (d.chunk fns).accesses = (d.body.accesses fns).map (Access.map names.idxOf) := by
  intro names
  have layout : (d.body.lower fns 0 0 d.locals).scope.names = names := d.names_lower 0 0
  have slot : (d.body.lower fns 0 0 d.locals).scope.slot = names.idxOf := by
    rw [← layout]
    rfl
  refine ⟨?_, ?_, ?_⟩
  · refine List.map_congr_left fun x mem => ?_
    have known : x ∈ d.locals.names := by
      rw [locals, names_foldl_reserve_empty]
      exact List.mem_eraseDups.2 mem
    have kept : (d.body.lower fns 0 0 d.locals).scope.slot x = d.locals.slot x :=
      (d.body.extends_lower 0 0 d.locals).continues.slot_eq known
    rw [← kept, slot]
  · rw [← layout, length_names]
    rfl
  · rw [Chunk.accesses, chunk, List.filterMap_append, d.body.accesses_lower 0 0 d.locals (.refl _), slot]
    exact List.append_nil _

end Definition

/-- What compiling does to the table of variables, and the slots in the chunks it makes.

* The table gains a slot that is not live for each variable that stands at a lowered place of the
  expression and has none yet, in the order of lowering. No content changes, no slot that there was, and
  nothing that is shown of the table.
* The main chunk has as many slots as the table then. It reads and writes the slots of the variables that
  its instructions were lowered from.
* The chunk of a function numbers its slots in the same way from the parameters on, where one that is
  repeated has the slot of the first. It has as many slots as there are different names. -/
theorem compile_slots (fns : FunctionTable) (e : Expr) (scope : Scope) :
    let p := (compile fns e scope).1
    let after := (compile fns e scope).2
    (after.vars = scope.vars ++
      ((e.met fns).filter fun x => x ∉ scope.names).eraseDups.map fun x => ⟨x, none⟩) ∧
    (∀ i < scope.size, after.cells[i]? = scope.cells[i]?) ∧
    (∀ x ∈ scope.names, after.slot x = scope.slot x) ∧
    (∀ x, after.get? x = scope.get? x) ∧ after.text = scope.text ∧
    p.main.slots = after.size ∧
    p.main.accesses = (e.accesses fns).map (Access.map after.slot) ∧
    ∀ f c, (f, c) ∈ p.functions.entries → ∃ d, fns.find? f = some d ∧
      let names := (d.params ++ d.body.met fns).eraseDups
      c.params = d.params.map names.idxOf ∧ c.slots = names.length ∧
      c.accesses = (d.body.accesses fns).map (Access.map names.idxOf) := by
  intro p after
  have lowered : (e.lower fns 0 0 scope).Extends 0 scope := e.extends_lower 0 0 scope
  have vars : after.vars = scope.vars ++
      ((e.met fns).filter fun x => x ∉ scope.names).eraseDups.map fun x => ⟨x, none⟩ := by
    rw [← vars_foldl_reserve, ← e.scope_lower 0 0 scope]
    rfl
  refine ⟨vars, fun i lt => ?_, fun x mem => lowered.continues.slot_eq mem, lowered.get?_eq,
    Scope.text_congr lowered.get?_eq, rfl, ?_, fun f c mem => ?_⟩
  · have inside : i < (scope.vars.map Variable.value?).length := by
      rw [List.length_map]
      exact lt
    rw [cells, cells, vars, List.map_append, List.getElem?_toArray, List.getElem?_toArray,
      List.getElem?_append_left inside]
  · have code := e.accesses_lower 0 0 scope (.refl (e.lower fns 0 0 scope).scope)
    rw [Chunk.accesses, show p.main.code.toList = (e.lower fns 0 0 scope).code ++ [.print _] from rfl,
      List.filterMap_append, code]
    exact List.append_nil _
  · obtain ⟨d, found, same⟩ := (linked_compile fns e scope).own (Catalogue.mem_entries_iff.1 mem)
    cases same
    exact ⟨d, found, d.chunk_slots fns⟩

/-- An expression with a conditional, assignments to a variable and to a number, a call, and a call of a
function that is not defined, on a table that knows one of its variables. The function repeats its
parameter and reads a variable of its own. -/
theorem compile_slots_rejected_parts :
    let h : Definition := ⟨"h", ["p", "p"], .binary .add (.var "p") (.var "r")⟩
    let fns : FunctionTable := Catalogue.empty.insert h
    let choice : Expr :=
      .cond (.var "y") (.assign (.var "z") (.var "a")) (.assign (.lit 1) (.var "q"))
    let calls : Expr := .binary .add (.call "h" [.var "w", .var "y"]) (.call "g" [.var "b"])
    let e : Expr := .binary .add (.assign (.var "x") choice) calls
    let scope := Scope.empty.assign "y" 5
    let p := (compile fns e scope).1
    let after := (compile fns e scope).2
    after.vars.map (fun v => (v.name, v.value?)) =
        [("y", some 5), ("a", none), ("z", none), ("x", none), ("w", none)] ∧
      after.slot "y" = 0 ∧ after.cells[0]? = some (some 5) ∧ after.text = scope.text ∧
      p.main.accesses = [.load 0, .load 1, .store 2, .store 3, .load 4, .load 0] ∧
      ∃ c, ("h", c) ∈ p.functions.entries ∧ c.params = [0, 0] ∧ c.slots = 2 ∧
        c.accesses = [.load 0, .load 1] := by
  intro h fns choice calls e scope p after
  obtain ⟨vars, cells, slots, -, text, -, accesses, functions⟩ := compile_slots fns e scope
  have found : fns.find? "h" = some h := Catalogue.find?_insert_self h _
  have reached : p.functions.contains "h" :=
    contains_compile_iff.2 (.start (.right (.left (.call found rfl))))
  obtain ⟨⟨f, c⟩, here⟩ := Option.isSome_iff_exists.1 reached
  obtain rfl : f = "h" := Catalogue.name_of_find? here
  have mem : ("h", c) ∈ p.functions.entries := Catalogue.mem_entries_iff.2 here
  obtain ⟨d, found', params, count, used⟩ := functions "h" c mem
  obtain rfl : h = d := Option.some.inj (found.symm.trans found')
  refine ⟨(congrArg _ vars).trans ?_, (slots "y" ?_).trans ?_, (cells 0 ?_).trans ?_, text,
    accesses.trans ?_, c, mem, params.trans ?_, count.trans ?_, used.trans ?_⟩
  all_goals decide +kernel

end Reckon
