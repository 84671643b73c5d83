import Reckon.Function
import Reckon.Program
import Reckon.Scope

/-!
# Compilation

`Expr.lower` turns an expression into code that leaves its value in a register. Every node takes the
next free register, so none is used twice; every name takes its slot in the scope at hand when the code
for it is made. Targets of jumps are counted from the start of the chunk. A place that no engine can
evaluate becomes a `fail` instruction: what stands inside it is not lowered, and the rejection arises
only if the run comes there.

`compile` puts the code of an expression in the main chunk and adds the chunk of each function that can
be reached through calls. The scope of the session gains a reserved slot for each new name.
-/

namespace Reckon

/-- The code of an expression or of a list of expressions: the instructions, where the result is, the
next free register, and the scope with the names met so far. -/
structure Lowered (α : Type) where
  code : List Instruction
  result : α
  next : Register
  scope : Scope

/-- The code of a place that no engine can evaluate. It takes a register that is never written. -/
def Lowered.rejected (reason : Rejection) (next : Register) (scope : Scope) : Lowered Register :=
  ⟨[.fail reason], next, next + 1, scope⟩

namespace Expr

mutual

/-- The code of an expression, from place `base` of its chunk on, with `next` as the first free
register. -/
def lower (fns : FunctionTable) :
    Expr → (base : Nat) → (next : Register) → Scope → Lowered Register
  | .lit v, _, next, scope => ⟨[.loadConst next v], next, next + 1, scope⟩
  | .var x, _, next, scope =>
    ⟨[.loadVar next (scope.slot x)], next, next + 1, scope.reserve x⟩
  | .assign (.var x) value, base, next, scope =>
    let v := lower fns value base next scope
    ⟨v.code ++ [.storeVar (v.scope.slot x) v.result], v.result, v.next, v.scope.reserve x⟩
  | .assign target _, _, next, scope => .rejected (.invalidTarget target.text) next scope
  | .binary op left right, base, next, scope =>
    let l := lower fns left base next scope
    let r := lower fns right (base + l.code.length) l.next l.scope
    ⟨l.code ++ r.code ++ [.compute (.value op) r.next l.result r.result], r.next, r.next + 1,
      r.scope⟩
  | .cond test whenTrue whenFalse, base, next, scope =>
    let t := lower fns test base next scope
    let dst := t.next
    let trueArm := base + t.code.length + 1
    let a := lower fns whenTrue trueArm (dst + 1) t.scope
    let falseArm := trueArm + a.code.length + 2
    let b := lower fns whenFalse falseArm a.next a.scope
    let behind := falseArm + b.code.length + 1
    ⟨t.code ++ [.branch t.result falseArm] ++ a.code ++ [.move dst a.result, .jump behind] ++
      b.code ++ [.move dst b.result], dst, b.next, b.scope⟩
  | .call f args, base, next, scope =>
    match fns.find? f with
    | none => .rejected (.undefinedFunction f) next scope
    | some d =>
      if args.length = d.arity then
        let given := lowerArgs fns args base next scope
        ⟨given.code ++ [.call f given.result given.next], given.next, given.next + 1, given.scope⟩
      else .rejected (.arityMismatch f d.arity args.length) next scope

/-- The code of the arguments of a call. -/
def lowerArgs (fns : FunctionTable) :
    List Expr → (base : Nat) → (next : Register) → Scope → Lowered (List Register)
  | [], _, next, scope => ⟨[], [], next, scope⟩
  | e :: es, base, next, scope =>
    let first := lower fns e base next scope
    let others := lowerArgs fns es (base + first.code.length) first.next first.scope
    ⟨first.code ++ others.code, first.result :: others.result, others.next, others.scope⟩

end

end Expr

namespace Definition

/-- The scope that a call of the function starts with: its parameters have slots. -/
def locals (d : Definition) : Scope := d.params.foldl Scope.reserve .empty

/-- The chunk of a function. -/
def chunk (fns : FunctionTable) (d : Definition) : Chunk :=
  let body := d.body.lower fns 0 0 d.locals
  { name := d.name
    params := d.params.map d.locals.slot
    code := (body.code ++ [Instruction.ret body.result]).toArray
    registers := body.next
    slots := body.scope.size }

end Definition

/-- Of two tests, the one that holds less often, and fails where the other holds, counts less. -/
theorem countP_lt {α : Type} {p q : α → Bool} {a : α} (pa : p a = true) (qa : ¬q a = true) :
    ∀ {l : List α}, a ∈ l → (∀ x ∈ l, q x = true → p x = true) → l.countP q < l.countP p
  | e :: rest, mem, imp => by
    have restImp : ∀ x ∈ rest, q x = true → p x = true := fun x h =>
      imp x (List.mem_cons_of_mem e h)
    rcases List.mem_cons.1 mem with rfl | mem
    · have := List.countP_mono_left restImp
      rw [List.countP_cons_of_neg qa, List.countP_cons_of_pos pa]
      omega
    · have ih := countP_lt pa qa mem restImp
      by_cases qe : q e = true
      · rw [List.countP_cons_of_pos qe, List.countP_cons_of_pos (imp e (List.mem_cons_self ..) qe)]
        omega
      · have := (List.sublist_cons_self e rest).countP_le (p := p)
        rw [List.countP_cons_of_neg qe]
        omega

/-- Number of functions that are not linked yet. -/
def unlinked (fns : FunctionTable) (linked : ChunkTable) : Nat :=
  fns.entries.countP fun d => !linked.contains d.name

/-- Linking a function leaves fewer to be linked. -/
theorem unlinked_insert {fns : FunctionTable} {linked : ChunkTable} {f : String} {d : Definition}
    (fresh : ¬linked.contains f) (found : fns.find? f = some d) (c : Chunk) :
    unlinked fns (linked.insert (f, c)) < unlinked fns linked := by
  have self : (linked.insert (f, c)).contains f = true :=
    congrArg Option.isSome (Catalogue.find?_insert_self (f, c) linked)
  have keeps : ∀ n, linked.contains n = true → (linked.insert (f, c)).contains n = true := by
    intro n h
    by_cases eq : f = n
    · exact eq ▸ self
    · rw [Catalogue.contains, Catalogue.find?_insert_of_ne linked (by exact eq)]
      exact h
  have name : d.name = f := Catalogue.name_of_find? found
  refine countP_lt (a := d) ?_ ?_ (List.mem_of_find?_eq_some found) fun x _ h => ?_
  · rw [name, Bool.not_eq_true', ← Bool.not_eq_true]
    exact fresh
  · rw [name, self]
    exact Bool.false_ne_true
  · rw [Bool.not_eq_true', ← Bool.not_eq_true] at h ⊢
    exact fun linked => h (keeps x.name linked)

/-- Adds the chunks of the functions in `todo`, and of those that they reach, to the linked ones. -/
def link (fns : FunctionTable) (todo : List String) (linked : ChunkTable) : ChunkTable :=
  match todo with
  | [] => linked
  | f :: rest =>
    if fresh : linked.contains f then link fns rest linked
    else match found : fns.find? f with
      | none => link fns rest linked
      | some d =>
        have := unlinked_insert fresh found (d.chunk fns)
        link fns ((d.chunk fns).callees ++ rest) (linked.insert (f, d.chunk fns))
termination_by (unlinked fns linked, todo.length)

/-- The program of an expression, and the scope with a slot for each name in it. -/
def compile (fns : FunctionTable) (e : Expr) (scope : Scope) : Program × Scope :=
  let lowered := e.lower fns 0 0 scope
  let main : Chunk :=
    { name := "main"
      params := []
      code := (lowered.code ++ [Instruction.print lowered.result]).toArray
      registers := lowered.next
      slots := lowered.scope.size }
  (⟨main, link fns main.callees .empty⟩, lowered.scope)

end Reckon
