import Reckon.Proofs.Flow
import Reckon.Proofs.Reached

/-!
# Registers are written before they are read

Lowering takes registers in the order of the code, one for each value, one for the result of each
conditional, and one in place of each value that is rejected (`Instruction.takes`).

* `Allotted`: where a register is written that was taken at some place.
* `Tidy`: code that takes the registers from one on to another and writes no others, each as allotted
  (`Expr.tidy_lower`).
* `compile_registers`: in every chunk of a program each register is written as allotted, every way
  writes a register before it reads it, and no run depends on what the registers hold at its start.
-/

namespace Reckon

open Chunk

/-- An instruction takes the next register: for its value, for that of the conditional that it begins,
or for a value that is never there. -/
def Instruction.takes : Instruction → Bool
  | .loadConst .. | .loadVar .. | .compute .. | .branch .. | .call .. | .fail _ => true
  | .storeVar .. | .move .. | .jump _ | .ret _ | .print _ => false

/-- The places where a register is written in code that starts at `base`. -/
def writers (r : Register) (base : Nat) (code : List Instruction) : List Nat :=
  ((code.zipIdx base).filter fun (i, _) => i.destination? = some r).map Prod.snd

/-- The instructions of code that starts at `base`, each with its place and the first register that is
free there, which is `next` at the start. -/
def ledger : (base : Nat) → (next : Register) → List Instruction →
    List (Nat × Register × Instruction)
  | _, _, [] => []
  | base, next, i :: code =>
    (base, next, i) :: ledger (base + 1) (next + i.takes.toNat) code

/-- How a register is written that the instruction at place `pc` takes. One taken for a value is
written there and nowhere else, and one taken in place of a value nowhere. That of a conditional is
written by the moves that close its arms: the first arm stands behind the branch, and its move is
followed by a jump over the other arm, which stands at the target of the branch. -/
def Allotted (code : List Instruction) (base : Nat) (r : Register) (pc : Nat) : Instruction → Prop
  | .fail _ => writers r base code = []
  | .branch _ target => ∃ p q x y, pc < p ∧ target = p + 2 ∧ target ≤ q ∧
    (.move r x, p) ∈ code.zipIdx base ∧ (.jump (q + 1), p + 1) ∈ code.zipIdx base ∧
    (.move r y, q) ∈ code.zipIdx base ∧ writers r base code = [p, q]
  | _ => writers r base code = [pc]

section Code

variable {code front back : List Instruction} {base next mid last r pc : Nat} {i : Instruction}

/-- The writers in code are those in its first part and those in its second. -/
lemma writers_append (r : Register) (base : Nat) (front back : List Instruction) :
    writers r base (front ++ back) =
      writers r base front ++ writers r (base + front.length) back := by
  simp only [writers, List.zipIdx_append, List.filter_append, List.map_append]

/-- Code that does not have the register as a destination writes it nowhere. -/
lemma writers_eq_nil (none : ∀ i ∈ code, i.destination? ≠ some r) : writers r base code = [] := by
  rw [writers, List.map_eq_nil_iff, List.filter_eq_nil_iff]
  intro x mem
  simpa using none x.1 (List.fst_mem_of_mem_zipIdx mem)

/-- The first instruction takes a register or none, besides the others. -/
lemma countP_takes_cons (i : Instruction) (code : List Instruction) :
    (i :: code).countP Instruction.takes = i.takes.toNat + code.countP Instruction.takes := by
  rw [List.countP_cons, Nat.add_comm]
  cases i.takes <;> rfl

/-- The ledger of code is that of its first part and that of its second. -/
lemma ledger_append (base next : Nat) (front back : List Instruction) :
    ledger base next (front ++ back) =
      ledger base next front ++
        ledger (base + front.length) (next + front.countP Instruction.takes) back := by
  induction front generalizing base next with
  | nil => rfl
  | cons i front ih =>
    rw [List.cons_append, ledger, ledger, ih, countP_takes_cons, List.length_cons, Nat.add_assoc,
      Nat.add_assoc, Nat.add_comm 1, List.cons_append]

/-- What instructions of the code take are registers from `next` on, as many as take one. -/
lemma bounds_of_mem_ledger (mem : (pc, r, i) ∈ ledger base next code) (takes : i.takes) :
    next ≤ r ∧ r < next + code.countP Instruction.takes := by
  induction code generalizing base next with
  | nil => cases mem
  | cons j code ih =>
    rw [countP_takes_cons]
    cases List.mem_cons.1 mem with
    | inl first =>
      cases first
      rw [takes, Bool.toNat_true]
      omega
    | inr mem =>
      have h := ih mem
      omega

/-- Each register that is taken is taken at some place, behind those taken for the registers before
it. -/
lemma exists_mem_ledger (base : Nat) (le : next ≤ r)
    (lt : r < next + code.countP Instruction.takes) :
    ∃ n i, (base + n, r, i) ∈ ledger base next code ∧ i.takes ∧ code[n]? = some i ∧
      next + (code.take n).countP Instruction.takes = r := by
  induction code generalizing base next with
  | nil => exact absurd lt (Nat.not_lt.2 le)
  | cons j code ih =>
    rw [countP_takes_cons] at lt
    by_cases first : j.takes ∧ r = next
    · obtain ⟨takes, rfl⟩ := first
      exact ⟨0, j, List.mem_cons_self .., takes, rfl, rfl⟩
    · have le : next + j.takes.toNat ≤ r := by
        cases takes : j.takes with
        | false => exact le
        | true =>
          have other : r ≠ next := fun same => first ⟨takes, same⟩
          simp only [Bool.toNat_true]
          omega
      obtain ⟨n, i, mem, takes, there, eq⟩ := ih (base + 1) le (by omega)
      refine ⟨n + 1, i, ?_, takes, there, ?_⟩
      · rw [← Nat.add_assoc, Nat.add_right_comm]
        exact List.mem_cons_of_mem _ mem
      · rw [List.take_succ_cons, countP_takes_cons]
        omega

/-- In a larger code whose other parts do not write the register, it is written as before. -/
lemma Allotted.widen (h : Allotted code (base + front.length) r pc i)
    (before : ∀ i ∈ front, i.destination? ≠ some r) (behind : ∀ i ∈ back, i.destination? ≠ some r) :
    Allotted (front ++ code ++ back) base r pc i := by
  have same : writers r base (front ++ code ++ back) = writers r (base + front.length) code := by
    rw [writers_append, writers_append, writers_eq_nil before, writers_eq_nil behind, List.nil_append,
      List.append_nil]
  have there : ∀ x ∈ code.zipIdx (base + front.length), x ∈ (front ++ code ++ back).zipIdx base := by
    intro x mem
    rw [List.zipIdx_append, List.zipIdx_append]
    exact List.mem_append_left _ (List.mem_append_right _ mem)
  cases i with
  | branch condition target =>
    obtain ⟨p, q, x, y, lt, eq, le, first, jump, second, wrote⟩ := h
    exact ⟨p, q, x, y, lt, eq, le, there _ first, there _ jump, there _ second, same.trans wrote⟩
  | _ => exact same.trans h

/-- The code, which starts at `base`, takes the registers from `next` to `last` and writes no others,
each as it is allotted. -/
structure Tidy (code : List Instruction) (base next last : Nat) : Prop where
  count : last = next + code.countP Instruction.takes
  bounded : ∀ i ∈ code, ∀ r : Nat, i.destination? = some r → next ≤ r ∧ r < last
  allotted : ∀ (pc r : Nat) i, (pc, r, i) ∈ ledger base next code → i.takes →
    Allotted code base r pc i

namespace Tidy

/-- Code without instructions is tidy. -/
lemma nil (base next : Nat) : Tidy [] base next next := ⟨rfl, nofun, nofun⟩

/-- An instruction that takes a register for its value. -/
lemma value (base : Nat) (takes : i.takes) (wrote : i.destination? = some next) :
    Tidy [i] base next (next + 1) := by
  refine ⟨?_, ?_, ?_⟩
  · simp [takes]
  · intro j mem r there
    cases List.mem_singleton.1 mem
    cases wrote.symm.trans there
    omega
  · intro pc r j mem _
    cases List.mem_singleton.1 mem
    have here : writers next base [i] = [base] := by simp [writers, wrote]
    cases i with
    | branch | fail => cases wrote
    | _ => exact here

/-- An instruction that takes no register and writes none. -/
lemma still (base next : Nat) (takes : i.takes = false) (silent : i.destination? = none) :
    Tidy [i] base next next := by
  refine ⟨?_, ?_, ?_⟩
  · simp [takes]
  · intro j mem r there
    cases List.mem_singleton.1 mem
    cases silent.symm.trans there
  · intro pc r j mem takes'
    cases List.mem_singleton.1 mem
    cases takes.symm.trans takes'

/-- A rejection takes a register and writes none. -/
lemma rejected (reason : Rejection) (base next : Nat) :
    Tidy [.fail reason] base next (next + 1) := by
  refine ⟨rfl, ?_, ?_⟩
  · intro j mem r there
    cases List.mem_singleton.1 mem
    cases there
  · intro pc r j mem _
    cases List.mem_singleton.1 mem
    rfl

/-- In a larger code whose other parts write other registers, each register is written as allotted. -/
lemma allotted_within (h : Tidy code (base + front.length) next last)
    (before : ∀ i ∈ front, ∀ r : Nat, i.destination? = some r → r < next ∨ last ≤ r)
    (behind : ∀ i ∈ back, ∀ r : Nat, i.destination? = some r → r < next ∨ last ≤ r)
    (mem : (pc, r, i) ∈ ledger (base + front.length) next code) (takes : i.takes) :
    Allotted (front ++ code ++ back) base r pc i := by
  have bounds := bounds_of_mem_ledger mem takes
  rw [← h.count] at bounds
  refine (h.allotted pc r i mem takes).widen ?_ ?_
  · intro j mem wrote
    have := before j mem r wrote
    omega
  · intro j mem wrote
    have := behind j mem r wrote
    omega

/-- The two parts of code take registers of their own. -/
lemma append (h : Tidy front base next mid) (h' : Tidy back (base + front.length) mid last) :
    Tidy (front ++ back) base next last := by
  have le := h.count
  have le' := h'.count
  refine ⟨?_, ?_, ?_⟩
  · rw [List.countP_append]
    omega
  · intro i mem r wrote
    cases List.mem_append.1 mem with
    | inl mem =>
      have := h.bounded i mem r wrote
      omega
    | inr mem =>
      have := h'.bounded i mem r wrote
      omega
  · intro pc r i mem takes
    rw [ledger_append, List.mem_append, ← h.count] at mem
    cases mem with
    | inl mem =>
      have within : Allotted ([] ++ front ++ back) base r pc i :=
        h.allotted_within nofun (fun i mem r wrote => .inr (h'.bounded i mem r wrote).1) mem takes
      exact within
    | inr mem =>
      have within : Allotted (front ++ back ++ []) base r pc i :=
        h'.allotted_within (fun i mem r wrote => .inl (h.bounded i mem r wrote).2) nofun mem takes
      rwa [List.append_nil] at within

section Conditional

variable {t a b : List Instruction} {condition x y : Register} {stop : Nat}

/-- The code of a conditional from its branch to the jump over the second arm. -/
def firstArm (base next : Nat) (condition x : Register) (a : List Instruction) (stop : Nat) :
    List Instruction :=
  [.branch condition (base + 1 + a.length + 2)] ++ a ++ [.move next x, .jump stop]

/-- The first arm has a branch in front and two instructions behind. -/
lemma length_firstArm : (firstArm base next condition x a stop).length = 1 + a.length + 2 := by
  simp +arith [firstArm]

/-- The first arm takes the registers of its code and one for the result. -/
lemma countP_firstArm (ha : Tidy a (base + 1) (next + 1) mid) :
    next + (firstArm base next condition x a stop).countP Instruction.takes = mid := by
  have count := ha.count
  simp only [firstArm, List.countP_append, countP_takes_cons, List.countP_nil, Instruction.takes,
    Bool.toNat_true, Bool.toNat_false]
  omega

/-- The destinations in the first arm are those that it takes. -/
lemma bounded_firstArm (ha : Tidy a (base + 1) (next + 1) mid) :
    ∀ i ∈ firstArm base next condition x a stop, ∀ r : Nat, i.destination? = some r →
      next ≤ r ∧ r < mid := by
  have count := ha.count
  intro i mem r wrote
  simp only [firstArm, List.mem_append, List.mem_cons, List.not_mem_nil, or_false] at mem
  rcases mem with (rfl | mem) | rfl | rfl
  · cases wrote
  · have := ha.bounded i mem r wrote
    omega
  · cases wrote
    omega
  · cases wrote

/-- The register that the branch takes is written by the moves behind the arms. -/
lemma allotted_branch (noneA : ∀ i ∈ a, i.destination? ≠ some next)
    (noneB : ∀ i ∈ b, i.destination? ≠ some next) :
    Allotted (firstArm base next condition x a (base + 1 + a.length + 2 + b.length + 1) ++ b ++
      [.move next y]) base next base (.branch condition (base + 1 + a.length + 2)) := by
  refine ⟨base + 1 + a.length, base + 1 + a.length + 2 + b.length, x, y, by omega, rfl, by omega,
    ?_, ?_, ?_, ?_⟩
  · simp [firstArm, List.zipIdx_append]
  · simp [firstArm, List.zipIdx_append]
  · simp +arith [List.zipIdx_append, length_firstArm]
  · rw [writers_append, writers_append, writers_eq_nil noneB, firstArm, writers_append,
      writers_append, writers_eq_nil noneA]
    simp +arith [writers, Instruction.destination?]

/-- The register of a conditional is taken by its branch, and those behind it by its arms. -/
lemma arms (condition x y : Register) (ha : Tidy a (base + 1) (next + 1) mid)
    (hb : Tidy b (base + 1 + a.length + 2) mid last) :
    Tidy (firstArm base next condition x a (base + 1 + a.length + 2 + b.length + 1) ++ b ++
      [.move next y]) base next last := by
  have count := ha.count
  have count' := hb.count
  obtain ⟨stop, jumps⟩ : ∃ stop, base + 1 + a.length + 2 + b.length + 1 = stop := ⟨_, rfl⟩
  have place : base + (firstArm base next condition x a stop).length = base + 1 + a.length + 2 := by
    rw [length_firstArm, Nat.add_assoc, Nat.add_assoc, Nat.add_assoc]
  refine ⟨?_, ?_, ?_⟩
  · rw [jumps, List.countP_append, List.countP_append, ← Nat.add_assoc, ← Nat.add_assoc,
      countP_firstArm ha]
    exact count'
  · intro i mem r wrote
    simp only [List.mem_append, List.mem_singleton] at mem
    rcases mem with (mem | mem) | rfl
    · have := bounded_firstArm ha i mem r wrote
      omega
    · have := hb.bounded i mem r wrote
      omega
    · cases wrote
      omega
  · intro pc r i mem takes
    rw [jumps, ledger_append, ledger_append, countP_firstArm ha, List.mem_append, List.mem_append]
      at mem
    rcases mem with (mem | mem) | move
    · simp only [firstArm, ledger_append, List.mem_append] at mem
      rcases mem with (branch | mem) | moves
      · cases List.mem_singleton.1 branch
        apply allotted_branch
        · intro i mem wrote
          have := ha.bounded i mem next wrote
          omega
        · intro i mem wrote
          have := hb.bounded i mem next wrote
          omega
      · have within : Allotted ([.branch condition (base + 1 + a.length + 2)] ++ a ++
            ([.move next x, .jump stop] ++ b ++ [.move next y])) base r pc i := by
          refine ha.allotted_within (List.forall_mem_singleton.2 nofun) ?_ mem takes
          intro i mem r wrote
          simp only [List.mem_append, List.mem_cons, List.not_mem_nil, or_false] at mem
          rcases mem with ((rfl | rfl) | mem) | rfl
          · cases wrote
            omega
          · cases wrote
          · exact .inr (hb.bounded i mem r wrote).1
          · cases wrote
            omega
        rw [jumps, firstArm]
        simpa only [List.append_assoc] using within
      · rcases List.mem_pair.1 moves with ⟨⟨⟩⟩ | ⟨⟨⟩⟩ <;> cases takes
    · rw [jumps]
      rw [← place] at hb
      refine hb.allotted_within ?_ ?_ mem takes
      · intro i mem r wrote
        exact .inl (bounded_firstArm ha i mem r wrote).2
      · refine List.forall_mem_singleton.2 fun r wrote => ?_
        cases wrote
        omega
    · cases List.mem_singleton.1 move
      cases takes

/-- The code of a conditional takes the registers of its test, then its own, then those of its arms. -/
lemma conditional (ht : Tidy t base next mid) {behind : Nat}
    (ha : Tidy a (base + t.length + 1) (mid + 1) behind)
    (hb : Tidy b (base + t.length + 1 + a.length + 2) behind last) :
    Tidy (t ++ [.branch condition (base + t.length + 1 + a.length + 2)] ++ a ++
      [.move mid x, .jump (base + t.length + 1 + a.length + 2 + b.length + 1)] ++ b ++ [.move mid y])
      base next last := by
  have code := ht.append (arms condition x y ha hb)
  simpa only [firstArm, List.append_assoc] using code

end Conditional

end Tidy

end Code

namespace Expr

variable {fns : FunctionTable}

/-- The code of arguments is tidy, if the code of each of them is. -/
lemma tidy_lowerArgs {es : List Expr}
    (all : ∀ e ∈ es, ∀ base next scope,
      Tidy (e.lower fns base next scope).code base next (e.lower fns base next scope).next)
    (base next : Nat) (scope : Scope) :
    Tidy (lowerArgs fns es base next scope).code base next
      (lowerArgs fns es base next scope).next := by
  induction es generalizing base next scope with
  | nil => exact .nil base next
  | cons e es ih =>
    obtain ⟨first, others⟩ := List.forall_mem_cons.1 all
    exact (first base next scope).append (ih others _ _ _)

/-- The code of an expression takes the registers that it is said to take, each as it is allotted. -/
lemma tidy_lower (e : Expr) : ∀ base next scope,
    Tidy (e.lower fns base next scope).code base next (e.lower fns base next scope).next := by
  induction e using Expr.induction with
  | lit v => exact fun base next scope => .value base rfl rfl
  | var x => exact fun base next scope => .value base rfl rfl
  | assign target value _ ih =>
    intro base next scope
    cases target with
    | var x => exact (ih base next scope).append (.still _ _ rfl rfl)
    | _ => exact .rejected _ base next
  | binary op left right ihl ihr =>
    intro base next scope
    exact ((ihl base next scope).append (ihr _ _ _)).append (.value _ rfl rfl)
  | cond test whenTrue whenFalse iht iha ihb =>
    intro base next scope
    exact Tidy.conditional (iht base next scope) (iha _ _ _) (ihb _ _ _)
  | call f args ih =>
    intro base next scope
    cases lower_call_cases fns f args with
    | inl entered =>
      obtain ⟨d, found, fits⟩ := entered
      rw [lower_call found fits]
      exact (tidy_lowerArgs ih base next scope).append (.value _ rfl rfl)
    | inr refused =>
      obtain ⟨reason, -, lowered⟩ := refused
      rw [lowered]
      exact .rejected reason base next

end Expr

section Chunks

variable {fns : FunctionTable} {e : Expr} {scope : Scope} {c : Chunk}

/-- A chunk of a program is the code of an expression and an instruction that reads its result, and
leads nowhere but to the end of the chunk. -/
lemma code_of_mem_chunks (mem : c ∈ (compile fns e scope).1.chunks) :
    ∃ (e : Expr) (names : Scope) (i : Instruction), let lowered := e.lower fns 0 0 names
      c.code.toList = lowered.code ++ [i] ∧ c.registers = lowered.next ∧ i.takes = false ∧
        i.destination? = none ∧ i.sources = [lowered.result] ∧
        ∀ place ∈ i.successors lowered.code.length, place = lowered.code.length + 1 := by
  cases chunk_cases mem with
  | inl main =>
    subst main
    exact ⟨e, scope, .print _, rfl, rfl, rfl, rfl, rfl, fun place => List.mem_singleton.1⟩
  | inr function =>
    obtain ⟨f, d, -, -, rfl⟩ := function
    exact ⟨d.body, d.locals, .ret _, rfl, rfl, rfl, rfl, rfl, nofun⟩

/-- A chunk of a program is ready at its start, where no register is written. -/
lemma ready_of_mem_chunks (mem : c ∈ (compile fns e scope).1.chunks) : c.Ready 0 ∅ := by
  obtain ⟨e, names, i, code, -, -, -, reads, leads⟩ := code_of_mem_chunks mem
  have holds : c.Holds 0 ((e.lower fns 0 0 names).code ++ [i]) := code ▸ .whole c
  refine e.carries_lower 0 0 names holds.left ∅ fun W _ result => ?_
  refine .step holds.right ?_ fun W' _ _ place goes => ?_
  · rw [reads]
    exact List.forall_mem_singleton.2 result
  · rw [Nat.zero_add] at goes
    have size : c.code.size = (e.lower fns 0 0 names).code.length + 1 := by
      rw [← Array.length_toList, code, List.length_append, List.length_singleton]
    have := leads place goes
    exact .outside (by omega)

/-- The code of a chunk of a program is tidy. -/
lemma tidy_of_mem_chunks (mem : c ∈ (compile fns e scope).1.chunks) :
    Tidy c.code.toList 0 0 c.registers := by
  obtain ⟨e, names, i, code, registers, takes, silent, -, -⟩ := code_of_mem_chunks mem
  rw [code, registers]
  exact (e.tidy_lower 0 0 names).append (.still _ _ takes silent)

end Chunks

/-- Registers are written before they are read. In every chunk of a compiled program:

* A register below the count of the chunk is taken by one instruction, and the registers before it by
  instructions in front of that one. It is written there and nowhere else; but that of a conditional is
  written by the two moves that close its arms, and one that stands for a rejected value nowhere.
* On every way of control from the start, a register that is read is the destination of an instruction
  passed before. A rejection ends a way.
* So whatever the registers hold at the start, the chunk has the same result, prints and remarks the
  same and leaves the same in the slots as with registers at 0. -/
theorem compile_registers (fns : FunctionTable) (e : Expr) (scope : Scope) {c : Chunk}
    (mem : c ∈ (compile fns e scope).1.chunks) :
    (∀ r < c.registers, ∃ pc i, c.code[pc]? = some i ∧ i.takes ∧
      (c.code.toList.take pc).countP Instruction.takes = r ∧ Allotted c.code.toList 0 r pc i) ∧
    (∀ passed pc, c.Path 0 passed pc → ∀ inside : pc < c.code.size, ∀ r ∈ c.code[pc].sources,
      ∃ i ∈ passed, i.destination? = some r) ∧
    ∀ chunks enter loops (m : Machine),
      let zeros : Machine := { m with registers := Array.replicate m.registers.size 0 }
      let x := c.exec chunks enter loops 0 m
      let y := c.exec chunks enter loops 0 zeros
      x.1 = y.1 ∧ x.2.output = y.2.output ∧ x.2.remarks = y.2.remarks ∧ x.2.cells = y.2.cells := by
  have ready := ready_of_mem_chunks mem
  have tidy := tidy_of_mem_chunks mem
  refine ⟨fun r lt => ?_, fun passed pc path inside r read => ?_, fun chunks enter loops m => ?_⟩
  · have lt : r < 0 + c.code.toList.countP Instruction.takes := tidy.count ▸ lt
    obtain ⟨pc, i, entry, takes, there, eq⟩ := exists_mem_ledger 0 (Nat.zero_le r) lt
    rw [Nat.zero_add] at entry eq
    exact ⟨pc, i, Array.getElem?_toList ▸ there, takes, eq, tidy.allotted pc r i entry takes⟩
  · exact (ready passed pc path inside r read).resolve_left nofun
  · have agree : Machine.Agree ∅ m { m with registers := Array.replicate m.registers.size 0 } :=
      ⟨rfl, rfl, rfl, Array.size_replicate.symm, nofun⟩
    exact (Chunk.alike_exec ready agree).effects

/-- A conditional with a rejected arm. Its result is written by two moves, the value of the rejected
call nowhere, and the instructions that would read it are behind the rejection. -/
theorem compile_registers_rejected_arm :
    let e : Expr := .cond (.var "x") (.assign (.var "y") (.call "f" [])) (.lit 2)
    let c := (compile .empty e .empty).1.main
    let cells : Cells := #[none, none]
    c.code.toList = [.loadVar 0 0, .branch 0 6, .fail (.undefinedFunction "f"), .storeVar 1 2,
      .move 1 2, .jump 8, .loadConst 3 2, .move 1 3, .print 1] ∧
    writers 1 0 c.code.toList = [4, 7] ∧ writers 2 0 c.code.toList = [] ∧
    ∀ chunks enter (a b c' d : Int64),
      (c.exec chunks enter 0 0 ⟨#[a, b, c', d], cells, #[], #[]⟩).2.output =
        (c.exec chunks enter 0 0 ⟨#[0, 0, 0, 0], cells, #[], #[]⟩).2.output := by
  intro e c cells
  have mem : c ∈ (compile .empty e .empty).1.chunks := List.mem_cons_self ..
  obtain ⟨-, -, same⟩ := compile_registers .empty e .empty mem
  refine ⟨by decide +kernel, by decide +kernel, by decide +kernel, ?_⟩
  intro chunks enter a b c' d
  exact (same chunks enter 0 ⟨#[a, b, c', d], cells, #[], #[]⟩).2.1

end Reckon
