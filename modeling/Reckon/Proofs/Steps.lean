import Mathlib.Data.List.Forall2
import Reckon.Program.Machine

/-!
# Steps of the machine

What an instruction does to a machine whose registers and cells are there, so that none of its checks
fails. `put` and `hold` are the only changes: of one register and of one cell. `Keeps next` says what
code that takes registers from `next` on leaves as it was.
-/

namespace Reckon

namespace Machine

variable {m m' m'' : Machine} {r next : Register} {slot : Slot} {v : Int64}

/-- The machine with a new content of a register. -/
def put (m : Machine) (r : Register) (v : Int64) : Machine :=
  { m with registers := m.registers.setIfInBounds r v }

/-- The machine with a new content of a cell, which is live. -/
def hold (m : Machine) (slot : Slot) (v : Int64) : Machine :=
  { m with cells := m.cells.setIfInBounds slot (some v) }

/-- The register has this content. -/
def Has (m : Machine) (r : Register) (v : Int64) : Prop := m.registers[r]? = some v

/-- The registers have these contents. -/
def HasAll (m : Machine) (rs : List Register) (vs : List Int64) : Prop := List.Forall₂ m.Has rs vs

/-- What an instruction leads to that puts a result, if there is one, in a register. -/
def settle (m : Machine) (dst : Register) :
    Except (Stop Fault) Int64 → Except (Stop Fault) Flow × Machine
  | .ok v => (.ok .next, m.put dst v)
  | .error e => (.error e, m)

/-- To write a register changes no cell. -/
@[simp] lemma put_cells : (m.put r v).cells = m.cells := rfl

/-- Only the register that is written changes. -/
@[simp] lemma put_registers : (m.put r v).registers = m.registers.setIfInBounds r v := rfl

/-- Only the cell that is written changes. -/
@[simp] lemma hold_cells : (m.hold slot v).cells = m.cells.setIfInBounds slot (some v) := rfl

/-- A register holds what was put in it. -/
lemma has_put (h : r < m.registers.size) : (m.put r v).Has r v := by
  rw [Has, put_registers, Array.getElem?_setIfInBounds_self_of_lt h]

/-- The registers before `next` and everything printed or remarked are as they were. -/
structure Keeps (m : Machine) (next : Register) (m' : Machine) : Prop where
  registers : ∀ r < next, m'.registers[r]? = m.registers[r]?
  size : m'.registers.size = m.registers.size
  output : m'.output = m.output
  remarks : m'.remarks = m.remarks

namespace Keeps

/-- A machine keeps itself. -/
lemma refl (m : Machine) (next : Register) : m.Keeps next m := ⟨fun _ _ => rfl, rfl, rfl, rfl⟩

/-- What is kept twice is kept. -/
lemma trans (h : m.Keeps next m') (h' : m'.Keeps next m'') : m.Keeps next m'' where
  registers r lt := (h'.registers r lt).trans (h.registers r lt)
  size := h'.size.trans h.size
  output := h'.output.trans h.output
  remarks := h'.remarks.trans h.remarks

/-- What is kept up to a register is kept up to an earlier one. -/
lemma mono {less : Register} (h : m.Keeps next m') (le : less ≤ next) : m.Keeps less m' :=
  ⟨fun r lt => h.registers r (Nat.lt_of_lt_of_le lt le), h.size, h.output, h.remarks⟩

/-- A register from `next` on may change. -/
lemma put (m : Machine) (v : Int64) (le : next ≤ r) : m.Keeps next (m.put r v) where
  registers r' lt := by
    rw [put_registers, Array.getElem?_setIfInBounds_ne (Nat.ne_of_gt (Nat.lt_of_lt_of_le lt le))]
  size := by rw [put_registers, Array.size_setIfInBounds]
  output := rfl
  remarks := rfl

/-- To write a cell keeps every register. -/
lemma hold (m : Machine) (next : Register) (slot : Slot) (v : Int64) :
    m.Keeps next (m.hold slot v) :=
  ⟨fun _ _ => rfl, rfl, rfl, rfl⟩

/-- A register before `next` has the content it had. -/
lemma has (h : m.Keeps next m') (lt : r < next) (has : m.Has r v) : m'.Has r v :=
  (h.registers r lt).trans has

end Keeps

/-- A register that holds a value is read. -/
lemma read_of_has (h : m.Has r v) : read r m = (.ok v, m) := by
  rw [Has] at h
  simp only [read, Run.bind_apply, Run.get_apply, h, Run.pure_apply]

/-- A register that is there is written. -/
lemma write_of_lt (h : r < m.registers.size) : write r v m = (.ok (), m.put r v) := by
  simp only [write, Run.bind_apply, Run.get_apply, if_pos h, Run.set_apply]
  rfl

/-- Loading from a cell that is there yields its value, or 0, and makes it live. -/
lemma load_of_getElem? {v? : Option Int64} (h : m.cells[slot]? = some v?) :
    load slot m = (.ok (v?.getD 0), m.hold slot (v?.getD 0)) := by
  simp only [load, Run.bind_apply, Run.get_apply, h, Run.set_apply, Run.pure_apply]
  rfl

/-- A cell that is there is written. -/
lemma store_of_lt (h : slot < m.cells.size) : store slot v m = (.ok (), m.hold slot v) := by
  simp only [store, Run.bind_apply, Run.get_apply, if_pos h, Run.set_apply]
  rfl

end Machine

namespace Instruction

open Machine

variable {chunks : ChunkTable} {enter : Chunk → Run Machine Fault (Option Int64)} {size : Nat}
  {m m' : Machine} {dst src : Register} {slot : Slot} {v : Int64}

/-- A constant is put in its register. -/
lemma exec_loadConst (h : dst < m.registers.size) :
    (loadConst dst v).exec chunks enter size m = (.ok .next, m.put dst v) := by
  simp only [exec, Run.bind_apply, write_of_lt h, Run.pure_apply]

/-- A cell is read into a register, and holds 0 from then on if it was empty. -/
lemma exec_loadVar {v? : Option Int64} (cell : m.cells[slot]? = some v?)
    (h : dst < m.registers.size) :
    (loadVar dst slot).exec chunks enter size m =
      (.ok .next, (m.hold slot (v?.getD 0)).put dst (v?.getD 0)) := by
  have h' : dst < (m.hold slot (v?.getD 0)).registers.size := h
  simp only [exec, Run.bind_apply, load_of_getElem? cell, write_of_lt h', Run.pure_apply]

/-- The value of a register is put in a cell. -/
lemma exec_storeVar (has : m.Has src v) (h : slot < m.cells.size) :
    (storeVar slot src).exec chunks enter size m = (.ok .next, m.hold slot v) := by
  simp only [exec, Run.bind_apply, read_of_has has, store_of_lt h, Run.pure_apply]

/-- The value of a register is put in another one. -/
lemma exec_move (has : m.Has src v) (h : dst < m.registers.size) :
    (move dst src).exec chunks enter size m = (.ok .next, m.put dst v) := by
  simp only [exec, Run.bind_apply, read_of_has has, write_of_lt h, Run.pure_apply]

/-- The result of an operator is put in its register, unless it traps. -/
lemma exec_compute (op : Operator) {left right : Register} {l r : Int64} (hasl : m.Has left l)
    (hasr : m.Has right r) (h : dst < m.registers.size) :
    (compute (.value op) dst left right).exec chunks enter size m =
      m.settle dst ((op.apply l r).mapError .trap) := by
  simp only [exec, Run.bind_apply, read_of_has hasl, read_of_has hasr, Run.get_apply,
    Symbol.compute, Symbol.eval?]
  cases op.apply l r with
  | error t => rfl
  | ok v =>
    simp only [Except.map, Run.trapping, Run.pure_apply, Run.set_apply, write_of_lt h]
    rfl

/-- A branch on 0 goes to its target. -/
lemma exec_branch_zero {target : Nat} (has : m.Has src 0) (h : target ≤ size) :
    (branch src target).exec chunks enter size m = (.ok (.jump target), m) := by
  simp only [exec, Run.bind_apply, read_of_has has, goTo, if_pos h, if_true, Run.pure_apply]

/-- A branch on anything else goes on behind it. -/
lemma exec_branch_nonzero (target : Nat) (has : m.Has src v) (ne : v ≠ 0) :
    (branch src target).exec chunks enter size m = (.ok .next, m) := by
  simp only [exec, Run.bind_apply, read_of_has has, if_neg ne, Run.pure_apply]

/-- A jump goes to its target. -/
lemma exec_jump {target : Nat} (h : target ≤ size) :
    (jump target).exec chunks enter size m = (.ok (.jump target), m) := by
  simp only [exec, goTo, if_pos h, Run.pure_apply]

/-- The result of a call is put in its register, unless the call stops. -/
lemma exec_call {f : String} {args : List Register} {result : Except (Stop Fault) Int64}
    (called : Machine.call chunks enter f args m = (result, m)) (h : dst < m.registers.size) :
    (call f args dst).exec chunks enter size m = m.settle dst result := by
  simp only [exec, Run.bind_apply, called]
  cases result with
  | error e => rfl
  | ok v =>
    simp only [write_of_lt h, Run.pure_apply]
    rfl

/-- A return ends with the value of its register. -/
lemma exec_ret (has : m.Has src v) :
    (ret src).exec chunks enter size m = (.ok (.finish v), m) := by
  simp only [exec, Run.bind_apply, read_of_has has, Run.pure_apply]

/-- A print goes on behind it and adds the value of its register to the output. -/
lemma exec_print (has : m.Has src v) :
    (print src).exec chunks enter size m = (.ok .next, { m with output := m.output.push v }) := by
  simp only [exec, Run.bind_apply, read_of_has has, Run.modify_apply, Run.pure_apply]

end Instruction

end Reckon
