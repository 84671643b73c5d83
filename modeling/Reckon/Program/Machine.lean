import Reckon.Program
import Reckon.Run
import Reckon.Scope

/-!
# The register machine

Runs programs, compiled or not, and so checks every register, slot and jump target it is given. A chunk
runs from its first instruction until it returns or control comes to its end. A call runs the chunk of
its function with registers at 0 and slots empty but for the arguments; what the chunk prints or remarks
is kept if the whole run succeeds.

The bound `depth` limits how deep calls nest, and how often control goes back within one activation; a
larger bound changes nothing but `exhausted`. Code that only jumps forward never spends it on jumps.
-/

namespace Reckon

/-- Why a machine cannot go on. -/
inductive Fault where
  | invalidRegister (register : Register)
  | invalidSlot (slot : Slot)
  | invalidJump (target size : Nat)
  | undefinedFunction (name : String)
  | missingReturn (name : String)
  | noOutput
  | rejected (reason : Rejection)
  deriving DecidableEq

/-- The report of a fault. -/
def Fault.message : Fault → String
  | .invalidRegister register => "Register T" ++ register.repr ++ " is out of range"
  | .invalidSlot slot => "Variable slot " ++ slot.repr ++ " is out of range"
  | .invalidJump target size =>
    "Jump target " ++ target.repr ++ " is outside a chunk of " ++ size.repr ++ " instructions"
  | .undefinedFunction name => "Undefined function '" ++ name ++ "'"
  | .missingReturn name => "Function '" ++ name ++ "' finished without returning a value"
  | .noOutput => "Program finished without printing a value"
  | .rejected reason => reason.message

/-- The state of a machine: the registers and slots of the activation at work, and what the run has
printed and remarked. -/
structure Machine where
  registers : Array Int64
  cells : Cells
  output : Array Int64
  remarks : Array Diagnostic

/-- Where control goes behind an instruction. -/
inductive Flow where
  | next
  | jump (target : Nat)
  | finish (value : Int64)

namespace Machine

/-- The content of a register. -/
def read (r : Register) : Run Machine Fault Int64 := do
  let m ← get
  match m.registers[r]? with
  | some v => return v
  | none => Run.fail (.invalidRegister r)

/-- Changes the content of a register. -/
def write (r : Register) (v : Int64) : Run Machine Fault Unit := do
  let m ← get
  if r < m.registers.size then set { m with registers := m.registers.setIfInBounds r v }
  else Run.fail (.invalidRegister r)

/-- The content of a slot, which is live from now on. -/
def load (slot : Slot) : Run Machine Fault Int64 := do
  let m ← get
  match m.cells[slot]? with
  | some value? =>
    set { m with cells := m.cells.setIfInBounds slot (some (value?.getD 0)) }
    return value?.getD 0
  | none => Run.fail (.invalidSlot slot)

/-- Changes the content of a slot. -/
def store (slot : Slot) (v : Int64) : Run Machine Fault Unit := do
  let m ← get
  if slot < m.cells.size then set { m with cells := m.cells.setIfInBounds slot (some v) }
  else Run.fail (.invalidSlot slot)

/-- The slots of a new activation once the arguments, in these registers, are in theirs. -/
def bindArguments : List (Slot × Register) → Cells → Run Machine Fault Cells
  | [], cells => pure cells
  | (slot, r) :: rest, cells => do
    let v ← read r
    if slot < cells.size then bindArguments rest (cells.setIfInBounds slot (some v))
    else Run.fail (.invalidSlot slot)

/-- Runs a chunk in a new activation with the given slots. The activation at work stays as it is. -/
def activate (run : Run Machine Fault (Option Int64)) (registers : Nat) (cells : Cells) :
    Run Machine Fault (Option Int64) := fun m =>
  let (result, m') := run { m with registers := Array.replicate registers 0, cells }
  (result, { m' with registers := m.registers, cells := m.cells })

/-- The result of a call of the chunk named `f`. -/
def call (chunks : ChunkTable) (enter : Chunk → Run Machine Fault (Option Int64)) (f : String)
    (args : List Register) : Run Machine Fault Int64 :=
  match chunks.find? f with
  | none => Run.fail (.undefinedFunction f)
  | some (_, c) => do
    let cells ← bindArguments (c.params.zip args) (Array.replicate c.slots none)
    match ← activate (enter c) c.registers cells with
    | some v => return v
    | none => Run.fail (.missingReturn f)

/-- A jump within a chunk of `size` instructions. A jump to its end is allowed. -/
def goTo (size target : Nat) : Run Machine Fault Flow :=
  if target ≤ size then return .jump target else Run.fail (.invalidJump target size)

end Machine

open Machine in
/-- The run of one instruction in a chunk of `size` instructions, with `enter` for a chunk that it
calls. -/
def Instruction.exec (chunks : ChunkTable) (enter : Chunk → Run Machine Fault (Option Int64))
    (size : Nat) : Instruction → Run Machine Fault Flow
  | .loadConst dst v => do
    write dst v
    return .next
  | .loadVar dst slot => do
    let v ← load slot
    write dst v
    return .next
  | .storeVar slot src => do
    let v ← read src
    store slot v
    return .next
  | .compute s dst left right => do
    let l ← read left
    let r ← read right
    let m ← get
    let (v, remarks) ← Run.trapping (s.compute l r m.remarks)
    set { m with remarks }
    write dst v
    return .next
  | .move dst src => do
    let v ← read src
    write dst v
    return .next
  | .branch condition target => do
    let v ← read condition
    if v = 0 then goTo size target else return .next
  | .jump target => goTo size target
  | .call f args dst => do
    let v ← Machine.call chunks enter f args
    write dst v
    return .next
  | .ret src => do
    let v ← read src
    return .finish v
  | .print src => do
    let v ← read src
    modify fun m => { m with output := m.output.push v }
    return .next
  | .fail reason => Run.fail (.rejected reason)

namespace Chunk

/-- The run of a chunk from place `pc` on. It ends in the value returned, or in none when control comes
to the end. Control may go back `loops` times. -/
def exec (chunks : ChunkTable) (enter : Chunk → Run Machine Fault (Option Int64)) (c : Chunk)
    (loops pc : Nat) : Run Machine Fault (Option Int64) := fun m =>
  if h : pc < c.code.size then
    match c.code[pc].exec chunks enter c.code.size m with
    | (.error e, m') => (.error e, m')
    | (.ok .next, m') => exec chunks enter c loops (pc + 1) m'
    | (.ok (.finish v), m') => (.ok (some v), m')
    | (.ok (.jump target), m') =>
      if pc < target then exec chunks enter c loops target m'
      else match loops with
        | 0 => (.error .exhausted, m')
        | loops + 1 => exec chunks enter c loops target m'
  else (.ok none, m)
termination_by (loops, c.code.size - pc)

section

variable {chunks : ChunkTable} {enter : Chunk → Run Machine Fault (Option Int64)} {c : Chunk}
  {loops pc : Nat} {m m' : Machine}

/-- An instruction that stops ends the run. -/
theorem exec_error {e : Stop Fault} (inside : pc < c.code.size)
    (ran : c.code[pc].exec chunks enter c.code.size m = (.error e, m')) :
    c.exec chunks enter loops pc m = (.error e, m') := by
  rw [exec, dif_pos inside, ran]

/-- After most instructions the run goes on with the one behind. -/
theorem exec_next (inside : pc < c.code.size)
    (ran : c.code[pc].exec chunks enter c.code.size m = (.ok .next, m')) :
    c.exec chunks enter loops pc m = c.exec chunks enter loops (pc + 1) m' := by
  rw [exec, dif_pos inside, ran]

/-- After a jump forward the run goes on at its target. -/
theorem exec_forward {target : Nat} (inside : pc < c.code.size)
    (ran : c.code[pc].exec chunks enter c.code.size m = (.ok (.jump target), m'))
    (forward : pc < target) :
    c.exec chunks enter loops pc m = c.exec chunks enter loops target m' := by
  rw [exec, dif_pos inside, ran]
  simp only [if_pos forward]

/-- A jump back takes one from the bound. -/
theorem exec_back {target : Nat} (inside : pc < c.code.size)
    (ran : c.code[pc].exec chunks enter c.code.size m = (.ok (.jump target), m'))
    (back : ¬pc < target) :
    c.exec chunks enter (loops + 1) pc m = c.exec chunks enter loops target m' := by
  rw [exec, dif_pos inside, ran]
  simp only [if_neg back]

/-- A value that is returned ends the run. -/
theorem exec_finish {v : Int64} (inside : pc < c.code.size)
    (ran : c.code[pc].exec chunks enter c.code.size m = (.ok (.finish v), m')) :
    c.exec chunks enter loops pc m = (.ok (some v), m') := by
  rw [exec, dif_pos inside, ran]

/-- Behind the last instruction the run ends. -/
theorem exec_outside (outside : ¬pc < c.code.size) :
    c.exec chunks enter loops pc m = (.ok none, m) := by
  rw [exec, dif_neg outside]

end

/-- The run of a chunk in its activation, in which calls nest at most `depth` deep. -/
def run (chunks : ChunkTable) : Nat → Chunk → Run Machine Fault (Option Int64)
  | 0, _ => throw .exhausted
  | depth + 1, c => c.exec chunks (run chunks depth) depth 0

end Chunk

/-- What a run produced besides its effect on the scope. -/
structure Execution where
  output : Array Int64
  diagnostics : Array Diagnostic

/-- The run of a program on the scope of the session. The main chunk reads and writes its slots. -/
def Program.run (depth : Nat) (p : Program) : Run Scope Fault Execution := fun scope =>
  let start : Machine :=
    { registers := Array.replicate p.main.registers 0
      cells := scope.cells
      output := #[]
      remarks := #[] }
  let (result, m) := p.main.exec p.functions (Chunk.run p.functions depth) depth 0 start
  (result.map fun _ => ⟨m.output, m.remarks⟩, scope.withCells m.cells)

namespace Program

/-- The state in which the main chunk of a program starts to run on these slots. -/
def start (p : Program) (cells : Cells) : Machine :=
  { registers := Array.replicate p.main.registers 0, cells, output := #[], remarks := #[] }

/-- The end of the run of the main chunk. -/
def finish (p : Program) (depth : Nat) (cells : Cells) :
    Except (Stop Fault) (Option Int64) × Machine :=
  p.main.exec p.functions (Chunk.run p.functions depth) depth 0 (p.start cells)

/-- The run of a program in terms of the run of its main chunk. -/
theorem run_eq (p : Program) (depth : Nat) (scope : Scope) :
    p.run depth scope =
      ((p.finish depth scope.cells).1.map fun _ =>
          ⟨(p.finish depth scope.cells).2.output, (p.finish depth scope.cells).2.remarks⟩,
        scope.withCells (p.finish depth scope.cells).2.cells) := rfl

end Program

end Reckon
