import Reckon.Catalogue
import Reckon.Rejection
import Reckon.Operator
import Reckon.Text.Decimal

/-!
# Programs

Code for a register machine. A chunk is the code of one activation: it computes in registers `T0`,
`T1`, …, and keeps its variables in slots, `stack[0]`, `stack[1]`, …. The main chunk of a program
works on the slots of the session's scope, any other on slots of its own. `listing` shows a program
as text.
-/

namespace Reckon

open Text

/-- The number of a register. -/
abbrev Register := Nat

/-- The number of a slot. -/
abbrev Slot := Nat

/-- One step of a chunk. -/
inductive Instruction where
  | loadConst (dst : Register) (value : Int64)
  | loadVar (dst : Register) (slot : Slot)
  | storeVar (slot : Slot) (src : Register)
  | compute (s : Symbol) (dst left right : Register)
  | move (dst src : Register)
  /-- Goes to `target` if the condition is 0. -/
  | branch (condition : Register) (target : Nat)
  | jump (target : Nat)
  | call (function : String) (args : List Register) (dst : Register)
  | ret (src : Register)
  | print (src : Register)
  /-- Ends the run with a rejection. -/
  | fail (reason : Rejection)
  deriving DecidableEq

namespace Instruction

/-- The written form of a register. -/
def register (r : Register) : String := "T" ++ r.repr

/-- The line of an instruction in a listing. -/
def text : Instruction → String
  | .loadConst dst value => register dst ++ " = " ++ decimal value
  | .loadVar dst slot => register dst ++ " = stack[" ++ slot.repr ++ "]"
  | .storeVar slot src => "stack[" ++ slot.repr ++ "] = " ++ register src
  | .compute s dst left right =>
    register dst ++ " = " ++ register left ++ " " ++ s.text ++ " " ++ register right
  | .move dst src => register dst ++ " = " ++ register src
  | .branch condition target => "if " ++ register condition ++ " == 0 goto " ++ target.repr
  | .jump target => "goto " ++ target.repr
  | .call function args dst =>
    register dst ++ " = " ++ function ++ "(" ++ ", ".intercalate (args.map register) ++ ")"
  | .ret src => "return " ++ register src
  | .print src => "print " ++ register src
  | .fail reason => "fail \"" ++ reason.message ++ "\""

/-- The function that an instruction calls. -/
def callee? : Instruction → Option String
  | .call function _ _ => some function
  | _ => none

end Instruction

/-- The code of one activation, the slots that its arguments go to, and the numbers of registers and
slots that it uses. -/
structure Chunk where
  name : String
  params : List Slot
  code : Array Instruction
  registers : Nat
  slots : Nat

namespace Chunk

/-- The number of an instruction, at the right of four columns. -/
def lineNumber (i : Nat) : String := String.ofList (List.leftpad 4 ' ' (Nat.toDigits 10 i))

/-- A chunk as text: a head, then a line for each instruction. -/
def listing (c : Chunk) : String :=
  c.name ++ ": " ++ c.registers.repr ++ " registers, " ++ c.slots.repr ++ " slots\n" ++
    String.join (c.code.toList.mapIdx fun i instruction =>
      lineNumber i ++ "  " ++ instruction.text ++ "\n")

/-- The functions that the code of a chunk calls. -/
def callees (c : Chunk) : List String := c.code.toList.filterMap Instruction.callee?

end Chunk

/-- The chunks of functions by the names they are called by. -/
abbrev ChunkTable := Catalogue (Prod.fst : String × Chunk → String)

/-- A main chunk with the chunks of the functions it can reach. -/
structure Program where
  main : Chunk
  functions : ChunkTable

/-- A program as text: the main chunk, then the others in increasing order of the names they are
called by. -/
def Program.listing (p : Program) : String :=
  p.main.listing ++ String.join (p.functions.entries.map fun (_, c) => c.listing)

end Reckon
