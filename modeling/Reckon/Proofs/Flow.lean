import Mathlib.Data.Set.Insert
import Reckon.Proofs.Lowering
import Reckon.Proofs.Steps

/-!
# Control flow and registers

Which registers an instruction reads and writes, and where control goes behind it, told without running
it.

* `Chunk.Path`: the ways that control can take through a chunk, with the instructions passed on them.
* `Chunk.Ready`: from a place on, no way reads a register that was not written before.
* `Chunk.alike_exec`: where a chunk is ready, a run does not depend on the other registers.
* `Expr.carries_lower`: the code of an expression carries readiness from behind it to its start, and
  leaves its result written.
-/

namespace Reckon

namespace Instruction

/-- The register that an instruction writes. -/
def destination? : Instruction → Option Register
  | .loadConst dst _ | .loadVar dst _ | .compute _ dst _ _ | .move dst _ | .call _ _ dst => some dst
  | .storeVar .. | .branch .. | .jump _ | .ret _ | .print _ | .fail _ => none

/-- The registers that an instruction reads. -/
def sources : Instruction → List Register
  | .compute _ _ left right => [left, right]
  | .call _ args _ => args
  | .storeVar _ src | .move _ src | .branch src _ | .ret src | .print src => [src]
  | .loadConst .. | .loadVar .. | .jump _ | .fail _ => []

/-- The places where control can go behind an instruction at place `pc`, unless the run stops. -/
def successors (pc : Nat) : Instruction → List Nat
  | .branch _ target => [pc + 1, target]
  | .jump target => [target]
  | .ret _ | .fail _ => []
  | _ => [pc + 1]

/-- The place that the instruction makes control go to. -/
def target? : Instruction → Option Nat
  | .branch _ target | .jump target => some target
  | _ => none

/-- The registers written once the instruction has been passed. -/
def written (i : Instruction) (W : Set Register) : Set Register := {r | i.destination? = some r} ∪ W

/-- The target of an instruction is among the places that it leads to. -/
lemma mem_successors_of_target {i : Instruction} {pc target : Nat} (leads : i.target? = some target) :
    target ∈ i.successors pc := by
  cases i with
  | branch condition place =>
    cases leads
    exact List.mem_pair.2 (.inr rfl)
  | jump place =>
    cases leads
    exact List.mem_singleton_self _
  | _ => cases leads

end Instruction

namespace Chunk

/-- The ways of control from one place of a chunk to another, with the instructions passed. No way goes
on behind a rejection or a return. -/
inductive Path (c : Chunk) : Nat → List Instruction → Nat → Prop where
  | here (pc : Nat) : Path c pc [] pc
  | through {pc next passed last} (inside : pc < c.code.size) :
    next ∈ c.code[pc].successors pc → Path c next passed last →
      Path c pc (c.code[pc] :: passed) last

/-- On every way from `pc` on, each register that is read is among those written at the start, or is
the destination of an instruction passed. -/
def Ready (c : Chunk) (pc : Nat) (W : Set Register) : Prop :=
  ∀ passed last, c.Path pc passed last → ∀ inside : last < c.code.size,
    ∀ r ∈ c.code[last].sources, r ∈ W ∨ ∃ i ∈ passed, i.destination? = some r

namespace Ready

variable {c : Chunk} {pc : Nat} {W W' : Set Register} {i : Instruction} {code : List Instruction}

/-- A place may be written in another way. -/
lemma cast {pc' : Nat} (h : c.Ready pc W) (eq : pc = pc') : c.Ready pc' W := eq ▸ h

/-- A chunk is ready at its end. -/
lemma outside (h : ¬pc < c.code.size) : c.Ready pc W := by
  intro passed last path inside
  cases path with
  | here => exact absurd inside h
  | through inside => exact absurd inside h

/-- What an instruction reads is written where the chunk is ready. -/
lemma sources (h : c.Ready pc W) (inside : pc < c.code.size) :
    ∀ r ∈ c.code[pc].sources, r ∈ W :=
  fun r read => (h [] pc (.here pc) inside r read).resolve_right nofun

/-- Behind an instruction the chunk is ready, with what that has written. -/
lemma next (h : c.Ready pc W) (inside : pc < c.code.size) {next : Nat}
    (goes : next ∈ c.code[pc].successors pc) : c.Ready next (c.code[pc].written W) := by
  intro passed last path inside' r read
  cases h _ last (.through inside goes path) inside' r read with
  | inl before => exact .inl (.inr before)
  | inr passing =>
    obtain ⟨i, mem, wrote⟩ := passing
    cases List.mem_cons.1 mem with
    | inl first =>
      subst first
      exact .inl (.inl wrote)
    | inr later => exact .inr ⟨i, later, wrote⟩

/-- A chunk is ready at an instruction that reads written registers, if it is wherever control goes
behind it once the destination is written. -/
lemma step (here : c.Holds pc (i :: code)) (reads : ∀ r ∈ i.sources, r ∈ W)
    (behind : ∀ W', W ⊆ W' → (∀ r, i.destination? = some r → r ∈ W') →
      ∀ next ∈ i.successors pc, c.Ready next W') : c.Ready pc W := by
  have there : ∀ inside : pc < c.code.size, c.code[pc] = i := here.getElem
  intro passed last path inside r read
  cases path with
  | here =>
    rw [there] at read
    exact .inl (reads r read)
  | through inside goes path =>
    rw [there] at goes ⊢
    have ready := behind (i.written W) Set.subset_union_right (fun r wrote => .inl wrote) _ goes
    cases ready _ last path _ r read with
    | inl before =>
      cases before with
      | inl wrote => exact .inr ⟨i, List.mem_cons_self .., wrote⟩
      | inr before => exact .inl before
    | inr passing =>
      obtain ⟨j, mem, wrote⟩ := passing
      exact .inr ⟨j, List.mem_cons_of_mem i mem, wrote⟩

/-- Most instructions lead to the place behind them. -/
lemma step_next (here : c.Holds pc (i :: code)) (reads : ∀ r ∈ i.sources, r ∈ W)
    (goes : i.successors pc = [pc + 1])
    (behind : ∀ W', W ⊆ W' → (∀ r, i.destination? = some r → r ∈ W') → c.Ready (pc + 1) W') :
    c.Ready pc W := by
  refine step here reads fun W' more wrote next mem => ?_
  rw [goes, List.mem_singleton] at mem
  exact mem ▸ behind W' more wrote

end Ready

/-- The code carries readiness from behind it to its start. Behind it, its result is written. -/
def Carries (c : Chunk) (base : Nat) (l : Lowered Register) : Prop :=
  ∀ W : Set Register, (∀ W', W ⊆ W' → l.result ∈ W' → c.Ready (base + l.code.length) W') →
    c.Ready base W

end Chunk

/-- All values of the run have the property. -/
def Run.Yields {σ ε α : Type} (P : α → Prop) (m : Run σ ε α) : Prop :=
  ∀ s a s', m s = (.ok a, s') → P a

namespace Run.Yields

variable {σ ε α β : Type} {P : α → Prop}

/-- A run that only has a value yields it. -/
lemma pure {a : α} (h : P a) : Run.Yields P (pure a : Run σ ε α) := by
  rintro s _ s' ⟨⟩
  exact h

/-- A run that only fails yields nothing else. -/
lemma fail {e : ε} : Run.Yields P (Run.fail e : Run σ ε α) := nofun

/-- The values of a sequence are those of its second part. -/
lemma bind {m : Run σ ε β} {f : β → Run σ ε α} (h : ∀ b, Run.Yields P (f b)) :
    Run.Yields P (m >>= f) := by
  intro s a s' ran
  obtain ⟨b, mid, -, last⟩ := Run.bind_eq_ok_iff.1 ran
  exact h b mid a s' last

end Run.Yields

/-- The place where control goes from place `pc`, unless the run is finished. -/
def Flow.place? (pc : Nat) : Flow → Option Nat
  | .next => some (pc + 1)
  | .jump target => some target
  | .finish _ => none

namespace Machine

variable {α β : Type} {W W' : Set Register} {m m' : Machine} {r : Register}

/-- Machines that differ at most in registers outside `W`. -/
structure Agree (W : Set Register) (m m' : Machine) : Prop where
  cells : m.cells = m'.cells
  output : m.output = m'.output
  remarks : m.remarks = m'.remarks
  size : m.registers.size = m'.registers.size
  registers : ∀ r ∈ W, m.registers[r]? = m'.registers[r]?

/-- Machines that agree on registers agree on fewer of them. -/
lemma Agree.mono (h : Agree W m m') (fewer : W' ⊆ W) : Agree W' m m' :=
  ⟨h.cells, h.output, h.remarks, h.size, fun r mem => h.registers r (fewer mem)⟩

/-- Runs that end alike: with the same value on machines that agree in `W`, or in the same stop on
machines of which only the registers may differ. -/
inductive Alike (W : Set Register) :
    Except (Stop Fault) α × Machine → Except (Stop Fault) α × Machine → Prop where
  | value {m m' : Machine} (a : α) : Agree W m m' → Alike W (.ok a, m) (.ok a, m')
  | stop {m m' : Machine} (e : Stop Fault) : Agree ∅ m m' → Alike W (.error e, m) (.error e, m')

namespace Alike

variable {run run' : Run Machine Fault α} {f f' : α → Run Machine Fault β}

/-- Runs that only fail are alike. -/
lemma fail (e : Fault) (h : Agree W m m') :
    Alike W' ((Run.fail e : Run Machine Fault α) m) ((Run.fail e : Run Machine Fault α) m') :=
  .stop (.error e) (h.mono (Set.empty_subset W))

/-- Sequences end alike if their first parts do, and their second parts from machines that agree as
far as the first parts left them. -/
lemma bind (first : Alike W (run m) (run' m'))
    (second : ∀ a m m', Agree W m m' → Alike W' (f a m) (f' a m')) :
    Alike W' ((run >>= f) m) ((run' >>= f') m') := by
  rw [Run.bind_apply, Run.bind_apply]
  generalize run m = x at first
  generalize run' m' = y at first
  cases first with
  | value a agree => exact second a _ _ agree
  | stop e agree => exact .stop e agree

/-- Runs that end alike have the same result, and the same but for the registers. -/
lemma effects {x y : Except (Stop Fault) α × Machine} (h : Alike W x y) :
    x.1 = y.1 ∧ x.2.output = y.2.output ∧ x.2.remarks = y.2.remarks ∧ x.2.cells = y.2.cells := by
  cases h with
  | value a agree => exact ⟨rfl, agree.output, agree.remarks, agree.cells⟩
  | stop e agree => exact ⟨rfl, agree.output, agree.remarks, agree.cells⟩

end Alike

/-- A register that was written reads alike. -/
lemma alike_read (h : Agree W m m') (mem : r ∈ W) : Alike W (read r m) (read r m') := by
  simp only [read, Run.bind_apply, Run.get_apply, h.registers r mem]
  cases m'.registers[r]? with
  | none => exact .fail _ h
  | some v => exact .value v h

/-- A register reads alike once it is written. -/
lemma alike_write (h : Agree W m m') (v : Int64) (more : W' ⊆ insert r W) :
    Alike W' (write r v m) (write r v m') := by
  simp only [write, Run.bind_apply, Run.get_apply, ← h.size]
  split
  · refine .value _ ⟨h.cells, h.output, h.remarks, by simp [h.size], fun r' mem => ?_⟩
    simp only [Array.getElem?_setIfInBounds, h.size]
    split
    · rfl
    · rename_i other
      exact h.registers r' ((more mem).resolve_left fun same => other same.symm)
  · exact .fail _ h

/-- To read a cell is alike on machines that agree. -/
lemma alike_load (h : Agree W m m') (slot : Slot) : Alike W (load slot m) (load slot m') := by
  simp only [load, Run.bind_apply, Run.get_apply, h.cells]
  cases m'.cells[slot]? with
  | none => exact .fail _ h
  | some v? => exact .value _ ⟨rfl, h.output, h.remarks, h.size, h.registers⟩

/-- To write a cell is alike on machines that agree. -/
lemma alike_store (h : Agree W m m') (slot : Slot) (v : Int64) :
    Alike W (store slot v m) (store slot v m') := by
  simp only [store, Run.bind_apply, Run.get_apply, h.cells]
  split
  · exact .value _ ⟨rfl, h.output, h.remarks, h.size, h.registers⟩
  · exact .fail _ h

/-- To jump is alike on machines that agree. -/
lemma alike_goTo (h : Agree W m m') (size target : Nat) :
    Alike W (goTo size target m) (goTo size target m') := by
  rw [goTo]
  split
  · exact .value _ h
  · exact .fail _ h

/-- Arguments in written registers are bound alike. -/
lemma alike_bindArguments (h : Agree W m m') {slots : List Slot} {args : List Register}
    (mem : ∀ r ∈ args, r ∈ W) (cells : Cells) :
    Alike W (bindArguments (slots.zip args) cells m) (bindArguments (slots.zip args) cells m') := by
  induction slots generalizing args cells m m' with
  | nil => exact .value cells h
  | cons slot slots ih =>
    cases args with
    | nil => exact .value cells h
    | cons r args =>
      obtain ⟨first, others⟩ := List.forall_mem_cons.1 mem
      refine (alike_read h first).bind fun v m m' h => ?_
      split
      · exact ih h others _
      · exact .fail _ h

/-- An activation does not see the registers of its caller, which it leaves as they are. -/
lemma alike_activate (h : Agree W m m') (run : Run Machine Fault (Option Int64)) (registers : Nat)
    (cells : Cells) : Alike W (activate run registers cells m) (activate run registers cells m') := by
  have start : { m with registers := Array.replicate registers 0, cells } =
      { m' with registers := Array.replicate registers 0, cells } := by rw [h.output, h.remarks]
  rw [activate, activate, start]
  rcases run { m' with registers := Array.replicate registers 0, cells } with ⟨e | v?, m₁⟩
  · exact .stop e ⟨h.cells, rfl, rfl, h.size, nofun⟩
  · exact .value v? ⟨h.cells, rfl, rfl, h.size, h.registers⟩

/-- A call finds its arguments alike. -/
lemma alike_call (h : Agree W m m') (chunks : ChunkTable)
    (enter : Chunk → Run Machine Fault (Option Int64)) (f : String) {args : List Register}
    (mem : ∀ r ∈ args, r ∈ W) :
    Alike W (Machine.call chunks enter f args m) (Machine.call chunks enter f args m') := by
  rw [Machine.call]
  cases chunks.find? f with
  | none => exact .fail _ h
  | some entry =>
    refine (alike_bindArguments h mem _).bind fun cells m m' h => ?_
    refine Alike.bind (alike_activate h (enter entry.2) _ cells) fun v? m m' h => ?_
    cases v? with
    | none => exact .fail _ h
    | some v => exact .value v h

end Machine

namespace Instruction

open Machine

variable {chunks : ChunkTable} {enter : Chunk → Run Machine Fault (Option Int64)} {size : Nat}
  {W : Set Register} {m m' : Machine}

/-- An instruction without a destination adds no written register. -/
lemma written_eq_of_none {i : Instruction} (h : i.destination? = none) : i.written W = W := by
  simp [written, h]

/-- An instruction that ends with writing its result ends alike. -/
lemma alike_result (h : Agree W m m') (i : Instruction) {dst : Register}
    (writes : i.destination? = some dst) (v : Int64) :
    Alike (i.written W) ((do write dst v; return Flow.next : Run Machine Fault Flow) m)
      ((do write dst v; return Flow.next : Run Machine Fault Flow) m') := by
  have within : i.written W ⊆ insert dst W := by
    rintro r (wrote | before)
    · exact .inl (Option.some.inj (wrote.symm.trans writes))
    · exact .inr before
  exact (alike_write h v within).bind fun _ m m' h => .value _ h

/-- An instruction that reads written registers is carried out alike. -/
lemma alike_exec (h : Agree W m m') (i : Instruction) (reads : ∀ r ∈ i.sources, r ∈ W) :
    Alike (i.written W) (i.exec chunks enter size m) (i.exec chunks enter size m') := by
  cases i with
  | loadConst dst v => exact alike_result h _ rfl v
  | loadVar dst slot => exact (alike_load h slot).bind fun v m m' h => alike_result h _ rfl v
  | storeVar slot src =>
    rw [written_eq_of_none rfl]
    refine (alike_read h (reads src (List.mem_singleton_self src))).bind fun v m m' h => ?_
    exact (alike_store h slot v).bind fun _ m m' h => .value _ h
  | compute s dst left right =>
    obtain ⟨readsLeft, readsRight⟩ := List.forall_mem_cons.1 reads
    refine (alike_read h readsLeft).bind fun l m m' h => ?_
    refine (alike_read h (List.forall_mem_singleton.1 readsRight)).bind fun r m m' h => ?_
    simp only [Run.bind_apply, Run.get_apply, Run.trapping_apply, h.remarks]
    cases s.compute l r m'.remarks with
    | error t => exact .stop _ (h.mono (Set.empty_subset W))
    | ok result =>
      have noted : Agree W { m with remarks := result.2 } { m' with remarks := result.2 } :=
        ⟨h.cells, h.output, rfl, h.size, h.registers⟩
      have ended := alike_result noted (.compute s dst left right) rfl result.1
      rw [Run.bind_apply, Run.bind_apply] at ended
      exact ended
  | move dst src =>
    have read := alike_read h (reads src (List.mem_singleton_self src))
    exact read.bind fun v m m' h => alike_result h _ rfl v
  | branch condition target =>
    rw [written_eq_of_none rfl]
    refine (alike_read h (reads condition (List.mem_singleton_self condition))).bind fun v m m' h => ?_
    split
    · exact alike_goTo h size target
    · exact .value _ h
  | jump target =>
    rw [written_eq_of_none rfl]
    exact alike_goTo h size target
  | call f args dst =>
    exact (alike_call h chunks enter f reads).bind fun v m m' h => alike_result h _ rfl v
  | ret src =>
    rw [written_eq_of_none rfl]
    exact (alike_read h (reads src (List.mem_singleton_self src))).bind fun v m m' h => .value _ h
  | print src =>
    rw [written_eq_of_none rfl]
    refine (alike_read h (reads src (List.mem_singleton_self src))).bind fun v m m' h => ?_
    exact .value _ ⟨h.cells, congrArg (Array.push · v) h.output, h.remarks, h.size, h.registers⟩
  | fail reason => exact .fail _ h

/-- What becomes of control behind an instruction: it goes on behind, it goes to the target, or the
instruction returns. -/
lemma cases_exec (i : Instruction) (pc : Nat) :
    Run.Yields (fun flow => (flow = .next ∧ pc + 1 ∈ i.successors pc) ∨
      (∃ target, flow = .jump target ∧ i.target? = some target) ∨
      ∃ v src, flow = .finish v ∧ i = .ret src) (i.exec chunks enter size) := by
  have jumps : ∀ {P : Flow → Prop} (target : Nat), P (.jump target) →
      Run.Yields P (goTo size target) := by
    intro P target holds
    rw [goTo]
    split
    · exact .pure holds
    · exact .fail
  have behind : pc + 1 ∈ [pc + 1] := List.mem_singleton_self _
  cases i with
  | loadConst => exact .bind fun _ => .pure (.inl ⟨rfl, behind⟩)
  | loadVar | storeVar | move | call | print =>
    exact .bind fun _ => .bind fun _ => .pure (.inl ⟨rfl, behind⟩)
  | compute =>
    exact .bind fun _ => .bind fun _ => .bind fun _ => .bind fun _ => .bind fun _ => .bind fun _ =>
      .pure (.inl ⟨rfl, behind⟩)
  | branch condition target =>
    refine .bind fun v => ?_
    split
    · exact jumps target (.inr (.inl ⟨target, rfl, rfl⟩))
    · exact .pure (.inl ⟨rfl, List.mem_pair.2 (.inl rfl)⟩)
  | jump target => exact jumps target (.inr (.inl ⟨target, rfl, rfl⟩))
  | ret src => exact .bind fun v => .pure (.inr (.inr ⟨v, src, rfl, rfl⟩))
  | fail => exact .fail

/-- Where control goes behind an instruction is one of its successors. -/
lemma leads_exec (i : Instruction) (pc : Nat) :
    Run.Yields (fun flow => ∀ place ∈ flow.place? pc, place ∈ i.successors pc)
      (i.exec chunks enter size) := by
  intro m flow m' ran place goes
  rcases i.cases_exec pc m flow m' ran with ⟨rfl, mem⟩ | ⟨target, rfl, leads⟩ | ⟨v, src, rfl, -⟩
  · cases goes
    exact mem
  · cases goes
    exact mem_successors_of_target leads
  · cases goes

end Instruction

namespace Chunk

variable {chunks : ChunkTable} {enter : Chunk → Run Machine Fault (Option Int64)} {c : Chunk}
  {pc : Nat} {W : Set Register} {m m' m₁ : Machine}

/-- Where the chunk is ready, an instruction that is passed on one machine is passed on the other, and
the chunk is ready where control goes. -/
lemma Ready.pass (ready : c.Ready pc W) (h : Machine.Agree W m m') (inside : pc < c.code.size)
    {flow : Flow} (ran : c.code[pc].exec chunks enter c.code.size m = (.ok flow, m₁)) :
    ∃ m₂, c.code[pc].exec chunks enter c.code.size m' = (.ok flow, m₂) ∧
      Machine.Agree (c.code[pc].written W) m₁ m₂ ∧
      ∀ place ∈ flow.place? pc, c.Ready place (c.code[pc].written W) := by
  have leads := c.code[pc].leads_exec pc m flow m₁ ran
  have alike : Machine.Alike _ (c.code[pc].exec chunks enter c.code.size m)
      (c.code[pc].exec chunks enter c.code.size m') :=
    c.code[pc].alike_exec h (ready.sources inside)
  rw [ran] at alike
  generalize c.code[pc].exec chunks enter c.code.size m' = y at alike
  cases alike with
  | value flow agree => exact ⟨_, rfl, agree, fun place goes => ready.next inside (leads place goes)⟩

/-- Where the chunk is ready, an instruction that stops on one machine stops on the other. -/
lemma Ready.stop (ready : c.Ready pc W) (h : Machine.Agree W m m') (inside : pc < c.code.size)
    {e : Stop Fault} (ran : c.code[pc].exec chunks enter c.code.size m = (.error e, m₁)) :
    ∃ m₂, c.code[pc].exec chunks enter c.code.size m' = (.error e, m₂) ∧
      Machine.Agree ∅ m₁ m₂ := by
  have alike : Machine.Alike _ (c.code[pc].exec chunks enter c.code.size m)
      (c.code[pc].exec chunks enter c.code.size m') :=
    c.code[pc].alike_exec h (ready.sources inside)
  rw [ran] at alike
  generalize c.code[pc].exec chunks enter c.code.size m' = y at alike
  cases alike with
  | stop e agree => exact ⟨_, rfl, agree⟩

/-- Where a chunk is ready, a run of it ends alike whatever the registers hold that were not written. -/
lemma alike_exec {loops : Nat} (ready : c.Ready pc W) (h : Machine.Agree W m m') :
    Machine.Alike ∅ (c.exec chunks enter loops pc m) (c.exec chunks enter loops pc m') := by
  fun_induction Chunk.exec chunks enter c loops pc m generalizing W m' with
  | case1 loops pc m inside e m₁ ran =>
    obtain ⟨m₂, ran', agree⟩ := ready.stop h inside ran
    rw [exec_error inside ran']
    exact .stop e agree
  | case2 loops pc m inside m₁ ran ih =>
    obtain ⟨m₂, ran', agree, behind⟩ := ready.pass h inside ran
    rw [exec_next inside ran']
    exact ih (behind _ rfl) agree
  | case3 loops pc m inside v m₁ ran =>
    obtain ⟨m₂, ran', agree, -⟩ := ready.pass h inside ran
    rw [exec_finish inside ran']
    exact .value _ (agree.mono (Set.empty_subset _))
  | case4 loops pc m inside target m₁ ran forward ih =>
    obtain ⟨m₂, ran', agree, behind⟩ := ready.pass h inside ran
    rw [exec_forward inside ran' forward]
    exact ih (behind _ rfl) agree
  | case5 pc m inside target m₁ ran back =>
    -- no loop is left for the jump
    obtain ⟨m₂, ran', agree, -⟩ := ready.pass h inside ran
    rw [Chunk.exec, dif_pos inside, ran']
    simp only [if_neg back]
    exact .stop _ (agree.mono (Set.empty_subset _))
  | case6 pc m inside target m₁ ran back loops ih =>
    obtain ⟨m₂, ran', agree, behind⟩ := ready.pass h inside ran
    rw [exec_back inside ran' back]
    exact ih (behind _ rfl) agree
  | case7 loops pc m outside =>
    rw [exec_outside outside]
    exact .value _ (h.mono (Set.empty_subset _))

end Chunk

namespace Expr

open Chunk Instruction

variable {fns : FunctionTable} {c : Chunk}

/-- The code of arguments carries readiness, with all their results written, if the code of each of
them does. -/
lemma carries_lowerArgs {es : List Expr}
    (all : ∀ e ∈ es, ∀ base next scope, c.Holds base (e.lower fns base next scope).code →
      c.Carries base (e.lower fns base next scope)) (base : Nat) (next : Register) (scope : Scope)
    (holds : c.Holds base (lowerArgs fns es base next scope).code) (W : Set Register)
    (behind : ∀ W', W ⊆ W' → (∀ r ∈ (lowerArgs fns es base next scope).result, r ∈ W') →
      c.Ready (base + (lowerArgs fns es base next scope).code.length) W') : c.Ready base W := by
  induction es generalizing base next scope W with
  | nil => exact behind W subset_rfl nofun
  | cons e es ih =>
    obtain ⟨first, others⟩ := List.forall_mem_cons.1 all
    refine first _ _ _ holds.left W fun W₁ more₁ result => ?_
    refine ih others _ _ _ holds.right W₁ fun W₂ more₂ results => ?_
    have all := List.forall_mem_cons.2 ⟨more₂ result, results⟩
    exact (behind W₂ (more₁.trans more₂) all).cast (by simp +arith [lowerArgs])

/-- The code of an expression carries readiness. No way passes a rejection, so nothing has to be
written behind it. -/
lemma carries_lower (e : Expr) : ∀ base next scope,
    c.Holds base (e.lower fns base next scope).code →
      c.Carries base (e.lower fns base next scope) := by
  induction e using Expr.induction with
  | lit v =>
    intro base next scope holds W behind
    refine .step_next holds (List.forall_mem_nil _) rfl fun W' more wrote => ?_
    exact behind W' more (wrote next rfl)
  | var x =>
    intro base next scope holds W behind
    refine .step_next holds (List.forall_mem_nil _) rfl fun W' more wrote => ?_
    exact behind W' more (wrote next rfl)
  | assign target value _ ih =>
    intro base next scope holds W behind
    cases target with
    | var x =>
      refine ih base next scope holds.left W fun W₁ more₁ result => ?_
      refine .step_next holds.right (List.forall_mem_singleton.2 result) rfl fun W₂ more₂ _ => ?_
      exact (behind W₂ (more₁.trans more₂) (more₂ result)).cast (by simp +arith [lower])
    | _ => exact .step holds (List.forall_mem_nil _) fun _ _ _ => List.forall_mem_nil _
  | binary op left right ihl ihr =>
    intro base next scope holds W behind
    refine ihl _ _ _ holds.left.left W fun W₁ more₁ result₁ => ?_
    refine ihr _ _ _ holds.left.right W₁ fun W₂ more₂ result₂ => ?_
    have here := holds.right
    rw [List.length_append, ← Nat.add_assoc] at here
    have reads := List.forall_mem_cons.2 ⟨more₂ result₁, List.forall_mem_singleton.2 result₂⟩
    refine .step_next here reads rfl fun W₃ more₃ wrote => ?_
    exact (behind W₃ ((more₁.trans more₂).trans more₃) (wrote _ rfl)).cast (by simp +arith [lower])
  | cond test whenTrue whenFalse iht iha ihb =>
    intro base next scope holds W behind
    obtain ⟨holdsT, holdsBranch, holdsA, holdsJump, holdsB, holdsMove⟩ := holds.pieces
    refine iht _ _ _ holdsT W fun W₁ more₁ result₁ => ?_
    refine .step holdsBranch (List.forall_mem_singleton.2 result₁) fun W₂ more₂ _ place goes => ?_
    rcases List.mem_pair.1 goes with rfl | rfl
    · refine iha _ _ _ holdsA W₂ fun W₃ more₃ result₃ => ?_
      refine .step_next holdsJump (List.forall_mem_singleton.2 result₃) rfl fun W₄ more₄ wrote => ?_
      refine .step holdsJump.tail (List.forall_mem_nil _) fun W₅ more₅ _ place goes => ?_
      rw [List.mem_singleton.1 goes]
      have more := ((more₁.trans more₂).trans (more₃.trans more₄)).trans more₅
      exact (behind W₅ more (more₅ (wrote _ rfl))).cast (by simp +arith [lower])
    · refine ihb _ _ _ holdsB W₂ fun W₃ more₃ result₃ => ?_
      refine .step_next holdsMove (List.forall_mem_singleton.2 result₃) rfl fun W₄ more₄ wrote => ?_
      have more := (more₁.trans more₂).trans (more₃.trans more₄)
      exact (behind W₄ more (wrote _ rfl)).cast (by simp +arith [lower])
  | call f args ih =>
    intro base next scope holds W behind
    cases lower_call_cases fns f args with
    | inl entered =>
      obtain ⟨d, found, fits⟩ := entered
      rw [lower_call found fits] at holds behind
      refine carries_lowerArgs ih base next scope holds.left W fun W₁ more₁ results => ?_
      refine .step_next holds.right results rfl fun W₂ more₂ wrote => ?_
      exact (behind W₂ (more₁.trans more₂) (wrote _ rfl)).cast (by simp +arith)
    | inr refused =>
      obtain ⟨reason, -, lowered⟩ := refused
      rw [lowered] at holds
      exact .step holds (List.forall_mem_nil _) fun _ _ _ => List.forall_mem_nil _

end Expr

end Reckon
