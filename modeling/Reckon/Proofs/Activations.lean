import Mathlib.Logic.Relation
import Reckon.Proofs.Depth
import Reckon.Proofs.Forward

/-!
# Activations

How control passes through an activation of a chunk, without a bound.

* `Chunk.Passes`: the places that control passes. Where jumps lead forward they ascend
  (`Chunk.Passes.ascending`), so no instruction is executed twice, and a run with any bound on jumps back
  passes them (`Chunk.passes_exec`).
* `Frame.Enters`: an activation comes to a call and enters another. One that does not end enters one that
  does not end (`Chunk.ends_or_enters`), and so on for ever (`Frame.diverges_iff`).
* `compile_forward`: control in compiled programs.
-/

namespace Reckon

open Relation (ReflTransGen)

namespace Chunk

/-- Jumps lead forward. -/
def Onward (c : Chunk) : Prop :=
  ∀ (pc : Nat) (i : Instruction) (target : Nat), c.code[pc]? = some i → i.target? = some target →
    pc < target

/-- From place `pc` on, control passes these places of the chunk one after the other, and the activation
comes to this end. -/
inductive Passes (chunks : ChunkTable) (enter : Chunk → Run Machine Fault (Option Int64)) (c : Chunk) :
    Nat → Machine → List Nat → Except (Stop Fault) (Option Int64) × Machine → Prop where
  | stop {pc m e m'} (inside : pc < c.code.size) :
    c.code[pc].exec chunks enter c.code.size m = (.error e, m') →
    Passes chunks enter c pc m [pc] (.error e, m')
  | finish {pc m v m'} (inside : pc < c.code.size) :
    c.code[pc].exec chunks enter c.code.size m = (.ok (.finish v), m') →
    Passes chunks enter c pc m [pc] (.ok (some v), m')
  | go {pc m flow m' next places ending} (inside : pc < c.code.size) :
    c.code[pc].exec chunks enter c.code.size m = (.ok flow, m') → flow.place? pc = some next →
    Passes chunks enter c next m' places ending → Passes chunks enter c pc m (pc :: places) ending
  | outside {pc m} : ¬pc < c.code.size → Passes chunks enter c pc m [] (.ok none, m)

variable {chunks : ChunkTable} {enter : Chunk → Run Machine Fault (Option Int64)} {c : Chunk}
  {pc next loops : Nat} {m m' : Machine} {flow : Flow} {places : List Nat}
  {ending : Except (Stop Fault) (Option Int64) × Machine}

/-- Control goes to the place behind, or to one that the instruction names. -/
lemma place_of_exec (inside : pc < c.code.size)
    (ran : c.code[pc].exec chunks enter c.code.size m = (.ok flow, m'))
    (place : flow.place? pc = some next) : next = pc + 1 ∨ c.code[pc].target? = some next := by
  rcases c.code[pc].cases_exec pc m flow m' ran with ⟨rfl, -⟩ | ⟨target, rfl, leads⟩ | ⟨v, src, rfl, -⟩
  · exact .inl (Option.some.inj place).symm
  · cases place
    exact .inr leads
  · cases place

/-- Each instruction leads to a later one. -/
lemma Onward.lt (onward : c.Onward) (inside : pc < c.code.size)
    (ran : c.code[pc].exec chunks enter c.code.size m = (.ok flow, m'))
    (place : flow.place? pc = some next) : pc < next := by
  cases place_of_exec inside ran place with
  | inl behind => omega
  | inr target => exact onward pc _ next (Array.getElem?_eq_getElem inside) target

/-- What is passed is passed in the order of the code, and so no place twice. -/
lemma Passes.ascending (onward : c.Onward) (h : c.Passes chunks enter pc m places ending) :
    (∀ place ∈ places, pc ≤ place ∧ place < c.code.size) ∧ places.Pairwise (· < ·) := by
  induction h with
  | stop inside | finish inside =>
    exact ⟨List.forall_mem_singleton.2 ⟨Nat.le_refl _, inside⟩, List.pairwise_singleton ..⟩
  | go inside ran place _ ih =>
    obtain ⟨bounds, ascending⟩ := ih
    have lt := onward.lt inside ran place
    refine ⟨List.forall_mem_cons.2 ⟨⟨Nat.le_refl _, inside⟩, fun p mem => ?_⟩,
      List.pairwise_cons.2 ⟨fun p mem => ?_, ascending⟩⟩
    · exact ⟨Nat.le_trans (Nat.le_of_lt lt) (bounds p mem).1, (bounds p mem).2⟩
    · exact Nat.lt_of_lt_of_le lt (bounds p mem).1
  | outside => exact ⟨nofun, .nil⟩

/-- Where jumps lead forward, the run of a chunk is the activation, whatever bound it has for jumps
back. -/
lemma passes_exec (onward : c.Onward) (loops pc : Nat) (m : Machine) :
    ∃ places, c.Passes chunks enter pc m places (c.exec chunks enter loops pc m) := by
  fun_induction Chunk.exec chunks enter c loops pc m with
  | case1 loops pc m inside e m' ran => exact ⟨_, .stop inside ran⟩
  | case2 loops pc m inside m' ran ih =>
    obtain ⟨places, passes⟩ := ih
    exact ⟨_, .go inside ran rfl passes⟩
  | case3 loops pc m inside v m' ran => exact ⟨_, .finish inside ran⟩
  | case4 loops pc m inside target m' ran forward ih =>
    obtain ⟨places, passes⟩ := ih
    exact ⟨_, .go inside ran rfl passes⟩
  | case5 pc m inside target m' ran back => exact absurd (onward.lt inside ran rfl) back
  | case6 pc m inside target m' ran back => exact absurd (onward.lt inside ran rfl) back
  | case7 loops pc m outside => exact ⟨_, .outside outside⟩

/-- An activation that comes to an end without an error passes the last instruction at the end. -/
lemma Passes.last {fns : FunctionTable} {e : Expr} {last : Instruction}
    (forward : c.Forward fns e last) (h : c.Passes chunks enter pc m places ending)
    (inside : pc < c.code.size) (ok : ∃ v, ending.1 = .ok v) :
    places.getLast? = some (c.code.size - 1) := by
  have size := forward.size
  induction h with
  | stop =>
    obtain ⟨v, ok⟩ := ok
    cases ok
  | @finish pc m v m' inside ran =>
    have gives : c.code[pc].gives = true := by
      rcases c.code[pc].cases_exec pc m _ m' ran with ⟨⟨⟩, -⟩ | ⟨target, ⟨⟩, -⟩ | ⟨_, src, -, eq⟩
      rw [eq]
      rfl
    have place := forward.only pc _ (Array.getElem?_eq_getElem inside) gives
    have last : pc = c.code.size - 1 := by omega
    exact congrArg some last
  | @go pc m flow m' next places ending inside ran place passes ih =>
    by_cases further : next < c.code.size
    · rw [List.getLast?_cons, ih further ok]
      rfl
    · -- control leaves the chunk, which it does behind the last instruction only
      have behind : next = pc + 1 := by
        refine (place_of_exec inside ran place).resolve_right fun target => ?_
        exact further (forward.target pc _ next (Array.getElem?_eq_getElem inside) target).2
      have last : pc = c.code.size - 1 := by omega
      cases passes with
      | outside => exact congrArg some last
      | stop inside' | finish inside' | go inside' => exact absurd inside' further
  | outside outside => exact absurd inside outside

end Chunk

namespace Run

variable {σ ε α β : Type} {m : Run σ ε α} {f : α → Run σ ε β} {s : σ}

/-- A sequence exhausts its bound in its first part, or in its second. -/
lemma bind_eq_exhausted_iff : ((m >>= f) s).1 = .error .exhausted ↔
    (m s).1 = .error .exhausted ∨ ∃ a mid, m s = (.ok a, mid) ∧ (f a mid).1 = .error .exhausted := by
  rw [bind_apply]
  rcases m s with ⟨e | a, mid⟩
  · refine ⟨fun h => .inl (congrArg Except.error (Except.error.inj h)), ?_⟩
    rintro (h | ⟨_, _, ⟨⟩, _⟩)
    exact congrArg Except.error (Except.error.inj h)
  · refine ⟨fun h => .inr ⟨a, mid, rfl, h⟩, ?_⟩
    rintro (⟨⟨⟩⟩ | ⟨_, _, ⟨⟩, h⟩)
    exact h

/-- The run comes to no bound. -/
def Unbounded (m : Run σ ε α) : Prop := ∀ s, (m s).1 ≠ .error .exhausted

namespace Unbounded

/-- A run that only has a value never lacks depth. -/
lemma pure (a : α) : Unbounded (pure a : Run σ ε α) := nofun

/-- A run that only fails never lacks depth. -/
lemma fail (e : ε) : Unbounded (Run.fail e : Run σ ε α) := nofun

/-- A sequence never lacks depth if its parts do not. -/
lemma bind (first : Unbounded m) (second : ∀ a, Unbounded (f a)) : Unbounded (m >>= f) := by
  intro s cut
  rcases bind_eq_exhausted_iff.1 cut with cut | ⟨a, mid, -, cut⟩
  · exact first s cut
  · exact second a mid cut

/-- An operation that may trap never lacks depth. -/
lemma trapping (result : Except Trap α) : Unbounded (trapping result : Run σ ε α) := by
  cases result <;> exact nofun

end Unbounded

end Run

namespace Machine

open Run

/-- To read a register needs no depth. -/
lemma unbounded_read (r : Register) : Unbounded (read r) := by
  refine .bind (fun _ => nofun) fun m => ?_
  split
  · exact .pure _
  · exact .fail _

/-- To write a register needs no depth. -/
lemma unbounded_write (r : Register) (v : Int64) : Unbounded (write r v) := by
  refine .bind (fun _ => nofun) fun m => ?_
  split
  · exact fun _ => nofun
  · exact .fail _

/-- To read a cell needs no depth. -/
lemma unbounded_load (slot : Slot) : Unbounded (load slot) := by
  refine .bind (fun _ => nofun) fun m => ?_
  split
  · exact .bind (fun _ => nofun) fun _ => .pure _
  · exact .fail _

/-- To write a cell needs no depth. -/
lemma unbounded_store (slot : Slot) (v : Int64) : Unbounded (store slot v) := by
  refine .bind (fun _ => nofun) fun m => ?_
  split
  · exact fun _ => nofun
  · exact .fail _

/-- To jump needs no depth. -/
lemma unbounded_goTo (size target : Nat) : Unbounded (goTo size target) := by
  rw [goTo]
  split
  · exact .pure _
  · exact .fail _

/-- To hand over arguments needs no depth. -/
lemma unbounded_bindArguments (pairs : List (Slot × Register)) (cells : Cells) :
    Unbounded (bindArguments pairs cells) := by
  induction pairs generalizing cells with
  | nil => exact .pure _
  | cons pair pairs ih =>
    refine .bind (unbounded_read _) fun v => ?_
    split
    · exact ih _
    · exact .fail _

/-- To read a register changes nothing. -/
lemma read_snd (r : Register) (m : Machine) : (read r m).2 = m := by
  simp only [read, Run.bind_apply, Run.get_apply]
  cases m.registers[r]? <;> rfl

/-- To bind arguments leaves the machine alone. -/
lemma bindArguments_snd (pairs : List (Slot × Register)) (cells : Cells) (m : Machine) :
    (bindArguments pairs cells m).2 = m := by
  induction pairs generalizing cells with
  | nil => rfl
  | cons pair pairs ih =>
    have kept := read_snd pair.2 m
    rw [bindArguments, Run.bind_apply]
    generalize read pair.2 m = x at kept
    obtain ⟨result, m'⟩ := x
    obtain rfl : m' = m := kept
    cases result with
    | error e => rfl
    | ok v =>
      simp only
      split
      · exact ih _
      · rfl

end Machine

/-- An activation at its start: the chunk, and the machine with registers and slots of its own. -/
structure Frame where
  chunk : Chunk
  machine : Machine

namespace Frame

/-- The activation that a call of `f` enters from a machine: there is a chunk, and the arguments fit its
slots. -/
def Called (chunks : ChunkTable) (f : String) (args : List Register) (m : Machine) (b : Frame) : Prop :=
  ∃ entry cells, chunks.find? f = some entry ∧
    Machine.bindArguments (entry.2.params.zip args) (Array.replicate entry.2.slots none) m =
      (.ok cells, m) ∧
    b = ⟨entry.2, { m with registers := Array.replicate entry.2.registers 0, cells }⟩

variable {chunks : ChunkTable} {enter : Chunk → Run Machine Fault (Option Int64)} {f : String}
  {args : List Register} {m : Machine} {b b' : Frame}

/-- A call starts with one machine only. -/
lemma Called.unique (h : Called chunks f args m b) (h' : Called chunks f args m b') : b = b' := by
  obtain ⟨entry, cells, found, bound, rfl⟩ := h
  obtain ⟨entry', cells', found', bound', rfl⟩ := h'
  cases found.symm.trans found'
  cases bound.symm.trans bound'
  rfl

/-- A call exhausts its bound in the activation that it enters. -/
lemma call_eq_exhausted_iff : (Machine.call chunks enter f args m).1 = .error .exhausted ↔
    ∃ b, Called chunks f args m b ∧ (enter b.chunk b.machine).1 = .error .exhausted := by
  rw [Machine.call]
  cases found : chunks.find? f with
  | none =>
    constructor
    · intro cut
      cases cut
    · rintro ⟨b, ⟨entry, cells, found', -⟩, -⟩
      cases found.symm.trans found'
  | some entry =>
    constructor
    · intro cut
      rcases Run.bind_eq_exhausted_iff.1 cut with binding | ⟨cells, m', bound, inside⟩
      · exact absurd binding (Machine.unbounded_bindArguments _ _ m)
      · obtain rfl : m' = m := (congrArg Prod.snd bound).symm.trans (Machine.bindArguments_snd _ _ m)
        rcases Run.bind_eq_exhausted_iff.1 inside with entered | ⟨v?, m'', -, behind⟩
        · exact ⟨_, ⟨entry, cells, found, bound, rfl⟩, entered⟩
        · cases v? <;> cases behind
    · rintro ⟨b, ⟨entry', cells, found', bound, rfl⟩, cut⟩
      cases found.symm.trans found'
      exact Run.bind_eq_exhausted_iff.2
        (.inr ⟨cells, m, bound, Run.bind_eq_exhausted_iff.2 (.inl cut)⟩)

end Frame

namespace Instruction

open Run Machine

variable {chunks : ChunkTable} {enter : Chunk → Run Machine Fault (Option Int64)} {size : Nat}
  {i : Instruction} {m : Machine}

/-- An instruction that is not a call comes to no bound. -/
lemma unbounded_exec (quiet : i.callee? = none) : Unbounded (i.exec chunks enter size) := by
  cases i with
  | loadConst => exact .bind (unbounded_write _ _) fun _ => .pure _
  | loadVar => exact .bind (unbounded_load _) fun _ => .bind (unbounded_write _ _) fun _ => .pure _
  | storeVar => exact .bind (unbounded_read _) fun _ => .bind (unbounded_store _ _) fun _ => .pure _
  | compute =>
    exact .bind (unbounded_read _) fun _ => .bind (unbounded_read _) fun _ => .bind (fun _ => nofun)
      fun _ => .bind (.trapping _) fun _ => .bind (fun _ => nofun) fun _ =>
        .bind (unbounded_write _ _) fun _ => .pure _
  | move => exact .bind (unbounded_read _) fun _ => .bind (unbounded_write _ _) fun _ => .pure _
  | branch condition target =>
    refine .bind (unbounded_read _) fun v => ?_
    split
    · exact unbounded_goTo size target
    · exact .pure _
  | jump target => exact unbounded_goTo size target
  | call => cases quiet
  | ret => exact .bind (unbounded_read _) fun _ => .pure _
  | print => exact .bind (unbounded_read _) fun _ => .bind (fun _ => nofun) fun _ => .pure _
  | fail => exact .fail _

/-- An instruction exhausts its bound in the activation that it enters. -/
lemma exec_eq_exhausted_iff : (i.exec chunks enter size m).1 = .error .exhausted ↔
    ∃ f args dst b, i = .call f args dst ∧ Frame.Called chunks f args m b ∧
      (enter b.chunk b.machine).1 = .error .exhausted := by
  constructor
  · intro cut
    cases callee : i.callee? with
    | none => exact absurd cut (unbounded_exec callee m)
    | some f =>
      cases i with
      | call f args dst =>
        rcases bind_eq_exhausted_iff.1 cut with cut | ⟨v, mid, -, cut⟩
        · obtain ⟨b, called, cut⟩ := Frame.call_eq_exhausted_iff.1 cut
          exact ⟨f, args, dst, b, rfl, called, cut⟩
        · exact absurd cut (Unbounded.bind (unbounded_write dst v) (fun _ => .pure _) mid)
      | _ => cases callee
  · rintro ⟨f, args, dst, b, rfl, called, cut⟩
    exact bind_eq_exhausted_iff.2 (.inl (Frame.call_eq_exhausted_iff.2 ⟨b, called, cut⟩))

end Instruction

namespace Chunk

variable {chunks : ChunkTable} {c : Chunk} {pc next n loops : Nat} {m m' : Machine} {flow : Flow}
  {enter : Chunk → Run Machine Fault (Option Int64)} {b : Frame}

/-- In an activation of the chunk, control goes from one place to another. A call that is passed has
ended. -/
def Moves (chunks : ChunkTable) (c : Chunk) (here there : Nat × Machine) : Prop :=
  ∃ (inside : here.1 < c.code.size) (depth : Nat) (flow : Flow),
    c.code[here.1].exec chunks (Chunk.run chunks depth) c.code.size here.2 = (.ok flow, there.2) ∧
      flow.place? here.1 = some there.1

/-- In an activation of the chunk, control comes from a place to a call that enters an activation. -/
def Enters (chunks : ChunkTable) (c : Chunk) (start : Nat × Machine) (b : Frame) : Prop :=
  ∃ pc m f args dst, ReflTransGen (c.Moves chunks) start (pc, m) ∧
    c.code[pc]? = some (.call f args dst) ∧ Frame.Called chunks f args m b

end Chunk

namespace Frame

/-- An activation comes to a call that enters another one. The calls before it have ended. -/
def Enters (chunks : ChunkTable) (a b : Frame) : Prop := a.chunk.Enters chunks (0, a.machine) b

/-- No depth of calls is enough for the activation. -/
def Diverges (chunks : ChunkTable) (a : Frame) : Prop :=
  Run.Diverges (fun depth => Chunk.run chunks depth a.chunk) a.machine

end Frame

namespace Chunk

variable {chunks : ChunkTable} {c : Chunk} {pc next n loops : Nat} {m m' : Machine} {flow : Flow}
  {enter : Chunk → Run Machine Fault (Option Int64)} {b : Frame}

/-- A run goes on where control goes, if that is forward. -/
lemma exec_go (inside : pc < c.code.size)
    (ran : c.code[pc].exec chunks enter c.code.size m = (.ok flow, m'))
    (place : flow.place? pc = some next) (forward : pc < next) :
    c.exec chunks enter loops pc m = c.exec chunks enter loops next m' := by
  cases flow with
  | next =>
    cases place
    exact exec_next inside ran
  | jump target =>
    cases place
    exact exec_forward inside ran forward
  | finish => cases place

/-- An instruction that is not cut off at some depth does the same at any larger one. -/
lemma exec_instruction_of_le {depth more : Nat} (le : depth ≤ more) (i : Instruction) {size : Nat}
    (done : (i.exec chunks (Chunk.run chunks depth) size m).1 ≠ .error .exhausted) :
    i.exec chunks (Chunk.run chunks more) size m = i.exec chunks (Chunk.run chunks depth) size m :=
  Run.Approx.eq (Instruction.approx_exec chunks
    (fun c m => Chunk.run_deepening chunks c depth more le m) size i m) done

/-- What control comes to from a place, it comes to from any place that leads there. -/
lemma Moves.enters {here there : Nat × Machine} (move : c.Moves chunks here there)
    (enters : c.Enters chunks there b) : c.Enters chunks here b := by
  obtain ⟨pc, m, f, args, dst, moves, call, called⟩ := enters
  exact ⟨pc, m, f, args, dst, .head move moves, call, called⟩

/-- An instruction ends in the same way at every depth that is large enough, or it is a call that enters
an activation which diverges. -/
lemma instruction_ends_or_enters (inside : pc < c.code.size) (m : Machine) :
    (∃ depth, (c.code[pc].exec chunks (Chunk.run chunks depth) c.code.size m).1 ≠ .error .exhausted ∧
      ∀ more ≥ depth, c.code[pc].exec chunks (Chunk.run chunks more) c.code.size m =
        c.code[pc].exec chunks (Chunk.run chunks depth) c.code.size m) ∨
    ∃ b, c.Enters chunks (pc, m) b ∧ b.Diverges chunks := by
  by_cases done : ∃ depth,
      (c.code[pc].exec chunks (Chunk.run chunks depth) c.code.size m).1 ≠ .error .exhausted
  · obtain ⟨depth, done⟩ := done
    exact .inl ⟨depth, done, fun more le => exec_instruction_of_le le c.code[pc] done⟩
  · have cut : ∀ depth, (c.code[pc].exec chunks (Chunk.run chunks depth) c.code.size m).1 =
        .error .exhausted := fun depth => Classical.byContradiction fun h => done ⟨depth, h⟩
    obtain ⟨f, args, dst, b, call, called, -⟩ := Instruction.exec_eq_exhausted_iff.1 (cut 0)
    refine .inr ⟨b, ⟨pc, m, f, args, dst, .refl, ?_, called⟩, fun depth => ?_⟩
    · rw [Array.getElem?_eq_getElem inside, call]
    · -- at every depth it is the same activation that is cut off
      obtain ⟨f', args', dst', b', call', called', cut⟩ :=
        Instruction.exec_eq_exhausted_iff.1 (cut depth)
      cases call.symm.trans call'
      obtain rfl := called.unique called'
      exact cut

/-- From a place on, an activation ends in the same way at every depth that is large enough, or it
comes to a call that enters an activation which diverges. -/
lemma ends_or_enters (onward : c.Onward) (pc : Nat) (m : Machine) :
    (∃ depth ending, ending.1 ≠ .error .exhausted ∧ ∀ more ≥ depth, ∀ loops,
      c.exec chunks (Chunk.run chunks more) loops pc m = ending) ∨
    ∃ b, c.Enters chunks (pc, m) b ∧ b.Diverges chunks := by
  -- on the code that is left, since control only goes forward
  induction left : c.code.size - pc using Nat.strongRecOn generalizing pc m with
  | ind _ ih =>
    by_cases inside : pc < c.code.size
    · rcases instruction_ends_or_enters inside m with ⟨depth, done, steady⟩ | enters
      · rcases ran : c.code[pc].exec chunks (Chunk.run chunks depth) c.code.size m with ⟨e | flow, m'⟩
        · rw [ran] at done steady
          exact .inl ⟨depth, (.error e, m'), fun cut => done (congrArg _ (Except.error.inj cut)),
            fun more le loops => exec_error inside (steady more le)⟩
        · rw [ran] at steady
          cases place : flow.place? pc with
          | none =>
            cases flow with
            | finish v =>
              exact .inl ⟨depth, (.ok (some v), m'), nofun,
                fun more le loops => exec_finish inside (steady more le)⟩
            | next | jump => cases place
          | some next =>
            have forward := onward.lt inside ran place
            rcases ih _ (by omega) next m' rfl with ⟨depth', ending, ends, same⟩ | ⟨b, enters, cut⟩
            · refine .inl ⟨max depth depth', ending, ends, fun more le loops => ?_⟩
              rw [exec_go inside (steady more (Nat.le_trans (Nat.le_max_left ..) le)) place forward]
              exact same more (Nat.le_trans (Nat.le_max_right ..) le) loops
            · have move : c.Moves chunks (pc, m) (next, m') := ⟨inside, depth, flow, ran, place⟩
              exact .inr ⟨b, move.enters enters, cut⟩
      · exact .inr enters
    · exact .inl ⟨0, (.ok none, m), nofun, fun more _ loops => exec_outside inside⟩

/-- A run is cut off that comes to a call whose activation is cut off. -/
lemma exhausted_of_enters (onward : c.Onward) {start : Nat × Machine} (enters : c.Enters chunks start b)
    (cut : (Chunk.run chunks n b.chunk b.machine).1 = .error .exhausted) (loops : Nat) :
    (c.exec chunks (Chunk.run chunks n) loops start.1 start.2).1 = .error .exhausted := by
  obtain ⟨pc, m, f, args, dst, moves, call, called⟩ := enters
  -- an instruction that is cut off on the way ends the run as well
  have stops : ∀ {pc m}, (inside : pc < c.code.size) →
      (c.code[pc].exec chunks (Chunk.run chunks n) c.code.size m).1 = .error .exhausted →
      (c.exec chunks (Chunk.run chunks n) loops pc m).1 = .error .exhausted := by
    intro pc m inside cut
    rw [exec_error inside (Prod.ext cut rfl)]
  induction moves using ReflTransGen.head_induction_on with
  | refl =>
    obtain ⟨inside, here⟩ := Array.getElem?_eq_some_iff.1 call
    exact stops inside (Instruction.exec_eq_exhausted_iff.2 ⟨f, args, dst, b, here, called, cut⟩)
  | @head here there move _ ih =>
    obtain ⟨inside, depth, flow, ran, place⟩ := move
    by_cases off : (c.code[here.1].exec chunks (Chunk.run chunks n) c.code.size here.2).1 =
        .error .exhausted
    · exact stops inside off
    · -- at both depths the instruction does what it does at the larger of them
      have done : (c.code[here.1].exec chunks (Chunk.run chunks depth) c.code.size here.2).1 ≠
          .error .exhausted := by
        rw [ran]
        nofun
      have more := exec_instruction_of_le (Nat.le_max_left n depth) c.code[here.1] off
      rw [exec_instruction_of_le (Nat.le_max_right n depth) c.code[here.1] done, ran] at more
      rw [exec_go inside more.symm place (onward.lt inside ran place)]
      exact ih

end Chunk

namespace Frame

variable {chunks : ChunkTable} {a b : Frame}

/-- An activation that diverges enters one that diverges. -/
lemma Diverges.enters (onward : a.chunk.Onward) (diverges : a.Diverges chunks) :
    ∃ b, a.Enters chunks b ∧ b.Diverges chunks := by
  refine (Chunk.ends_or_enters onward 0 a.machine).resolve_left ?_
  rintro ⟨depth, ending, ends, same⟩
  apply ends
  rw [← same depth (Nat.le_refl depth) depth]
  exact diverges (depth + 1)

/-- What is entered is the activation of a chunk of the table. -/
lemma Enters.onward (closed : ∀ f entry, chunks.find? f = some entry → entry.2.Onward)
    (enters : a.Enters chunks b) : b.chunk.Onward := by
  obtain ⟨pc, m, f, args, dst, -, -, entry, cells, found, -, rfl⟩ := enters
  exact closed f entry found

/-- Where jumps lead forward, an activation diverges exactly if it enters another, which enters another,
and so on for ever. -/
lemma diverges_iff (closed : ∀ f entry, chunks.find? f = some entry → entry.2.Onward)
    (onward : a.chunk.Onward) : a.Diverges chunks ↔
      ∃ chain : Nat → Frame, chain 0 = a ∧ ∀ n, (chain n).Enters chunks (chain (n + 1)) := by
  constructor
  · intro diverges
    have step : ∀ a : {a : Frame // a.chunk.Onward ∧ a.Diverges chunks},
        ∃ b : {b : Frame // b.chunk.Onward ∧ b.Diverges chunks}, a.1.Enters chunks b.1 := by
      rintro ⟨a, onward, diverges⟩
      obtain ⟨b, enters, diverges⟩ := diverges.enters onward
      exact ⟨⟨b, enters.onward closed, diverges⟩, enters⟩
    choose next enters using step
    refine ⟨fun n => (next^[n] ⟨a, onward, diverges⟩).1, rfl, fun n => ?_⟩
    simp only [Function.iterate_succ_apply']
    exact enters _
  · rintro ⟨chain, rfl, enters⟩ depth
    -- every activation of the chain is cut off, by induction on the depth
    have cut : ∀ n, (Chunk.run chunks depth (chain n).chunk (chain n).machine).1 =
        .error .exhausted := by
      induction depth with
      | zero => exact fun _ => rfl
      | succ depth ih =>
        intro n
        have onward' : (chain n).chunk.Onward := by
          cases n with
          | zero => exact onward
          | succ n => exact (enters n).onward closed
        exact Chunk.exhausted_of_enters onward' (enters n) (ih (n + 1)) depth
    exact cut 0

end Frame

/-- A program diverges exactly if the activation of its main chunk does. -/
lemma Program.diverges_iff (p : Program) (s : Scope) : Run.Diverges (fun depth => p.run depth) s ↔
    Frame.Diverges p.functions ⟨p.main, p.start s.cells⟩ := by
  have cut : ∀ depth, (p.run depth s).1 = .error .exhausted ↔
      (Chunk.run p.functions (depth + 1) p.main (p.start s.cells)).1 = .error .exhausted := by
    intro depth
    have main : Chunk.run p.functions (depth + 1) p.main (p.start s.cells) =
        p.finish depth s.cells := rfl
    rw [run_eq, main]
    rcases p.finish depth s.cells with ⟨e | v, m⟩
    · have same : ∀ {α β : Type}, (.error e : Except (Stop Fault) α) = .error .exhausted →
          (.error e : Except (Stop Fault) β) = .error .exhausted :=
        fun h => congrArg Except.error (Except.error.inj h)
      exact ⟨same, same⟩
    · exact ⟨nofun, nofun⟩
  constructor
  · intro diverges depth
    cases depth with
    | zero => rfl
    | succ depth => exact (cut depth).1 (diverges depth)
  · exact fun diverges depth => (cut depth).2 (diverges (depth + 1))

section Programs

variable {fns : FunctionTable} {e : Expr} {scope : Scope} {c : Chunk}

/-- The main chunk of a program is that of its expression. -/
lemma forward_main (fns : FunctionTable) (e : Expr) (scope : Scope) :
    ∃ r, (compile fns e scope).1.main.Forward fns e (.print r) := by
  have code : (compile fns e scope).1.main.code.toList =
      (e.lower fns 0 0 scope).code ++ [.print _] := rfl
  exact ⟨_, Chunk.forward_of_code code rfl⟩

/-- The chunk of a function is that of its body. -/
lemma Definition.forward_chunk (fns : FunctionTable) (d : Definition) :
    ∃ r, (d.chunk fns).Forward fns d.body (.ret r) := by
  have code : (d.chunk fns).code.toList = (d.body.lower fns 0 0 d.locals).code ++ [.ret _] := rfl
  exact ⟨_, Chunk.forward_of_code code rfl⟩

/-- Every chunk of a program is that of an expression. -/
lemma forward_of_mem_chunks (mem : c ∈ (compile fns e scope).1.chunks) :
    ∃ e last, c.Forward fns e last := by
  cases chunk_cases mem with
  | inl main =>
    subst main
    obtain ⟨r, forward⟩ := forward_main fns e scope
    exact ⟨e, .print r, forward⟩
  | inr function =>
    obtain ⟨f, d, -, -, rfl⟩ := function
    obtain ⟨r, forward⟩ := d.forward_chunk fns
    exact ⟨d.body, .ret r, forward⟩

/-- A chunk whose targets lie ahead leads onward. -/
lemma Chunk.Forward.onward {last : Instruction} (h : c.Forward fns e last) : c.Onward :=
  fun pc i target here leads => (h.target pc i target here leads).1

/-- Control in compiled programs only moves forward.

* In the main chunk and in the chunk of each function, branches and jumps lead to places behind them in
  the chunk. Each belongs to a conditional of the expression that the chunk was made from: a branch leads
  to the false arm of its conditional, a jump behind this arm. The last instruction prints the result of
  the main chunk, or returns that of a function; no other does.
* An activation passes the places of its chunk in ascending order, so none twice, whatever the calls do
  and however often control might go back. If it comes to its end without an error, the place that it
  passes last is the last of the chunk.
* So a program runs for ever exactly if its main chunk enters an activation which enters another, and so
  on without end. -/
theorem compile_forward (fns : FunctionTable) (e : Expr) (scope : Scope) :
    let p := (compile fns e scope).1
    (∃ r, p.main.Forward fns e (.print r)) ∧
    (∀ f c, (f, c) ∈ p.functions.entries →
      ∃ d r, fns.find? f = some d ∧ c.Forward fns d.body (.ret r)) ∧
    (∀ c ∈ p.chunks, ∀ chunks enter loops (m : Machine),
      let ending := c.exec chunks enter loops 0 m
      ∃ places, c.Passes chunks enter 0 m places ending ∧ places.Pairwise (· < ·) ∧
        (∀ place ∈ places, place < c.code.size) ∧
        ((∃ v, ending.1 = .ok v) → places.getLast? = some (c.code.size - 1))) ∧
    ∀ s, Run.Diverges (fun depth => p.run depth) s ↔ ∃ chain : Nat → Frame,
      chain 0 = ⟨p.main, p.start s.cells⟩ ∧ ∀ n, (chain n).Enters p.functions (chain (n + 1)) := by
  intro p
  refine ⟨forward_main fns e scope, fun f c mem => ?_, fun c mem chunks enter loops m => ?_,
    fun s => ?_⟩
  · obtain ⟨d, found, same⟩ := (linked_compile fns e scope).own (Catalogue.mem_entries_iff.1 mem)
    cases same
    obtain ⟨r, forward⟩ := d.forward_chunk fns
    exact ⟨d, r, found, forward⟩
  · obtain ⟨e, last, forward⟩ := forward_of_mem_chunks mem
    obtain ⟨places, passes⟩ : ∃ places, c.Passes chunks enter 0 m places _ :=
      Chunk.passes_exec forward.onward loops 0 m
    obtain ⟨bounds, ascending⟩ := passes.ascending forward.onward
    have filled : 0 < c.code.size := by
      rw [forward.size]
      exact Nat.succ_pos _
    exact ⟨places, passes, ascending, fun place mem => (bounds place mem).2,
      passes.last forward filled⟩
  · obtain ⟨r, forward⟩ := forward_main fns e scope
    rw [p.diverges_iff, Frame.diverges_iff _ forward.onward]
    intro f entry found
    obtain ⟨d, -, rfl⟩ := (linked_compile fns e scope).own found
    obtain ⟨r, forward⟩ := d.forward_chunk fns
    exact forward.onward

/-- A conditional in an arm of another one, which is the argument of a call: the inner branch leads to
the inner false arm. And a function that calls itself: from the main chunk on, each activation enters the
next, so the program runs for ever. -/
theorem compile_forward_endless :
    let d : Definition := ⟨"f", ["n"], .call "f" [.var "n"]⟩
    let fns : FunctionTable := Catalogue.empty.insert d
    let choice : Expr := .cond (.var "x") (.cond (.var "y") (.lit 1) (.lit 2)) (.lit 3)
    let p := (compile fns (.call "f" [choice]) .empty).1
    let q := (compile fns (.call "f" [.lit 4]) .empty).1
    p.main.code.toList = [.loadVar 0 0, .branch 0 11, .loadVar 2 1, .branch 2 7, .loadConst 4 1,
        .move 3 4, .jump 9, .loadConst 5 2, .move 3 5, .move 1 3, .jump 13, .loadConst 6 3, .move 1 6,
        .call "f" [1] 7, .print 7] ∧
      (∃ n t a b, Expr.Part fns (.call "f" [choice]) n (.cond t a b) ∧ 3 = n + t.codeSize fns ∧
        7 = Chunk.falseArm fns n t a) ∧
      (∀ m, ∃ places, p.main.Passes p.functions (Chunk.run p.functions 2) 0 m places
        (p.main.exec p.functions (Chunk.run p.functions 2) 2 0 m) ∧ places.Pairwise (· < ·)) ∧
      Run.Diverges (fun depth => q.run depth) .empty := by
  intro d fns choice p q
  obtain ⟨⟨r, main⟩, -, runs, -⟩ := compile_forward fns (.call "f" [choice]) .empty
  obtain ⟨-, -, -, endless⟩ := compile_forward fns (.call "f" [.lit 4]) .empty
  have branch : p.main.code[3]? = some (.branch 2 7) := by decide +kernel
  refine ⟨by decide +kernel, main.branch 3 2 7 branch, fun m => ?_, (endless .empty).2 ?_⟩
  · obtain ⟨places, passes, ascending, -⟩ := runs p.main (List.mem_cons_self ..) p.functions
      (Chunk.run p.functions 2) 2 m
    exact ⟨places, passes, ascending⟩
  · have found : fns.find? "f" = some d := Catalogue.find?_insert_self d _
    have linked : q.functions.find? "f" = some ("f", d.chunk fns) :=
      (linked_compile fns _ .empty).find?_eq (contains_compile_iff.2 (.start (.call found rfl))) found
    let again : Frame := ⟨d.chunk fns, ⟨#[0, 0], #[some 4], #[], #[]⟩⟩
    -- either chunk puts the argument in register 0 and calls the function with it
    have called : ∀ cells, Frame.Called q.functions "f" [0] ⟨#[4, 0], cells, #[], #[]⟩ again :=
      fun cells => ⟨("f", d.chunk fns), #[some 4], linked, rfl, rfl⟩
    refine ⟨fun n => n.casesOn ⟨q.main, q.start #[]⟩ fun _ => again, rfl, fun n => ?_⟩
    cases n with
    | zero =>
      have first : q.main.code[0]? = some (.loadConst 0 4) := by decide +kernel
      obtain ⟨inside, here⟩ := Array.getElem?_eq_some_iff.1 first
      have load : q.main.Moves q.functions (0, q.start #[]) (1, ⟨#[4, 0], #[], #[], #[]⟩) :=
        ⟨inside, 0, .next, by rw [here]; rfl, rfl⟩
      exact ⟨1, _, "f", [0], 1, .single load, by decide +kernel, called _⟩
    | succ n =>
      have first : again.chunk.code[0]? = some (.loadVar 0 0) := by decide +kernel
      have second : again.chunk.code[1]? = some (.call "f" [0] 1) := by decide +kernel
      obtain ⟨inside, here⟩ := Array.getElem?_eq_some_iff.1 first
      have load : again.chunk.Moves q.functions (0, again.machine)
          (1, ⟨#[4, 0], #[some 4], #[], #[]⟩) :=
        ⟨inside, 0, .next, by rw [here]; rfl, rfl⟩
      exact ⟨1, _, "f", [0], 1, .single load, second, called _⟩

end Programs

end Reckon
