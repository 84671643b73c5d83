import Reckon.Proofs.Lowering
import Reckon.Proofs.Steps

/-!
# Simulation

The code of an expression does what the expression means. An `Activation` fixes the chunk at work, the
layout of its cells, and how calls are made on both sides. `Activation.Follows` says of a piece of code
that running it leads to the place behind it with the value in the register of the result, or stops as
the expression does, and that in both cases the cells represent the scope that the expression leaves.

Main statement: `Activation.follows_lower`, by induction on the expression with one lemma for each node.
-/

namespace Reckon

open Scope Machine

/-- A call of `f` from any machine has the result of a call of its definition with the contents of the
argument registers, and leaves the machine as it was. -/
def Answers (fns : FunctionTable) (call : Definition → List Int64 → Except (Stop Rejection) Int64)
    (chunks : ChunkTable) (enter : Chunk → Run Machine Fault (Option Int64)) (f : String) : Prop :=
  ∀ d, fns.find? f = some d → ∀ m rs vs, m.HasAll rs vs →
    Machine.call chunks enter f rs m = ((call d vs).mapError (Stop.map .rejected), m)

/-- A chunk at work on cells of a certain layout. The calls it makes have the results that calls in
the tree have. -/
structure Activation where
  fns : FunctionTable
  call : Definition → List Int64 → Except (Stop Rejection) Int64
  chunks : ChunkTable
  enter : Chunk → Run Machine Fault (Option Int64)
  chunk : Chunk
  layout : Scope
  answers : ∀ f ∈ chunk.callees, Answers fns call chunks enter f

namespace Activation

variable {A : Activation} {α β : Type} {pc pc' pc'' base mid behind : Nat} {m m' m'' : Machine}
  {s s' : Scope} {next : Register} {code : List Instruction} {i : Instruction}

/-- Control comes from one place to another. -/
def Goes (A : Activation) (pc : Nat) (m : Machine) (pc' : Nat) (m' : Machine) : Prop :=
  ∀ loops, A.chunk.exec A.chunks A.enter loops pc m = A.chunk.exec A.chunks A.enter loops pc' m'

/-- The run stops on its way from a place. -/
def Breaks (A : Activation) (pc : Nat) (m : Machine) (e : Stop Fault) (m' : Machine) : Prop :=
  ∀ loops, A.chunk.exec A.chunks A.enter loops pc m = (.error e, m')

/-- The run from `pc` does what an outcome says: it comes to `behind`, having got a value, or it
stops. The registers before `next` are kept, and the cells represent the scope of the outcome. -/
def Tracks (A : Activation) (got : Machine → α → Prop) (pc : Nat) (m : Machine) (behind : Nat)
    (next : Register) (outcome : Except (Stop Rejection) α × Scope) : Prop :=
  ∃ m', m.Keeps next m' ∧ Represents A.layout m'.cells outcome.2 ∧
    match outcome.1 with
    | .ok v => A.Goes pc m behind m' ∧ got m' v
    | .error e => A.Breaks pc m (e.map .rejected) m'

/-- The code stands at `base`, the machine has the registers that it takes, and the cells, which have
the slots that it names, represent `s`. -/
structure Fits (A : Activation) (l : Lowered α) (base : Nat) (m : Machine) (s : Scope) : Prop where
  holds : A.chunk.Holds base l.code
  continues : Continues l.scope A.layout
  registers : l.next ≤ m.registers.size
  represents : Represents A.layout m.cells s

/-- Wherever the machine comes to the code, running it does what `run` does. The value is where the
code says, in the sense of `got`. -/
def Follows (A : Activation) (got : Machine → β → α → Prop) (l : Lowered β) (base : Nat)
    (next : Register) (run : Run Scope Rejection α) : Prop :=
  ∀ m s, A.Fits l base m s →
    A.Tracks (fun m v => got m l.result v) base m (base + l.code.length) next (run s)

/-- Control that is led on goes on. -/
lemma Goes.trans (h : A.Goes pc m pc' m') (h' : A.Goes pc' m' pc'' m'') : A.Goes pc m pc'' m'' :=
  fun loops => (h loops).trans (h' loops)

/-- A run that stops after control was led on stops. -/
lemma Goes.breaks {e : Stop Fault} (h : A.Goes pc m pc' m') (h' : A.Breaks pc' m' e m'') :
    A.Breaks pc m e m'' :=
  fun loops => (h loops).trans (h' loops)

/-- Control goes on behind an instruction. -/
lemma goes_next (here : A.chunk.Holds pc (i :: code))
    (ran : i.exec A.chunks A.enter A.chunk.code.size m = (.ok .next, m')) :
    A.Goes pc m (pc + 1) m' := by
  intro loops
  apply Chunk.exec_next here.lt
  rw [here.getElem]
  exact ran

/-- Control goes to the target of a jump forward. -/
lemma goes_forward {target : Nat} (here : A.chunk.Holds pc (i :: code))
    (ran : i.exec A.chunks A.enter A.chunk.code.size m = (.ok (.jump target), m'))
    (forward : pc < target) : A.Goes pc m target m' := by
  intro loops
  refine Chunk.exec_forward here.lt ?_ forward
  rw [here.getElem]
  exact ran

/-- The run stops with an instruction that does. -/
lemma breaks_here {e : Stop Fault} (here : A.chunk.Holds pc (i :: code))
    (ran : i.exec A.chunks A.enter A.chunk.code.size m = (.error e, m')) : A.Breaks pc m e m' := by
  intro loops
  apply Chunk.exec_error here.lt
  rw [here.getElem]
  exact ran

namespace Tracks

variable {got got'' : Machine → α → Prop} {got' : Machine → β → Prop}
  {outcome : Except (Stop Rejection) α × Scope}

/-- An outcome is tracked from before a piece of code that leads to where it is tracked. -/
lemma after (goes : A.Goes pc m pc' m') (keeps : m.Keeps next m')
    (h : A.Tracks got pc' m' behind next outcome) : A.Tracks got pc m behind next outcome := by
  obtain ⟨m'', keeps', rep, run⟩ := h
  refine ⟨m'', keeps.trans keeps', rep, ?_⟩
  rcases outcome with ⟨e | v, s⟩
  · exact goes.breaks run
  · exact ⟨goes.trans run.1, run.2⟩

/-- A place may be written in another way. -/
lemma cast {behind' : Nat} (h : A.Tracks got pc m behind next outcome) (eq : behind = behind') :
    A.Tracks got pc m behind' next outcome := eq ▸ h

/-- What is tracked with registers taken up to one is tracked with fewer of them. -/
lemma mono {less : Register} (h : A.Tracks got pc m behind next outcome) (le : less ≤ next) :
    A.Tracks got pc m behind less outcome := by
  obtain ⟨m', keeps, rep, run⟩ := h
  exact ⟨m', keeps.mono le, rep, run⟩

/-- A sequence is tracked if its first part is, and its second part from where the first one led. -/
lemma bind {first : Run Scope Rejection α} {second : α → Run Scope Rejection β}
    (h : A.Tracks got pc m mid next (first s))
    (k : ∀ v s' m', m.Keeps next m' → Represents A.layout m'.cells s' → got m' v →
      A.Tracks got' mid m' behind next (second v s')) :
    A.Tracks got' pc m behind next ((first >>= second) s) := by
  rw [Run.bind_apply]
  generalize first s = outcome at h
  rcases outcome with ⟨e | v, s'⟩
  · exact h
  · obtain ⟨m', keeps, rep, goes, has⟩ := h
    exact after goes keeps (k v s' m' keeps rep has)

/-- Code behind an outcome that leaves the cells alone carries the value on. -/
lemma carry (h : A.Tracks got pc m mid next outcome)
    (k : ∀ v m', m.Keeps next m' → got m' v →
      ∃ m'', A.Goes mid m' behind m'' ∧ m'.Keeps next m'' ∧ m''.cells = m'.cells ∧ got'' m'' v) :
    A.Tracks got'' pc m behind next outcome := by
  rcases outcome with ⟨e | v, s'⟩
  · exact h
  · obtain ⟨m', keeps, rep, goes, has⟩ := h
    obtain ⟨m'', goes', keeps', cells, has'⟩ := k v m' keeps has
    refine ⟨m'', keeps.trans keeps', ?_, goes.trans goes', has'⟩
    rw [cells]
    exact rep

/-- The value is moved to another register behind the code. -/
lemma moved {src dst : Register} {outcome : Except (Stop Rejection) Int64 × Scope}
    (h : A.Tracks (fun m v => m.Has src v) pc m mid next outcome)
    (here : A.chunk.Holds mid (.move dst src :: code)) (le : next ≤ dst)
    (room : dst < m.registers.size) :
    A.Tracks (fun m v => m.Has dst v) pc m (mid + 1) next outcome := by
  apply h.carry
  intro v m' keeps has
  have room : dst < m'.registers.size := keeps.size ▸ room
  exact ⟨m'.put dst v, goes_next here (Instruction.exec_move has room), .put m' v le, rfl,
    has_put room⟩

/-- Control is led on behind the code. -/
lemma led (h : A.Tracks got pc m mid next outcome) (goes : ∀ m, A.Goes mid m behind m) :
    A.Tracks got pc m behind next outcome := by
  apply h.carry
  intro v m' keeps has
  exact ⟨m', goes m', .refl m' next, rfl, has⟩

/-- A result is tracked by the instruction that settles it in a register. -/
lemma settled {result : Except (Stop Rejection) Int64} {dst : Register}
    (here : A.chunk.Holds pc (i :: code))
    (ran : i.exec A.chunks A.enter A.chunk.code.size m =
      m.settle dst (result.mapError (Stop.map .rejected)))
    (le : next ≤ dst) (room : dst < m.registers.size) (rep : Represents A.layout m.cells s) :
    A.Tracks (fun m v => m.Has dst v) pc m (pc + 1) next (result, s) := by
  cases result with
  | error e => exact ⟨m, .refl m next, rep, breaks_here here ran⟩
  | ok v => exact ⟨m.put dst v, .put m v le, rep, goes_next here ran, has_put room⟩

/-- A rejection is tracked by the instruction that stands for it. -/
lemma rejected {reason : Rejection} (holds : A.chunk.Holds pc (.fail reason :: code))
    (rep : Represents A.layout m.cells s) :
    A.Tracks got pc m behind next (.error (.error reason), s) :=
  ⟨m, .refl m next, rep, breaks_here holds rfl⟩

end Tracks

section Nodes

variable {e left right test whenTrue whenFalse : Expr} {l r t a b : Lowered Register}
  {scope : Scope}

/-- A literal is loaded into its register. -/
lemma follows_lit (v : Int64) :
    A.Follows Has ⟨[.loadConst next v], next, next + 1, scope⟩ base next
      ((Expr.lit v).eval A.fns A.call) := by
  intro m s fits
  have room : next < m.registers.size := fits.registers
  exact ⟨m.put next v, .put m v (Nat.le_refl next), fits.represents,
    goes_next fits.holds (Instruction.exec_loadConst room), has_put room⟩

/-- A variable is loaded from its cell, which is live from then on. -/
lemma follows_var (x : String) :
    A.Follows Has ⟨[.loadVar next (scope.slot x)], next, next + 1, scope.reserve x⟩ base next
      ((Expr.var x).eval A.fns A.call) := by
  intro m s fits
  have room : next < m.registers.size := fits.registers
  have mem : x ∈ A.layout.names := fits.continues.mem (mem_names_reserve.2 (.inl rfl))
  have slot : A.layout.slot x = scope.slot x := fits.continues.slot_eq_of_reserve
  have cell : m.cells[scope.slot x]? = some (s.get? x) := by
    rw [← slot]
    exact fits.represents.inside x mem
  refine ⟨(m.hold (scope.slot x) (s.value x)).put next (s.value x), ?_, ?_, ?_, ?_⟩
  · exact (Keeps.hold m next _ _).trans (.put _ _ (Nat.le_refl next))
  · rw [put_cells, hold_cells, ← slot]
    exact fits.represents.touch mem
  · exact goes_next fits.holds (Instruction.exec_loadVar cell room)
  · exact has_put room

/-- A value is stored in the cell of the variable it is assigned to. -/
lemma follows_assign (ih : A.Follows Has l base next (e.eval A.fns A.call)) (x : String) :
    A.Follows Has
      ⟨l.code ++ [.storeVar (l.scope.slot x) l.result], l.result, l.next, l.scope.reserve x⟩ base next
      ((Expr.assign (.var x) e).eval A.fns A.call) := by
  intro m s fits
  have v := ih m s
    { holds := fits.holds.left
      continues := (continues_reserve _ x).trans fits.continues
      registers := fits.registers
      represents := fits.represents }
  simp only [Expr.eval]
  refine v.bind fun v s' m' keeps rep has => ?_
  have mem : x ∈ A.layout.names := fits.continues.mem (mem_names_reserve.2 (.inl rfl))
  have slot := fits.continues.slot_eq_of_reserve
  have cell := Nat.lt_of_lt_of_le (slot_lt mem) rep.fits
  have here := fits.holds.right
  rw [← slot] at here
  refine ⟨m'.hold (A.layout.slot x) v, .hold m' next _ v, rep.assign mem v, ?_, has⟩
  have goes := goes_next here (Instruction.exec_storeVar has cell)
  simpa [Nat.add_assoc] using goes

/-- A place that no engine can evaluate is tracked by the instruction that stands for it. -/
lemma follows_rejected (reason : Rejection) :
    A.Follows Has (.rejected reason next scope) base next (Run.fail reason) :=
  fun _ _ fits => .rejected fits.holds fits.represents

/-- The value of an operator is computed from the registers of its operands. -/
lemma follows_binary (op : Operator) (ihl : A.Follows Has l base next (left.eval A.fns A.call))
    (ihr : A.Follows Has r (base + l.code.length) l.next (right.eval A.fns A.call))
    (le : next ≤ l.next) (below : l.result < l.next) (extr : r.Extends l.next l.scope) :
    A.Follows Has
      ⟨l.code ++ r.code ++ [.compute (.value op) r.next l.result r.result], r.next, r.next + 1,
        r.scope⟩ base next
      ((Expr.binary op left right).eval A.fns A.call) := by
  intro m s fits
  have room : r.next < m.registers.size := fits.registers
  have runl := ihl m s
    { holds := fits.holds.left.left
      continues := extr.continues.trans fits.continues
      registers := Nat.le_trans extr.next_le (Nat.le_of_lt room)
      represents := fits.represents }
  simp only [Expr.eval]
  refine runl.bind fun lv s₁ m₁ keeps₁ rep₁ has₁ => ?_
  have room : r.next < m₁.registers.size := keeps₁.size ▸ room
  have runr := ihr m₁ s₁
    { holds := fits.holds.left.right
      continues := fits.continues
      registers := Nat.le_of_lt room
      represents := rep₁ }
  refine Tracks.mono (runr.bind fun rv s₂ m₂ keeps₂ rep₂ has₂ => ?_) le
  have room : r.next < m₂.registers.size := keeps₂.size ▸ room
  have here := fits.holds.right
  rw [List.length_append, ← Nat.add_assoc] at here
  rw [Run.trapping_apply]
  refine (Tracks.settled here ?_ extr.next_le room rep₂).cast (by simp +arith)
  rw [Instruction.exec_compute op (keeps₂.has below has₁) has₂ room]
  cases op.apply lv rv <;> rfl

/-- Control runs through one arm and comes out behind both, with the value in the register `t.next`. -/
lemma follows_cond (iht : A.Follows Has t base next (test.eval A.fns A.call))
    (iha : A.Follows Has a (base + t.code.length + 1) (t.next + 1) (whenTrue.eval A.fns A.call))
    (ihb : A.Follows Has b (base + t.code.length + 1 + a.code.length + 2) a.next
      (whenFalse.eval A.fns A.call))
    (le : next ≤ t.next) (exta : a.Extends (t.next + 1) t.scope) (extb : b.Extends a.next a.scope) :
    A.Follows Has
      ⟨t.code ++ [.branch t.result (base + t.code.length + 1 + a.code.length + 2)] ++ a.code ++
        [.move t.next a.result,
          .jump (base + t.code.length + 1 + a.code.length + 2 + b.code.length + 1)] ++
        b.code ++ [.move t.next b.result], t.next, b.next, b.scope⟩ base next
      ((Expr.cond test whenTrue whenFalse).eval A.fns A.call) := by
  intro m s fits
  obtain ⟨holds, continues, registers, rep⟩ := fits
  obtain ⟨holdsT, holdsBranch, holdsA, holdsJump, holdsB, holdsMove⟩ := holds.pieces
  have room : t.next < m.registers.size :=
    Nat.lt_of_lt_of_le (Nat.lt_of_lt_of_le exta.next_le extb.next_le) registers
  have behind := holdsMove.le
  suffices h : A.Tracks (fun m v => m.Has t.next v) base m
      (base + t.code.length + 1 + a.code.length + 2 + b.code.length + 1) next
      ((Expr.cond test whenTrue whenFalse).eval A.fns A.call s) from h.cast (by simp +arith)
  simp only [Expr.eval]
  have runt := iht m s
    { holds := holdsT
      continues := (exta.continues.trans extb.continues).trans continues
      registers := Nat.le_of_lt room
      represents := rep }
  refine runt.bind fun v s₁ m₁ keeps₁ rep₁ has₁ => ?_
  have room : t.next < m₁.registers.size := keeps₁.size ▸ room
  cases decEq v 0 with
  | isTrue zero =>
    subst zero
    rw [if_pos rfl]
    have goes := goes_forward holdsBranch (Instruction.exec_branch_zero has₁ (by omega)) (by omega)
    refine Tracks.after goes (.refl m₁ next) ?_
    have runb := ihb m₁ s₁
      { holds := holdsB
        continues := continues
        registers := keeps₁.size ▸ registers
        represents := rep₁ }
    have lea : next ≤ a.next := Nat.le_trans le (Nat.le_of_lt exta.next_le)
    exact (runb.mono lea).moved holdsMove le room
  | isFalse nonzero =>
    rw [if_neg nonzero]
    have goes := goes_next holdsBranch (Instruction.exec_branch_nonzero _ has₁ nonzero)
    refine Tracks.after goes (.refl m₁ next) ?_
    have runa := iha m₁ s₁
      { holds := holdsA
        continues := extb.continues.trans continues
        registers := Nat.le_trans extb.next_le (keeps₁.size ▸ registers)
        represents := rep₁ }
    have moved := (runa.mono (Nat.le_succ_of_le le)).moved holdsJump le room
    -- this arm stands in front of the other, which the jump passes over
    apply moved.led
    intro m₂
    exact goes_forward holdsJump.tail (Instruction.exec_jump behind) (by omega)

/-- Nothing is to be done for no arguments. -/
lemma follows_nil : A.Follows HasAll ⟨[], [], next, scope⟩ base next
    (Expr.evalArgs A.fns A.call []) :=
  fun m _ fits => ⟨m, .refl m next, fits.represents, fun _ => rfl, .nil⟩

/-- The register of the first argument keeps its value while the code of the others runs. -/
lemma follows_cons {es : List Expr} {others : Lowered (List Register)}
    (ih : A.Follows Has l base next (e.eval A.fns A.call))
    (ihs : A.Follows HasAll others (base + l.code.length) l.next (Expr.evalArgs A.fns A.call es))
    (le : next ≤ l.next) (below : l.result < l.next) (ext : others.Extends l.next l.scope) :
    A.Follows HasAll ⟨l.code ++ others.code, l.result :: others.result, others.next, others.scope⟩
      base next (Expr.evalArgs A.fns A.call (e :: es)) := by
  intro m s fits
  have first := ih m s
    { holds := fits.holds.left
      continues := ext.continues.trans fits.continues
      registers := Nat.le_trans ext.next_le fits.registers
      represents := fits.represents }
  simp only [Expr.evalArgs]
  refine first.bind fun v s₁ m₁ keeps₁ rep₁ has₁ => ?_
  have rest := ihs m₁ s₁
    { holds := fits.holds.right
      continues := fits.continues
      registers := keeps₁.size ▸ fits.registers
      represents := rep₁ }
  refine Tracks.mono (rest.bind fun vs s₂ m₂ keeps₂ rep₂ has₂ => ?_) le
  have here : A.Goes (base + l.code.length + others.code.length) m₂
      (base + (l.code ++ others.code).length) m₂ := by
    rw [List.length_append, Nat.add_assoc]
    exact fun _ => rfl
  exact ⟨m₂, .refl m₂ l.next, rep₂, here, .cons (keeps₂.has below has₁) has₂⟩

/-- A call finds its arguments in their registers. -/
lemma follows_call {f : String} {d : Definition} {args : List Expr}
    {given : Lowered (List Register)} (found : A.fns.find? f = some d)
    (fits : args.length = d.arity)
    (ih : A.Follows HasAll given base next (Expr.evalArgs A.fns A.call args))
    (le : next ≤ given.next) :
    A.Follows Has ⟨given.code ++ [.call f given.result given.next], given.next, given.next + 1,
      given.scope⟩ base next ((Expr.call f args).eval A.fns A.call) := by
  intro m s start
  have room : given.next < m.registers.size := start.registers
  have here := start.holds.right
  have run := ih m s
    { holds := start.holds.left
      continues := start.continues
      registers := Nat.le_of_lt room
      represents := start.represents }
  rw [Expr.eval_call found fits]
  refine run.bind fun vs s₁ m₁ keeps₁ rep₁ has₁ => ?_
  have room : given.next < m₁.registers.size := keeps₁.size ▸ room
  have called := A.answers f here.mem_callees d found m₁ given.result vs has₁
  refine (Tracks.settled here ?_ le room rep₁).cast (by simp +arith)
  exact Instruction.exec_call called room

end Nodes

/-- The code of arguments does what the arguments mean, if that is so for each of them. -/
lemma follows_lowerArgs (A : Activation) {es : List Expr}
    (all : ∀ e ∈ es, ∀ base next scope,
      A.Follows Has (e.lower A.fns base next scope) base next (e.eval A.fns A.call))
    (base : Nat) (next : Register) (scope : Scope) :
    A.Follows HasAll (Expr.lowerArgs A.fns es base next scope) base next
      (Expr.evalArgs A.fns A.call es) := by
  induction es generalizing base next scope with
  | nil => exact follows_nil
  | cons e es ih =>
    have others := ih fun e mem => all e (by simp [mem])
    exact follows_cons (all e (by simp) base next scope) (others _ _ _)
      (e.extends_lower base next scope).next_le (e.result_lower_lt base next scope)
      (Expr.extends_lowerArgs es _ _ _)

/-- The code of an expression does what the expression means. -/
theorem follows_lower (A : Activation) (e : Expr) : ∀ base next scope,
    A.Follows Has (e.lower A.fns base next scope) base next (e.eval A.fns A.call) := by
  induction e using Expr.induction with
  | lit v => exact fun _ _ _ => follows_lit v
  | var x => exact fun _ _ _ => follows_var x
  | assign target value _ ih =>
    intro base next scope
    cases target with
    | var x => exact follows_assign (ih base next scope) x
    | _ => exact follows_rejected _
  | binary op left right ihl ihr =>
    intro base next scope
    exact follows_binary op (ihl base next scope) (ihr _ _ _) (left.extends_lower _ _ _).next_le
      (left.result_lower_lt _ _ _) (right.extends_lower _ _ _)
  | cond test whenTrue whenFalse iht iha ihb =>
    intro base next scope
    exact follows_cond (iht base next scope) (iha _ _ _) (ihb _ _ _)
      (test.extends_lower _ _ _).next_le (whenTrue.extends_lower _ _ _)
      (whenFalse.extends_lower _ _ _)
  | call f args ih =>
    intro base next scope
    cases Expr.lower_call_cases A.fns f args with
    | inl entered =>
      obtain ⟨d, found, fits⟩ := entered
      rw [Expr.lower_call found fits]
      exact follows_call found fits (A.follows_lowerArgs ih base next scope)
        (Expr.extends_lowerArgs args base next scope).next_le
    | inr refused =>
      obtain ⟨reason, evaluated, lowered⟩ := refused
      rw [evaluated, lowered]
      exact follows_rejected reason

end Activation

end Reckon
