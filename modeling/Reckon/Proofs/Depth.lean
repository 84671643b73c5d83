import Mathlib.Tactic.Lemma
import Reckon.Session

/-!
# Runs without a bound

Every run is given a bound on how deep calls may nest. The bound is no part of what a program means:
a run that ends within it ends in the same way within any larger one (`Run.Deepening`), so a program
either ends in exactly one way (`Run.Ends`, `Deepening.ends_unique`) or exhausts every bound
(`Run.Diverges`).

Both engines and the session keep this property: `Expr.run_deepening`, `Program.run_deepening`,
`Engine.evaluate_deepening`, `Session.perform_deepening`, `Session.execute_deepening`.
-/

namespace Reckon

namespace Run

variable {σ τ ε ε' α β : Type} {m m' : Run σ ε α} {s s' s₁ s₂ : σ}
  {r r₁ r₂ : Except (Stop ε) α}

/-- The first run was cut off at its bound, or it ended like the second. -/
def Approx (x y : Except (Stop ε) α × σ) : Prop := x.1 = .error .exhausted ∨ x = y

/-- A larger bound changes nothing but the lack of depth. -/
def Deepening (run : Nat → Run σ ε α) : Prop :=
  ∀ depth more, depth ≤ more → ∀ s, Approx (run depth s) (run more s)

/-- With enough depth, the run from `s` ends in `r` and leaves `s'`. -/
def Ends (run : Nat → Run σ ε α) (s : σ) (r : Except (Stop ε) α) (s' : σ) : Prop :=
  r ≠ .error .exhausted ∧ ∃ depth, run depth s = (r, s')

/-- No depth is enough for the run from `s`. -/
def Diverges (run : Nat → Run σ ε α) (s : σ) : Prop :=
  ∀ depth, (run depth s).1 = .error .exhausted

/-- A run is approximated by itself. -/
lemma Approx.refl (x : Except (Stop ε) α × σ) : Approx x x := .inr rfl

/-- A run that was not cut off ended like the one it approximates. -/
lemma Approx.eq {x y : Except (Stop ε) α × σ} (h : Approx x y) (done : x.1 ≠ .error .exhausted) :
    y = x := by
  cases h with
  | inl cut => exact absurd cut done
  | inr same => exact same.symm

/-- A sequence approximates another if its parts do. -/
lemma Approx.bind {f f' : α → Run σ ε β} (first : Approx (m s) (m' s))
    (second : ∀ a s', Approx (f a s') (f' a s')) : Approx ((m >>= f) s) ((m' >>= f') s) := by
  rw [bind_apply, bind_apply]
  cases first with
  | inl cut =>
    left
    rw [show m s = (.error .exhausted, (m s).2) from Prod.ext cut rfl]
  | inr same =>
    rw [← same]
    rcases m s with ⟨e | a, s'⟩
    · exact .refl _
    · exact second a s'

/-- Seeing errors as errors of another kind keeps approximation. -/
lemma Approx.mapError (f : ε → ε') (h : Approx (m s) (m' s)) :
    Approx (m.mapError f s) (m'.mapError f s) := by
  rw [Run.mapError, Run.mapError]
  cases h with
  | inl cut =>
    left
    rw [show m s = (.error .exhausted, (m s).2) from Prod.ext cut rfl]
    rfl
  | inr same =>
    rw [← same]
    exact .refl _

/-- Running on a part of the state keeps approximation. -/
lemma Approx.within {part : σ → τ} {replace : σ → τ → σ} {m m' : Run τ ε α}
    (h : Approx (m (part s)) (m' (part s))) :
    Approx (m.within part replace s) (m'.within part replace s) := by
  rw [Run.within, Run.within]
  cases h with
  | inl cut => exact .inl cut
  | inr same =>
    rw [← same]
    exact .refl _

/-- It is enough to compare each depth with the next one. -/
lemma Deepening.of_succ {run : Nat → Run σ ε α}
    (step : ∀ depth s, Approx (run depth s) (run (depth + 1) s)) : Deepening run := by
  intro depth more le s
  induction le with
  | refl => exact .refl _
  | @step more _ ih =>
    cases ih with
    | inl cut => exact .inl cut
    | inr same =>
      rw [same]
      exact step more s

/-- A program that ends does so in one way only. -/
lemma Deepening.ends_unique {run : Nat → Run σ ε α} (deep : Deepening run)
    (h₁ : Ends run s r₁ s₁) (h₂ : Ends run s r₂ s₂) : r₁ = r₂ ∧ s₁ = s₂ := by
  obtain ⟨done₁, d₁, eq₁⟩ := h₁
  obtain ⟨done₂, d₂, eq₂⟩ := h₂
  -- both runs end in the same way within the larger of their depths
  have toMax : ∀ {d r s'}, r ≠ .error .exhausted → run d s = (r, s') → d ≤ max d₁ d₂ →
      run (max d₁ d₂) s = (r, s') := by
    intro d r s' done eq le
    cases deep _ _ le s with
    | inl cut => exact absurd (by simpa [eq] using cut) done
    | inr same => rw [← same, eq]
  have eq := (toMax done₁ eq₁ (Nat.le_max_left ..)).symm.trans
    (toMax done₂ eq₂ (Nat.le_max_right ..))
  exact Prod.mk.inj eq

/-- A program that does not end diverges. -/
lemma ends_or_diverges (run : Nat → Run σ ε α) (s : σ) :
    (∃ r s', Ends run s r s') ∨ Diverges run s := by
  by_cases h : ∃ depth, (run depth s).1 ≠ .error .exhausted
  · obtain ⟨depth, done⟩ := h
    exact .inl ⟨_, _, done, depth, rfl⟩
  · right
    intro depth
    exact Classical.byContradiction fun done => h ⟨depth, done⟩

/-- A program that ends does not diverge. -/
lemma Deepening.not_diverges {run : Nat → Run σ ε α} (h : Ends run s r s') :
    ¬Diverges run s := by
  obtain ⟨done, depth, eq⟩ := h
  intro cut
  exact done (by simpa [eq] using cut depth)

end Run

open Run

section Interpreter

variable {fns : FunctionTable}
  {enter enter' : Definition → List Int64 → Except (Stop Rejection) Int64}

/-- The arguments of a call do not notice that calls are allowed to nest deeper. -/
lemma Expr.approx_evalArgs {es : List Expr}
    (all : ∀ e ∈ es, ∀ s, Approx (e.eval fns enter s) (e.eval fns enter' s)) (s : Scope) :
    Approx (evalArgs fns enter es s) (evalArgs fns enter' es s) := by
  induction es generalizing s with
  | nil => exact .refl _
  | cons e es ih =>
    simp only [evalArgs]
    apply Approx.bind (all e (by simp) s)
    intro v s
    apply Approx.bind (ih (fun e mem => all e (by simp [mem])) s)
    intro vs s
    exact .refl _

/-- An expression does not notice that calls are allowed to nest deeper. -/
lemma Expr.approx_eval
    (deeper : ∀ d vs, enter d vs = .error .exhausted ∨ enter d vs = enter' d vs) (e : Expr) :
    ∀ s, Approx (e.eval fns enter s) (e.eval fns enter' s) := by
  induction e using Expr.induction with
  | lit | var => exact fun _ => .refl _
  | assign target value _ ih =>
    intro s
    cases target with
    | var x =>
      simp only [eval]
      apply Approx.bind (ih s)
      intro v s
      exact .refl _
    | _ => exact .refl _
  | binary op left right ihl ihr =>
    intro s
    simp only [eval]
    apply Approx.bind (ihl s)
    intro l s
    apply Approx.bind (ihr s)
    intro r s
    exact .refl _
  | cond test whenTrue whenFalse iht iha ihb =>
    intro s
    simp only [eval]
    apply Approx.bind (iht s)
    intro t s
    split
    · exact ihb s
    · exact iha s
  | call f args ih =>
    intro s
    cases eval_call_cases fns f args with
    | inl entered =>
      obtain ⟨d, found, fits⟩ := entered
      rw [eval_call found fits, eval_call found fits]
      apply Approx.bind (approx_evalArgs ih s)
      intro vs s
      cases deeper d vs with
      | inl cut => exact .inl cut
      | inr same =>
        rw [same]
        exact .refl _
    | inr refused =>
      obtain ⟨reason, evaluated⟩ := refused
      rw [evaluated, evaluated]
      exact .refl _

/-- A call that ends within a depth ends in the same way within the next one. -/
lemma Definition.call_succ (depth : Nat) (d : Definition) (vs : List Int64) :
    d.call fns depth vs = .error .exhausted ∨ d.call fns depth vs = d.call fns (depth + 1) vs := by
  induction depth generalizing d vs with
  | zero => exact .inl rfl
  | succ depth ih =>
    cases d.body.approx_eval ih (Scope.ofArguments d.params vs) with
    | inl cut => exact .inl cut
    | inr same => exact .inr (congrArg Prod.fst same)

/-- The depth of a run of the tree is only a bound. -/
lemma Expr.run_deepening (fns : FunctionTable) (e : Expr) : Deepening fun depth => e.run fns depth :=
  Deepening.of_succ fun depth => e.approx_eval (Definition.call_succ depth)

end Interpreter

section Machine

variable (chunks : ChunkTable) {enter enter' : Chunk → Run Machine Fault (Option Int64)}

/-- A call of a chunk does not notice that calls are allowed to nest deeper. -/
lemma Machine.approx_call (deeper : ∀ c m, Approx (enter c m) (enter' c m)) (f : String)
    (args : List Register) (m : Machine) :
    Approx (Machine.call chunks enter f args m) (Machine.call chunks enter' f args m) := by
  cases found : chunks.find? f with
  | none =>
    simp only [Machine.call, found]
    exact .refl _
  | some entry =>
    simp only [Machine.call, found]
    apply Approx.bind (.refl _)
    intro cells m
    apply Approx.bind
    · rw [activate, activate]
      cases deeper entry.2 _ with
      | inl cut => exact .inl cut
      | inr same =>
        simp only [same]
        exact .refl _
    · intro v? m
      exact .refl _

/-- An instruction does not notice that calls are allowed to nest deeper. -/
lemma Instruction.approx_exec (deeper : ∀ c m, Approx (enter c m) (enter' c m)) (size : Nat)
    (i : Instruction) (m : Machine) :
    Approx (i.exec chunks enter size m) (i.exec chunks enter' size m) := by
  cases i with
  | call f args dst =>
    apply Approx.bind (Machine.approx_call chunks deeper f args m)
    intro v m
    exact .refl _
  | _ => exact .refl _

/-- The run of a chunk does not notice that calls are allowed to nest deeper and control to go back
more often. -/
lemma Chunk.approx_exec (deeper : ∀ c m, Approx (enter c m) (enter' c m)) (c : Chunk)
    {loops more : Nat} (le : loops ≤ more) (pc : Nat) (m : Machine) :
    Approx (c.exec chunks enter loops pc m) (c.exec chunks enter' more pc m) := by
  -- an instruction that was not cut off does the same with deeper calls
  have step : ∀ {pc m r m'}, (inside : pc < c.code.size) →
      c.code[pc].exec chunks enter c.code.size m = (r, m') → r ≠ .error .exhausted →
      c.code[pc].exec chunks enter' c.code.size m = (r, m') := by
    intro pc m r m' inside ran done
    have h := Instruction.approx_exec chunks deeper c.code.size c.code[pc] m
    rw [h.eq (by rw [ran]; exact done), ran]
  fun_induction Chunk.exec chunks enter c loops pc m generalizing more with
  | case1 loops pc m inside e m' ran =>
    by_cases cut : e = .exhausted
    · exact .inl (congrArg Except.error cut)
    · rw [exec_error inside (step inside ran (by simpa using cut))]
      exact .refl _
  | case2 loops pc m inside m' ran ih =>
    rw [exec_next inside (step inside ran nofun)]
    exact ih le
  | case3 loops pc m inside v m' ran =>
    rw [exec_finish inside (step inside ran nofun)]
    exact .refl _
  | case4 loops pc m inside target m' ran forward ih =>
    rw [exec_forward inside (step inside ran nofun) forward]
    exact ih le
  | case5 => exact .inl rfl
  | case6 pc m inside target m' ran back loops ih =>
    cases more with
    | zero => cases le
    | succ more =>
      rw [exec_back inside (step inside ran nofun) back]
      exact ih (Nat.le_of_succ_le_succ le)
  | case7 loops pc m outside =>
    rw [exec_outside outside]
    exact .refl _

/-- The depth of the run of a chunk is only a bound. -/
lemma Chunk.run_deepening (c : Chunk) :
    Deepening fun depth => c.run chunks depth := by
  refine Deepening.of_succ fun depth => ?_
  induction depth generalizing c with
  | zero => exact fun m => .inl rfl
  | succ depth ih =>
    intro m
    exact approx_exec chunks (fun c m => ih c m) c (Nat.le_succ depth) 0 m

/-- The depth of the run of a program is only a bound. -/
lemma Program.run_deepening (p : Program) : Deepening fun depth => p.run depth := by
  refine Deepening.of_succ fun depth scope => ?_
  have deeper : ∀ c m, Approx (Chunk.run p.functions depth c m)
      (Chunk.run p.functions (depth + 1) c m) :=
    fun c m => Chunk.run_deepening p.functions c _ _ (Nat.le_succ depth) m
  have main : Approx (p.finish depth scope.cells) (p.finish (depth + 1) scope.cells) :=
    Chunk.approx_exec p.functions deeper p.main (Nat.le_succ depth) 0 _
  rw [run_eq, run_eq]
  cases main with
  | inl cut =>
    left
    rw [cut]
    rfl
  | inr same =>
    rw [same]
    exact .refl _

end Machine

section Session

/-- The depth of the run of an expression on the machine is only a bound. -/
lemma Expr.compileAndRun_deepening (fns : FunctionTable) (e : Expr) :
    Deepening fun depth => e.compileAndRun fns depth := by
  intro depth more le s
  simp only [Expr.compileAndRun]
  apply Approx.bind (.refl _)
  intro scope s
  apply Approx.bind (.refl _)
  intro _ s
  apply Approx.bind (Program.run_deepening _ _ _ le s)
  intro execution s
  exact .refl _

/-- The depth of an evaluation is only a bound, whatever the engine. -/
lemma Engine.evaluate_deepening (fns : FunctionTable) (e : Expr) (engine : Engine) :
    Deepening fun depth => engine.evaluate fns depth e := by
  intro depth more le s
  cases engine with
  | interpreter =>
    apply Approx.mapError
    apply Approx.bind (e.run_deepening fns _ _ le s)
    intro v s
    exact .refl _
  | vm =>
    apply Approx.mapError
    exact e.compileAndRun_deepening fns _ _ le s

namespace Session

/-- The depth in which a statement is carried out is only a bound. -/
lemma perform_deepening (engine : Engine) (statement : Statement) :
    Deepening fun depth => perform engine depth statement := by
  intro depth more le s
  cases statement with
  | define d => exact .refl _
  | evaluate e =>
    apply Approx.bind (.refl _)
    intro here s
    apply Approx.bind
    · apply Approx.within
      apply Approx.mapError
      exact engine.evaluate_deepening here.functions e _ _ le _
    · intro result s
      exact .refl _

/-- The depth in which a line is carried out is only a bound. -/
lemma execute_deepening (engine : Engine) (line : String) :
    Deepening fun depth => execute engine depth line := by
  intro depth more le s
  simp only [execute]
  apply Approx.bind (.refl _)
  intro here s
  split
  · exact .refl _
  · split
    · exact .refl _
    · split
      · exact .refl _
      · cases Statement.parse here.functions (Text.trim line) with
        | error e => exact .refl _
        | ok statement => exact perform_deepening engine statement _ _ le s

end Session

end Session

end Reckon
