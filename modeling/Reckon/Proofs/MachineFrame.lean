import Reckon.Proofs.Compiled
import Reckon.Proofs.Defined
import Reckon.Proofs.Slots

/-!
# What a machine leaves alone

A program runs on the slots of the session. Its instructions may be any, compiled or not, and the run may
end anywhere, so what is shown of it is kept by each instruction.

* `Machine.Blind`: a run that sees nothing of the slots. A call is one (`Machine.blind_call`), whatever
  the chunk that it enters does with slots of its own, and so is every instruction that neither loads nor
  stores (`Instruction.blind_exec`).
* `Chunk.exec_keeps`: what loads and stores of a chunk keep, a run of it keeps.
* `Cells.Framed`: what may differ between the slots before and after (`Program.run_confined`).
-/

namespace Reckon

open Run

namespace Machine

variable {α β : Type}

/-- The run does not see the slots of the activation at work: with others it does the same, and it
leaves them as they are. -/
def Blind (run : Run Machine Fault α) : Prop :=
  ∀ m cells, run { m with cells } = ((run m).1, { (run m).2 with cells })

namespace Blind

variable {run : Run Machine Fault α} {f : α → Run Machine Fault β}

/-- A run that only has a value looks at no slot. -/
lemma pure (a : α) : Blind (pure a) := fun _ _ => rfl

/-- A run that only fails looks at no slot. -/
lemma fail (e : Fault) : Blind (Run.fail e : Run Machine Fault α) := fun _ _ => rfl

/-- A sequence looks at no slot if its parts do not. -/
lemma bind (first : Blind run) (second : ∀ a, Blind (f a)) : Blind (run >>= f) := by
  intro m cells
  rw [bind_apply, bind_apply, first m cells]
  rcases run m with ⟨_ | a, m'⟩
  · rfl
  · exact second a m' cells

/-- What is not seen is kept. -/
lemma cells_eq (h : Blind run) (m : Machine) : (run m).2.cells = m.cells :=
  congrArg (·.2.cells) (h m m.cells)

/-- What looks at no slot leaves all of them as they are. -/
lemma safe (h : Blind run) (P : Cells → Prop) : Safe (fun m => P m.cells) (fun _ => True) run := by
  refine fun m kept => ⟨?_, fun _ _ => trivial⟩
  show P (run m).2.cells
  rw [h.cells_eq m]
  exact kept

end Blind

/-- To read a register looks at no slot. -/
lemma blind_read (r : Register) : Blind (read r) := by
  intro m cells
  simp only [read, bind_apply, get_apply]
  cases m.registers[r]? <;> rfl

/-- To write a register looks at no slot. -/
lemma blind_write (r : Register) (v : Int64) : Blind (write r v) := by
  intro m cells
  simp only [write, bind_apply, get_apply]
  split <;> rfl

/-- To jump looks at no slot. -/
lemma blind_goTo (size target : Nat) : Blind (goTo size target) := by
  rw [goTo]
  split
  · exact .pure _
  · exact .fail _

/-- To hand over arguments looks at no slot of the caller. -/
lemma blind_bindArguments (pairs : List (Slot × Register)) (cells : Cells) :
    Blind (bindArguments pairs cells) := by
  induction pairs generalizing cells with
  | nil => exact .pure cells
  | cons pair pairs ih =>
    refine (blind_read pair.2).bind fun v => ?_
    split
    · exact ih _
    · exact .fail _

/-- The chunk that a new activation runs may do anything, with slots that are its own. -/
lemma blind_activate (run : Run Machine Fault (Option Int64)) (registers : Nat) (cells : Cells) :
    Blind (activate run registers cells) := fun _ _ => rfl

/-- A call looks at no slot of the caller. -/
lemma blind_call (chunks : ChunkTable) (enter : Chunk → Run Machine Fault (Option Int64)) (f : String)
    (args : List Register) : Blind (call chunks enter f args) := by
  rw [call]
  split
  · exact .fail _
  · refine (blind_bindArguments _ _).bind fun cells => (blind_activate _ _ _).bind fun v? => ?_
    cases v? with
    | some v => exact .pure v
    | none => exact .fail _

end Machine

open Machine

section Steps

variable {chunks : ChunkTable} {enter : Chunk → Run Machine Fault (Option Int64)} {size : Nat}
  {P : Cells → Prop}

/-- An instruction that is neither a load nor a store does not see the slots. -/
lemma Instruction.blind_exec {i : Instruction} (quiet : i.access? = none) :
    Blind (i.exec chunks enter size) := by
  cases i with
  | loadConst => exact (blind_write _ _).bind fun _ => .pure _
  | loadVar | storeVar => cases quiet
  | compute s dst left right =>
    refine (blind_read _).bind fun l => (blind_read _).bind fun r m cells => ?_
    simp only [bind_apply, get_apply, trapping_apply]
    rcases s.compute l r m.remarks with _ | ⟨v, remarks⟩
    · rfl
    · -- the remarks are in the machine before the result is written
      have written := (blind_write dst v).bind (fun _ => .pure Flow.next) { m with remarks } cells
      simp only [bind_apply] at written
      exact written
  | move => exact (blind_read _).bind fun _ => (blind_write _ _).bind fun _ => .pure _
  | branch condition target =>
    refine (blind_read _).bind fun v => ?_
    split
    · exact blind_goTo size target
    · exact .pure _
  | jump target => exact blind_goTo size target
  | call => exact (blind_call _ _ _ _).bind fun _ => (blind_write _ _).bind fun _ => .pure _
  | ret => exact (blind_read _).bind fun _ => .pure _
  | print => exact (blind_read _).bind fun _ => .bind (fun _ _ => rfl) fun _ => .pure _
  | fail => exact .fail _

/-- A property of slots outlasts that one of these accesses is made, whatever is stored. -/
structure Cells.Outlasts (P : Cells → Prop) (accesses : List (Access Slot)) : Prop where
  load : ∀ i, .load i ∈ accesses → ∀ cells v?, cells[i]? = some v? → P cells →
    P (cells.setIfInBounds i (some (v?.getD 0)))
  store : ∀ i, .store i ∈ accesses → ∀ cells v, P cells → P (cells.setIfInBounds i (some v))

/-- An instruction keeps what outlasts its own access. -/
lemma Instruction.exec_keeps {i : Instruction} (h : Cells.Outlasts P i.access?.toList) :
    Safe (fun m => P m.cells) (fun _ => True) (i.exec chunks enter size) := by
  cases i with
  | loadVar dst slot =>
    have loaded : Safe (fun m => P m.cells) (fun _ => True) (load slot) := by
      intro m kept
      refine ⟨?_, fun _ _ => trivial⟩
      simp only [load, bind_apply, get_apply]
      cases held : m.cells[slot]? with
      | none => exact kept
      | some v? => exact h.load slot (List.mem_singleton_self _) m.cells v? held kept
    exact loaded.bind fun v => ((blind_write dst v).bind fun _ => .pure _).safe P
  | storeVar slot src =>
    refine ((blind_read src).safe P).bind fun v => .bind (fun m kept => ?_) fun _ => .pure _
    refine ⟨?_, fun _ _ => trivial⟩
    simp only [store, bind_apply, get_apply]
    split
    · exact h.store slot (List.mem_singleton_self _) m.cells v kept
    · exact kept
  | _ => exact (blind_exec rfl).safe P

/-- A run of a chunk keeps what outlasts the accesses in its code, wherever it starts and however it
ends. -/
lemma Chunk.exec_keeps {c : Chunk} (h : Cells.Outlasts P c.accesses) (loops pc : Nat) :
    Safe (fun m => P m.cells) (fun _ => True) (c.exec chunks enter loops pc) := by
  refine fun m kept => ⟨?_, fun _ _ => trivial⟩
  have step : ∀ {pc m result m'}, (inside : pc < c.code.size) → P m.cells →
      c.code[pc].exec chunks enter c.code.size m = (result, m') → P m'.cells := by
    intro pc m result m' inside kept ran
    have fewer : ∀ a ∈ c.code[pc].access?.toList, a ∈ c.accesses := fun a mem =>
      List.mem_filterMap.2 ⟨_, Array.getElem_mem_toList inside, by simpa using mem⟩
    have own : Cells.Outlasts P c.code[pc].access?.toList :=
      ⟨fun i mem => h.load i (fewer _ mem), fun i mem => h.store i (fewer _ mem)⟩
    have safe : Safe (fun m => P m.cells) (fun _ => True)
        (c.code[pc].exec chunks enter c.code.size) := Instruction.exec_keeps own
    have after := (safe m kept).1
    rwa [ran] at after
  fun_induction Chunk.exec chunks enter c loops pc m with
  | case1 loops pc m inside e m' ran => exact step inside kept ran
  | case2 loops pc m inside m' ran ih => exact ih (step inside kept ran)
  | case3 loops pc m inside v m' ran => exact step inside kept ran
  | case4 loops pc m inside target m' ran forward ih => exact ih (step inside kept ran)
  | case5 pc m inside target m' ran back => exact step inside kept ran
  | case6 pc m inside target m' ran back loops ih => exact ih (step inside kept ran)
  | case7 loops pc m outside => exact kept

end Steps

namespace Cells

/-- What may differ between the slots before and after: their number is the same, no live one is absent,
and a slot that changed is one of those accessed. If it is not stored to, then it was absent and holds 0
now. -/
structure Framed (accesses : List (Access Slot)) (before after : Cells) : Prop where
  size : after.size = before.size
  live : ∀ (i : Slot) (v : Int64), before[i]? = some (some v) → ∃ w, after[i]? = some (some w)
  accessed : ∀ i : Slot, after[i]? ≠ before[i]? → .load i ∈ accesses ∨ .store i ∈ accesses
  zeroed : ∀ i : Slot, .store i ∉ accesses → after[i]? ≠ before[i]? →
    before[i]? = some none ∧ after[i]? = some (some 0)

variable {accesses : List (Access Slot)} {before between after cells : Cells} {i : Slot}

/-- Cells are framed by themselves. -/
lemma Framed.refl (accesses : List (Access Slot)) (cells : Cells) : Framed accesses cells cells where
  size := rfl
  live _ v live := ⟨v, live⟩
  accessed _ changed := absurd rfl changed
  zeroed _ _ changed := absurd rfl changed

/-- Cells that are framed twice are framed. -/
lemma Framed.trans (h : Framed accesses before between) (h' : Framed accesses between after) :
    Framed accesses before after where
  size := h'.size.trans h.size
  live i v live := by
    obtain ⟨w, live⟩ := h.live i v live
    exact h'.live i w live
  accessed i changed := by
    by_cases first : between[i]? = before[i]?
    · exact h'.accessed i (first ▸ changed)
    · exact h.accessed i first
  zeroed i unstored changed := by
    by_cases first : between[i]? = before[i]?
    · rw [← first] at changed ⊢
      exact h'.zeroed i unstored changed
    · obtain ⟨absent, zero⟩ := h.zeroed i unstored first
      by_cases second : after[i]? = between[i]?
      · exact ⟨absent, second.trans zero⟩
      · -- a slot that holds 0 is not absent
        cases zero.symm.trans (h'.zeroed i unstored second).1

/-- A slot that is accessed may hold another value, but one that is not stored to only a 0 that it did not
hold. -/
lemma framed_put {w : Int64} (accessed : .load i ∈ accesses ∨ .store i ∈ accesses)
    (unstored : .store i ∉ accesses → cells[i]? = some (some w) ∨ (cells[i]? = some none ∧ w = 0)) :
    Framed accesses cells (cells.setIfInBounds i (some w)) := by
  have elsewhere : ∀ j, i ≠ j → (cells.setIfInBounds i (some w))[j]? = cells[j]? :=
    fun j other => Array.getElem?_setIfInBounds_ne other
  have here : ∀ {v?}, cells[i]? = some v? → (cells.setIfInBounds i (some w))[i]? = some (some w) :=
    fun held => Array.getElem?_setIfInBounds_self_of_lt (Array.getElem?_eq_some_iff.1 held).1
  refine ⟨Array.size_setIfInBounds, fun j v live => ?_, fun j changed => ?_,
    fun j unstored' changed => ?_⟩
  · by_cases same : i = j
    · subst same
      exact ⟨w, here live⟩
    · exact ⟨v, (elsewhere j same).trans live⟩
  · by_cases same : i = j
    · exact same ▸ accessed
    · exact absurd (elsewhere j same) changed
  · by_cases same : i = j
    · subst same
      obtain held | ⟨absent, rfl⟩ := unstored unstored'
      · exact absurd ((here held).trans held.symm) changed
      · exact ⟨absent, here absent⟩
    · exact absurd (elsewhere j same) changed

/-- Being framed outlasts the accesses of the frame. -/
lemma outlasts_framed (before : Cells) (accesses : List (Access Slot)) :
    Outlasts (Framed accesses before) accesses where
  load i mem cells v? held framed := by
    refine framed.trans (framed_put (.inl mem) fun _ => ?_)
    cases v? with
    | none => exact .inr ⟨held, rfl⟩
    | some v => exact .inl held
  store _ mem _ _ framed := framed.trans (framed_put (.inr mem) fun unstored => absurd mem unstored)

end Cells

/-- A run of a program leaves alone what its main chunk does not name. Whatever the code is, on whatever
table of variables, and wherever the run stops, with its output, in a fault, in a trap or cut off: the
names keep their slots, there are as many cells as before and none that was live is absent. A cell that
changed is one that the main chunk loads or stores, and if it only loads it, the cell was absent and holds
0. A call sees nothing of the slots of its caller and leaves them as they are, so no instruction of a
function reaches those of the session, even if it is stored under the name of the main chunk. -/
theorem Program.run_confined (p : Program) (depth : Nat) (s : Scope) :
    let t := (p.run depth s).2
    (t.names = s.names ∧ ∀ n, t.slot n = s.slot n) ∧
    t.cells.size = s.cells.size ∧
    (∀ (i : Slot) (v : Int64), s.cells[i]? = some (some v) → ∃ w, t.cells[i]? = some (some w)) ∧
    (∀ i : Slot, t.cells[i]? ≠ s.cells[i]? →
      .load i ∈ p.main.accesses ∨ .store i ∈ p.main.accesses) ∧
    (∀ i : Slot, .store i ∉ p.main.accesses → t.cells[i]? ≠ s.cells[i]? →
      s.cells[i]? = some none ∧ t.cells[i]? = some (some 0)) ∧
    ∀ calls f args dst size,
      Blind ((Instruction.call f args dst).exec p.functions (Chunk.run p.functions calls) size) := by
  intro t
  have framed : Cells.Framed p.main.accesses s.cells (p.finish depth s.cells).2.cells :=
    (Chunk.exec_keeps (Cells.outlasts_framed s.cells p.main.accesses) depth 0
      (p.start s.cells) (.refl _ _)).1
  have left : t = s.withCells (p.finish depth s.cells).2.cells := congrArg Prod.snd (p.run_eq depth s)
  have names : t.names = s.names := by rw [left, Scope.names_withCells]
  have cells : t.cells = (p.finish depth s.cells).2.cells := by
    rw [left, Scope.cells_withCells (framed.size.trans s.size_cells)]
  rw [← cells] at framed
  refine ⟨⟨names, fun n => by rw [Scope.slot, Scope.slot, names]⟩, framed.size, framed.live,
    framed.accessed, framed.zeroed, fun calls f args dst size => Instruction.blind_exec rfl⟩

/-- Code that counts a variable down in a loop, calls a function stored under the name of the main chunk,
which stores in the first of its slots, loads an absent variable and then a slot that is not there. The
variable in the first slot has its value still. -/
theorem Program.run_confined_fault :
    let main : Chunk := ⟨"main", [], #[.loadConst 0 1, .loadVar 1 2, .compute (.value .sub) 1 1 0,
      .storeVar 2 1, .branch 1 6, .jump 1, .call "main" [0] 2, .loadVar 3 1, .loadVar 3 5], 4, 3⟩
    let function : Chunk := ⟨"main", [1], #[.loadConst 0 9, .storeVar 0 0, .ret 0], 1, 2⟩
    let p : Program := ⟨main, Catalogue.empty.insert ("main", function)⟩
    let s : Scope := ((Scope.empty.assign "x" 7).reserve "y").assign "z" 2
    let t := (p.run 2 s).2
    (p.run 2 s).1 = .error (.error (.invalidSlot 5)) ∧ t.slot "x" = 0 ∧ t.cells.size = 3 ∧
      t.cells[0]? = some (some 7) ∧ (s.cells[1]? = some none ∧ t.cells[1]? = some (some 0)) ∧
      ∃ w, t.cells[2]? = some (some w) := by
  intro main function p s t
  obtain ⟨⟨-, slot⟩, size, live, accessed, zeroed, -⟩ := p.run_confined 2 s
  have unnamed : ¬(Access.load 0 ∈ p.main.accesses ∨ Access.store 0 ∈ p.main.accesses) := by decide
  have unstored : Access.store 1 ∉ p.main.accesses := by decide
  let enter := Chunk.run p.functions 2
  let calling : Machine := ⟨#[1, 0, 0, 0], #[some 7, none, some 0], #[], #[]⟩
  have entered : enter function ⟨#[0], #[none, some 1], #[], #[]⟩ =
      (.ok (some 9), ⟨#[9], #[some 9, some 1], #[], #[]⟩) := calc
    _ = function.exec p.functions (Chunk.run p.functions 1) 1 1 ⟨#[9], #[none, some 1], #[], #[]⟩ :=
      Chunk.exec_next (by decide) rfl
    _ = function.exec p.functions (Chunk.run p.functions 1) 1 2 ⟨#[9], #[some 9, some 1], #[], #[]⟩ :=
      Chunk.exec_next (by decide) rfl
    _ = _ := Chunk.exec_finish (by decide) rfl
  have called : Machine.call p.functions enter "main" [0] calling = (.ok 9, calling) :=
    call_of_enter (Catalogue.find?_insert_self ("main", function) _) rfl entered rfl rfl
  let run (loops pc : Nat) (registers : Array Int64) (cells : Cells) :=
    main.exec p.functions enter loops pc ⟨registers, cells, #[], #[]⟩
  have ran : p.finish 2 s.cells =
      (.error (.error (.invalidSlot 5)), ⟨#[1, 0, 9, 0], #[some 7, some 0, some 0], #[], #[]⟩) := calc
    _ = run 2 1 #[1, 0, 0, 0] #[some 7, none, some 2] := Chunk.exec_next (by decide) rfl
    _ = run 2 2 #[1, 2, 0, 0] #[some 7, none, some 2] := Chunk.exec_next (by decide) rfl
    _ = run 2 3 #[1, 1, 0, 0] #[some 7, none, some 2] := Chunk.exec_next (by decide) rfl
    _ = run 2 4 #[1, 1, 0, 0] #[some 7, none, some 1] := Chunk.exec_next (by decide) rfl
    _ = run 2 5 #[1, 1, 0, 0] #[some 7, none, some 1] := Chunk.exec_next (by decide) rfl
    _ = run 1 1 #[1, 1, 0, 0] #[some 7, none, some 1] := Chunk.exec_back (by decide) rfl (by decide)
    _ = run 1 2 #[1, 1, 0, 0] #[some 7, none, some 1] := Chunk.exec_next (by decide) rfl
    _ = run 1 3 #[1, 0, 0, 0] #[some 7, none, some 1] := Chunk.exec_next (by decide) rfl
    _ = run 1 4 #[1, 0, 0, 0] #[some 7, none, some 0] := Chunk.exec_next (by decide) rfl
    _ = run 1 6 #[1, 0, 0, 0] #[some 7, none, some 0] := Chunk.exec_forward (by decide) rfl (by decide)
    _ = run 1 7 #[1, 0, 9, 0] #[some 7, none, some 0] :=
      Chunk.exec_next (by decide) (Instruction.exec_call called (by decide))
    _ = run 1 8 #[1, 0, 9, 0] #[some 7, some 0, some 0] := Chunk.exec_next (by decide) rfl
    _ = _ := Chunk.exec_error (by decide) rfl
  have result : p.run 2 s =
      (.error (.error (.invalidSlot 5)), s.withCells #[some 7, some 0, some 0]) := by
    rw [p.run_eq, ran]
    rfl
  have zero : t.cells[1]? = some (some 0) := by
    rw [show t = s.withCells _ from congrArg Prod.snd result]
    rfl
  have changed : t.cells[1]? ≠ s.cells[1]? := by
    rw [zero]
    decide
  exact ⟨congrArg Prod.fst result, slot "x", size, not_imp_comm.1 (accessed 0) unnamed,
    zeroed 1 unstored changed, live 2 2 rfl⟩

end Reckon
