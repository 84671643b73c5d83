import Reckon.Operator

/-!
# Runs

A run of type `Run σ ε α` changes a state `σ` and ends in a value of `α` or stops early: with an
error of its kind `ε`, in a trap, or because the depth it was allowed is exhausted. The state reached
is there in every case, so what a run did before it stopped stays done.
-/

namespace Reckon

/-- Why a run ended without a value. -/
inductive Stop (ε : Type) where
  | error (e : ε)
  | trap (t : Trap)
  | exhausted
  deriving DecidableEq

/-- The same stop with its error seen as one of another kind. -/
def Stop.map {ε ε' : Type} (f : ε → ε') : Stop ε → Stop ε'
  | .error e => .error (f e)
  | .trap t => .trap t
  | .exhausted => .exhausted

/-- A computation on a state that may stop early. -/
abbrev Run (σ ε α : Type) := ExceptT (Stop ε) (StateM σ) α

namespace Run

variable {σ ε α β : Type}

/-- Stops with an error. -/
def fail (e : ε) : Run σ ε α := throw (.error e)

/-- The run that has the given outcome and leaves the state alone. -/
def ofExcept (result : Except (Stop ε) α) : Run σ ε α := fun s => (result, s)

/-- The value of an operation that may trap. -/
def trapping (result : Except Trap α) : Run σ ε α :=
  match result with
  | .ok v => pure v
  | .error t => throw (.trap t)

/-- The same run with its errors seen as errors of another kind. -/
def mapError {ε' : Type} (f : ε → ε') (m : Run σ ε α) : Run σ ε' α := fun s =>
  match m s with
  | (.ok a, s') => (.ok a, s')
  | (.error e, s') => (.error (e.map f), s')

/-- The same run with its errors as values. Only a trap or a lack of depth stops it. -/
def attempt {ε' : Type} (m : Run σ ε α) : Run σ ε' (Except ε α) := fun s =>
  match m s with
  | (.ok a, s') => (.ok (.ok a), s')
  | (.error (.error e), s') => (.ok (.error e), s')
  | (.error (.trap t), s') => (.error (.trap t), s')
  | (.error .exhausted, s') => (.error .exhausted, s')

/-- A run on a part of the state. -/
def within {τ : Type} (part : σ → τ) (replace : σ → τ → σ) (m : Run τ ε α) : Run σ ε α := fun s =>
  let (result, t) := m (part s)
  (result, replace s t)

/-- A run that only has a value leaves the state. -/
@[simp] theorem pure_apply (a : α) (s : σ) : (pure a : Run σ ε α) s = (.ok a, s) := rfl

/-- A run that fails leaves the state. -/
@[simp] theorem fail_apply (e : ε) (s : σ) : (fail e : Run σ ε α) s = (.error (.error e), s) := rfl

/-- A run that stops leaves the state. -/
@[simp] theorem throw_apply (e : Stop ε) (s : σ) : (throw e : Run σ ε α) s = (.error e, s) := rfl

/-- To ask for the state leaves it. -/
@[simp] theorem get_apply (s : σ) : (get : Run σ ε σ) s = (.ok s, s) := rfl

/-- To set the state replaces it. -/
@[simp] theorem set_apply (s s' : σ) : (set s' : Run σ ε PUnit) s = (.ok ⟨⟩, s') := rfl

/-- To modify the state applies the function to it. -/
@[simp] theorem modify_apply (f : σ → σ) (s : σ) : (modify f : Run σ ε PUnit) s = (.ok ⟨⟩, f s) :=
  rfl

/-- An operation that may trap leaves the state alone. -/
theorem trapping_apply (result : Except Trap α) (s : σ) :
    (trapping result : Run σ ε α) s = (result.mapError .trap, s) := by
  cases result <;> rfl

/-- A sequence runs its second part from the state that the first one left, unless that stopped. -/
theorem bind_apply (m : Run σ ε α) (f : α → Run σ ε β) (s : σ) :
    (m >>= f) s = match m s with
      | (.ok a, s') => f a s'
      | (.error e, s') => (.error e, s') := by
  show (ExceptT.bind m f : StateM σ (Except (Stop ε) β)) s = _
  simp only [ExceptT.bind, ExceptT.mk, bind, StateT.bind]
  rcases m s with ⟨_ | a, s'⟩ <;> rfl

/-- A sequence has a value if both its parts have. -/
theorem bind_eq_ok_iff {m : Run σ ε α} {f : α → Run σ ε β} {s s' : σ} {b : β} :
    (m >>= f) s = (.ok b, s') ↔ ∃ a mid, m s = (.ok a, mid) ∧ f a mid = (.ok b, s') := by
  rw [bind_apply]
  rcases m s with ⟨stop | a, mid⟩
  · exact ⟨nofun, nofun⟩
  · refine ⟨fun h => ⟨a, mid, rfl, h⟩, ?_⟩
    rintro ⟨a, mid, ⟨⟩, h⟩
    exact h

/-- A function of the value of a run changes neither its effect nor where it stops. -/
theorem map_apply (f : α → β) (m : Run σ ε α) (s : σ) :
    (f <$> m) s = match m s with
      | (.ok a, s') => (.ok (f a), s')
      | (.error e, s') => (.error e, s') := by
  rw [← bind_pure_comp, bind_apply]
  rfl

end Run

end Reckon
