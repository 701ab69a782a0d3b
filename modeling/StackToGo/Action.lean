import StackToGo.Error

/-!
# Actions

An action reads and changes a state and either gives a result or fails. Unlike a transaction it
keeps its state when it fails, so what happened before the failure stays visible.
-/

namespace StackToGo

/-- An action on a state of type `σ` with a result of type `α`. -/
abbrev Action (σ α : Type) := ExceptT Error (StateM σ) α

namespace Action

/-- Runs an action on a state. -/
def perform {σ α : Type} (m : Action σ α) (s : σ) : Except Error α × σ := m.run.run s

/-- An action on a part of the state. -/
def zoom {σ τ α : Type} (part : τ → σ) (put : σ → τ → τ) (m : Action σ α) : Action τ α :=
  ExceptT.mk fun s =>
    let (r, s') := m.perform (part s)
    (r, put s' s)

/-- Changes the error that an action fails with. -/
def mapError {σ α : Type} (m : Action σ α) (f : Error → Error) : Action σ α :=
  ExceptT.mk fun s =>
    let (r, s') := m.perform s
    (r.mapError f, s')

/-- Changes the state after an action, whether it has failed or not. -/
def andAfter {σ α : Type} (m : Action σ α) (change : σ → σ) : Action σ α :=
  ExceptT.mk fun s =>
    let (r, s') := m.perform s
    (r, change s')

/-! ## What actions do to a state -/

section

variable {σ τ α β : Type}

@[simp] theorem perform_pure (a : α) (s : σ) : perform (pure a : Action σ α) s = (.ok a, s) := rfl

@[simp] theorem perform_throw (e : Error) (s : σ) :
    perform (throw e : Action σ α) s = (.error e, s) :=
  rfl

/-- The second action runs on the state that the first one leaves, unless the first one fails. -/
theorem perform_bind (m : Action σ α) (k : α → Action σ β) (s : σ) :
    perform (m >>= k) s = match perform m s with
      | (.ok a, s') => perform (k a) s'
      | (.error e, s') => (.error e, s') := by
  show (match perform m s with
    | (r, s') => (ExceptT.bindCont k r : StateM σ (Except Error β)) s') = _
  rcases perform m s with ⟨r, s'⟩
  cases r <;> rfl

@[simp] theorem perform_get (s : σ) : perform (get : Action σ σ) s = (.ok s, s) := rfl

@[simp] theorem perform_modify (f : σ → σ) (s : σ) :
    perform (modify f : Action σ Unit) s = (.ok (), f s) :=
  rfl

/-- What only reads or fails leaves the state alone. -/
@[simp] theorem perform_liftExcept (r : Except Error α) (s : σ) :
    perform (liftM r : Action σ α) s = (r, s) := by
  cases r <;> rfl

@[simp] theorem perform_zoom (part : τ → σ) (put : σ → τ → τ) (m : Action σ α) (t : τ) :
    perform (m.zoom part put) t = ((perform m (part t)).1, put (perform m (part t)).2 t) := rfl

@[simp] theorem perform_mapError (m : Action σ α) (f : Error → Error) (s : σ) :
    perform (m.mapError f) s = ((perform m s).1.mapError f, (perform m s).2) := rfl

@[simp] theorem perform_andAfter (m : Action σ α) (change : σ → σ) (s : σ) :
    perform (m.andAfter change) s = ((perform m s).1, change (perform m s).2) := rfl

end

end Action
end StackToGo
