import StackToGo.Generate

/-!
# Steps that succeed

A step of emission either gives a result or fails, and it leaves a state in both cases. `Yields` is
the first of the two, with one equation per building block, so that a step that has succeeded can
be taken apart.
-/

namespace StackToGo.Emit

open StackToGo.Action

variable {α β : Type} {env : Env} {s s' : State}

/-- The step gives the result `a` on the state `s`, and leaves the state `s'`. -/
def Yields (env : Env) (m : Emit α) (s : State) (a : α) (s' : State) : Prop :=
  (m env).perform s = (.ok a, s')

/-- A step that only gives a result gives just that. -/
@[simp] theorem yields_pure {a b : α} : Yields env (pure a) s b s' ↔ a = b ∧ s = s' := by
  show ((.ok a, s) : Except Error α × State) = (.ok b, s') ↔ _
  simp

/-- A sequence gives what the second step gives after the first. -/
@[simp] theorem yields_bind {m : Emit α} {k : α → Emit β} {b : β} :
    Yields env (m >>= k) s b s' ↔ ∃ a s₁, Yields env m s a s₁ ∧ Yields env (k a) s₁ b s' := by
  show perform (m env >>= fun a => k a env) s = (.ok b, s') ↔ _
  rw [perform_bind]
  unfold Yields
  cases perform (m env) s with
  | mk r s₁ =>
    cases r with
    | error e => simp
    | ok a => simp [and_assoc]

/-- A map gives the image of a result. -/
@[simp] theorem yields_map {m : Emit α} {g : α → β} {b : β} :
    Yields env (g <$> m) s b s' ↔ ∃ a, Yields env m s a s' ∧ g a = b := by
  rw [← bind_pure_comp, yields_bind]
  simp only [yields_pure]
  constructor
  · rintro ⟨a, s₁, hm, hb, rfl⟩
    exact ⟨a, hm, hb⟩
  · rintro ⟨a, hm, hb⟩
    exact ⟨a, s', hm, hb, rfl⟩

/-- A result from outside is given as it is. -/
@[simp] theorem yields_lift {r : Except Error α} {a : α} :
    Yields env (liftM r : Emit α) s a s' ↔ r = .ok a ∧ s = s' := by
  cases r with
  | error e =>
    constructor
    · intro h
      cases h
    · rintro ⟨h, -⟩
      cases h
  | ok b =>
    show ((.ok b, s) : Except Error α × State) = (.ok a, s') ↔ _
    simp

/-- The environment is given as it is. -/
@[simp] theorem yields_read {a : Env} :
    Yields env (read : Emit Env) s a s' ↔ env = a ∧ s = s' := by
  show ((.ok env, s) : Except Error Env × State) = (.ok a, s') ↔ _
  simp

/-- The state is given as it is. -/
@[simp] theorem yields_get {a : State} :
    Yields env (get : Emit State) s a s' ↔ s = a ∧ s = s' := by
  show ((.ok s, s) : Except Error State × State) = (.ok a, s') ↔ _
  simp

/-- A change of the state leaves the changed state. -/
@[simp] theorem yields_modify {g : State → State} {u : Unit} :
    Yields env (modify g : Emit Unit) s u s' ↔ g s = s' := by
  show ((.ok (), g s) : Except Error Unit × State) = (.ok u, s') ↔ _
  simp

/-- A failure gives nothing. -/
@[simp] theorem not_yields_throw {e : Error} {a : α} : ¬Yields env (throw e : Emit α) s a s' := by
  intro h
  cases h

@[simp] theorem not_yields_unsupported {position : Position} {cause : Unsupported} {a : α} :
    ¬Yields env (unsupported position cause : Emit α) s a s' := not_yields_throw

@[simp] theorem not_yields_breach {cause : Breach} {a : α} :
    ¬Yields env (breach cause : Emit α) s a s' :=
  not_yields_throw

/-- The types are those of the program. -/
@[simp] theorem yields_types {a : TypeTable} :
    Yields env types s a s' ↔ env.program.types = a ∧ s = s' := by
  rw [types, yields_bind]
  simp [and_assoc]

/-- A kind is that of the table. -/
theorem yields_kind {id : TypeId} {k : Kind} :
    Yields env (kind id) s k s' ↔ env.program.types.kind id = .ok k ∧ s = s' := by
  unfold kind
  simp only [yields_bind, yields_types]
  constructor
  · rintro ⟨_, _, ⟨rfl, rfl⟩, hkind⟩
    exact yields_lift.1 hkind
  · rintro ⟨hkind, rfl⟩
    exact ⟨_, _, ⟨rfl, rfl⟩, yields_lift.2 ⟨hkind, rfl⟩⟩

end StackToGo.Emit
