import Mathlib.Computability.StateTransition

/-!
# Simulations that may stutter

Two machines are related when every step of the first is either matched by one step of the second,
or leaves the second where it is. A rank that falls with every unmatched step keeps the first
machine from running on alone for ever. Both machines are deterministic, so the relation carries
runs over in both directions: `RankedSimulation.forward` and `RankedSimulation.backward`, and
`RankedSimulation.settle` for where a run ends.
-/

namespace StackToGo

open StateTransition Relation

/-- `R n s t` relates the states `s` and `t` at rank `n`. A step of `f` is matched by a step of
`g`, or lowers the rank; where `f` stops, so does `g`. -/
structure RankedSimulation {S T : Type} (f : S → Option S) (g : T → Option T)
    (R : Nat → S → T → Prop) :
    Prop where
  step : ∀ {n s t s'}, R n s t → f s = some s' → (∃ m t', g t = some t' ∧ R m s' t') ∨
    ∃ m < n, R m s' t
  stop : ∀ {n s t}, R n s t → f s = none → g t = none

namespace RankedSimulation

variable {S T : Type} {f : S → Option S} {g : T → Option T} {R : Nat → S → T → Prop}

/-- A run of the first machine is followed by the second. -/
theorem forward (h : RankedSimulation f g R) {n : Nat} {s s' : S} {t : T} (hst : R n s t)
    (hs : Reaches f s s') : ∃ m t', Reaches g t t' ∧ R m s' t' := by
  induction hs with
  | refl => exact ⟨n, t, .refl, hst⟩
  | tail _ hstep ih =>
    obtain ⟨m, t₁, ht₁, hR⟩ := ih
    rcases h.step hR hstep with ⟨k, t₂, ht₂, hR₂⟩ | ⟨k, -, hR₂⟩
    · exact ⟨k, t₂, ht₁.tail ht₂, hR₂⟩
    · exact ⟨k, t₁, ht₁, hR₂⟩

/-- A step of the second machine is reached by the first after steps that the second does not
see. -/
theorem catchUp (h : RankedSimulation f g R) {n : Nat} {s : S} {t t' : T} (hst : R n s t)
    (ht : g t = some t') : ∃ m s', Reaches f s s' ∧ R m s' t' := by
  induction n using Nat.strong_induction_on generalizing s with
  | _ n ih =>
    cases hs : f s with
    | none => rw [h.stop hst hs] at ht; cases ht
    | some s₁ =>
      rcases h.step hst hs with ⟨m, t₁, ht₁, hR⟩ | ⟨m, hm, hR⟩
      · rw [ht] at ht₁
        cases ht₁
        exact ⟨m, s₁, .single hs, hR⟩
      · obtain ⟨k, s₂, hs₂, hR₂⟩ := ih m hm hR
        exact ⟨k, s₂, .head hs hs₂, hR₂⟩

/-- A run of the second machine is followed by the first. -/
theorem backward (h : RankedSimulation f g R) {n : Nat} {s : S} {t t' : T} (hst : R n s t)
    (ht : Reaches g t t') : ∃ m s', Reaches f s s' ∧ R m s' t' := by
  induction ht with
  | refl => exact ⟨n, s, .refl, hst⟩
  | tail _ hstep ih =>
    obtain ⟨m, s₁, hs₁, hR⟩ := ih
    obtain ⟨k, s₂, hs₂, hR₂⟩ := h.catchUp hR hstep
    exact ⟨k, s₂, hs₁.trans hs₂, hR₂⟩

/-- Where the second machine has stopped, the first stops after finitely many steps. -/
theorem settle (h : RankedSimulation f g R) {n : Nat} {s : S} {t : T} (hst : R n s t)
    (ht : g t = none) : ∃ m s', Reaches f s s' ∧ f s' = none ∧ R m s' t := by
  induction n using Nat.strong_induction_on generalizing s with
  | _ n ih =>
    cases hs : f s with
    | none => exact ⟨n, s, .refl, hs, hst⟩
    | some s₁ =>
      rcases h.step hst hs with ⟨m, t₁, ht₁, -⟩ | ⟨m, hm, hR⟩
      · rw [ht] at ht₁; cases ht₁
      · obtain ⟨k, s₂, hs₂, hstop, hR₂⟩ := ih m hm hR
        exact ⟨k, s₂, .head hs hs₂, hstop, hR₂⟩

end RankedSimulation
end StackToGo
