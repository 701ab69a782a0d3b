import StackToGo.Proofs.Emit.Buffers
import StackToGo.Proofs.TypeText.Memory

/-!
# Answers that are remembered

Emission remembers the identifiers, Go types, sizes and packages that it has asked for. In a
faithful state all of them are right, so what is answered there is known without looking at the
state: a key is given its spelling, a type its expansion and its size. Every state of emission is
faithful, whatever stores are open around the place.

`Delivers` is what a step gives in faithful states, one rule per way to put steps together.
-/

namespace StackToGo.Emit

open StackToGo.Action StackToGo.Identifier
open StackToGo.TypeText (Settled Expands)

variable {env : Env} {s s' : State}

/-- The remembered answers are right: identifiers are spelled as their keys say, Go types and sizes
are those of the types, and the packages are those that stubs were given. -/
structure Faithful (env : Env) (s : State) : Prop where
  identifiers : s.identifiers.Sound env.dict
  types : Settled env.program.types env.target s.typeText
  packages : ∀ index package, s.packages.lookup index = some (some package) →
    ∃ asked stub, package = env.qualifier asked stub

/-- The package of an object is one that the qualifier gives. -/
theorem exists_qualifier_of_packageOf {o : Object} {package : String}
    (h : (packageOf env s o).1 = some package) :
    ∃ asked stub, package = env.qualifier asked stub := by
  cases o with
  | data d => cases h
  | function stub =>
    dsimp only [packageOf] at h
    split at h
    · cases h
      exact ⟨s.asked, stub, rfl⟩
    · cases h

/-- The remembered answers stay right. -/
theorem Faithful.evolves (hs : Faithful env s) (h : Evolves env s s') : Faithful env s' := by
  refine ⟨h.sound hs.identifiers, h.settled hs.types, ?_⟩
  have hpackages := hs.packages
  induction h with
  | refl | goType | sizeOf | identifier | stringOffset | require | addItem | note | routineTexts =>
    exact hpackages
  | trans h _ ih ih' =>
    exact ih' ⟨h.sound hs.identifiers, h.settled hs.types, ih hs hpackages⟩ (ih hs hpackages)
  | package? s index =>
    rw [perform_package?]
    split
    · exact hpackages
    · exact hpackages
    · intro index' package hlookup
      rw [List.lookup_cons] at hlookup
      split at hlookup
      · exact exists_qualifier_of_packageOf (Option.some.inj hlookup)
      · exact hpackages index' package hlookup
  | compound _ ih => exact ih ⟨hs.identifiers, hs.types, hpackages⟩ hpackages

/-- Nothing is remembered at the start. -/
theorem faithful_start (env : Env) : Faithful env (.start env.target) where
  identifiers _ hentry := by cases hentry
  types := TypeText.settled_empty
  packages _ _ hlookup := by cases hlookup

/-- The remembered answers are right in every state of emission. -/
theorem Reached.faithful (h : Reached env s) : Faithful env s := (faithful_start env).evolves h

/-- The stores around the place do not matter. -/
theorem Faithful.atDepth (hs : Faithful env s) (depth : Nat) :
    Faithful env { s with compoundDepth := depth } :=
  ⟨hs.identifiers, hs.types, hs.packages⟩

/-! ## Answers -/

/-- In a faithful state an identifier gives just its spelling. -/
theorem Faithful.yields_identifier (hs : Faithful env s) {name : NameId} {exported : Bool}
    {scope : Scope} {text : String} :
    (∃ s', Yields env (identifier name exported scope) s text s') ↔
      spelling env.dict ⟨name, exported, scope⟩ = .ok text := by
  rw [← (hs.identifiers.identifier ⟨name, exported, scope⟩).2]
  exact ⟨fun ⟨s', hs'⟩ => congrArg Prod.fst hs', fun htext => ⟨_, Prod.ext htext rfl⟩⟩

/-- In a faithful state a type gives just the Go type that it expands to. -/
theorem Faithful.yields_goType (hs : Faithful env s) {id : TypeId} {t : Go.Ty} :
    (∃ s', Yields env (goType id) s t s') ↔ Expands env.program.types env.target id t := by
  have hcomputes := (TypeText.computes_goType id s.typeText hs.types).1
  rw [← TypeText.expansion_eq_ok_iff trail_nil (Nat.lt_succ_self _), ← hcomputes]
  exact ⟨fun ⟨s', hs'⟩ => congrArg Prod.fst hs', fun ht => ⟨_, Prod.ext ht rfl⟩⟩

/-- In a faithful state a type gives just its size. -/
theorem Faithful.yields_sizeOf (hs : Faithful env s) {id : TypeId} {size : Nat} :
    (∃ s', Yields env (sizeOf id) s size s') ↔
    env.program.types.sizeOf env.target id = .ok size := by
  rw [← (TypeText.computes_sizeOf [] id s.typeText hs.types).1]
  exact ⟨fun ⟨s', hs'⟩ => congrArg Prod.fst hs', fun hsize => ⟨_, Prod.ext hsize rfl⟩⟩

/-! ## Results of steps in faithful states -/

section

variable {α β : Type} {env : Env} {P : α → Prop}

/-- What the step gives in a faithful state is as `P` says. -/
def Delivers (env : Env) (m : Emit α) (P : α → Prop) : Prop :=
  ∀ s a s', Faithful env s → Yields env m s a s' → P a

/-- A result is as is said if it is so. -/
theorem delivers_pure {a : α} (h : P a) : Delivers env (pure a) P := by
  intro s b s' hs hyields
  obtain ⟨rfl, -⟩ := yields_pure.1 hyields
  exact h

/-- A failure because of what is not supported gives nothing. -/
theorem delivers_unsupported (position : Position) (cause : Unsupported) :
    Delivers env (unsupported position cause) P :=
  fun _ _ _ _ hyields => absurd hyields not_yields_unsupported

/-- A failure because of a breach gives nothing. -/
theorem delivers_breach (cause : Breach) : Delivers env (breach cause) P :=
  fun _ _ _ _ hyields => absurd hyields not_yields_breach

/-- A sequence gives what the second step does for what the first one gives. -/
theorem delivers_bind {m : Emit α} {k : α → Emit β} {Q : β → Prop} (hm : Delivers env m P)
    (hsteady : Steady m) (hk : ∀ a, P a → Delivers env (k a) Q) : Delivers env (m >>= k) Q := by
  intro s b s' hs hyields
  obtain ⟨a, s₁, ha, hb⟩ := yields_bind.1 hyields
  exact hk a (hm s a s₁ hs ha) s₁ b s' (hs.evolves (hsteady.evolves ha)) hb

/-- A step whose result does not matter. -/
theorem delivers_skip {m : Emit α} {k : α → Emit β} {Q : β → Prop} (hsteady : Steady m)
    (hk : ∀ a, Delivers env (k a) Q) : Delivers env (m >>= k) Q :=
  delivers_bind (P := fun _ => True) (fun _ _ _ _ _ => trivial) hsteady fun a _ => hk a

/-- A map gives images of what the step gives. -/
theorem delivers_map {m : Emit α} {g : α → β} {Q : β → Prop} (hm : Delivers env m P)
    (hg : ∀ a, P a → Q (g a)) : Delivers env (g <$> m) Q := by
  intro s b s' hs hyields
  obtain ⟨a, ha, rfl⟩ := yields_map.1 hyields
  exact hg a (hm s a s' hs ha)

/-- A branch gives what both of its sides do. -/
theorem delivers_ite {c : Prop} {_ : Decidable c} {m m' : Emit α} (h : Delivers env m P)
    (h' : Delivers env m' P) : Delivers env (if c then m else m') P := by
  split
  · exact h
  · exact h'

/-- A result from outside is the one that there is. -/
theorem delivers_lift (r : Except Error α) : Delivers env (liftM r : Emit α) fun a => r = .ok a :=
  fun _ _ _ _ hyields => (yields_lift.1 hyields).1

/-- The types are those of the program. -/
theorem delivers_types : Delivers env types fun table => env.program.types = table :=
  fun _ _ _ _ hyields => (yields_types.1 hyields).1

/-- The kind of a type is that of the table. -/
theorem delivers_kind (id : TypeId) :
    Delivers env (kind id) fun k => env.program.types.kind id = .ok k := by
  refine delivers_bind delivers_types steady_types ?_
  rintro table rfl
  exact delivers_lift _

/-- The Go type of a type is what it expands to. -/
theorem delivers_goType (id : TypeId) :
    Delivers env (goType id) (Expands env.program.types env.target id) :=
  fun _ _ _ hs hyields => hs.yields_goType.1 ⟨_, hyields⟩

end

end StackToGo.Emit
