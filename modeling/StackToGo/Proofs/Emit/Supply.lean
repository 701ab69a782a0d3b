import StackToGo.Proofs.Emit.Scene
import StackToGo.Proofs.StringPool

/-!
# Asking for what is called

A call of a routine or of the accessor of the string table is written by a step that has asked for
the routine or for the string before. `Supply` relates what was asked for between two states to the
calls that were written meanwhile, in both directions: all that is called was asked for, and all
that was asked for is called.

A step `Supplies` its calls if this relation goes on to hold after it. Most steps ask for nothing
and add nothing to the file (`Quiet`); others take an expression and give one with the same calls
(`Wraps`).
-/

namespace StackToGo.Emit

open StackToGo.Action StackToGo.Go

variable {α β : Type} {env : Env} {s s' s'' : State}

/-! ## What was asked for -/

/-- From `s` to `s'` just those routines and strings were asked for that the calls are for. The
places of strings that are called for are those that `P` allows, each an offset in a string. -/
structure Supply (P : StringId → Int → Prop) (s s' : State) (calls : List Call) : Prop where
  needs_grow : s.needs.requests ⊆ s'.needs.requests
  strings_grow : s.strings.Extends s'.strings
  routine : ∀ c ∈ calls, ∀ family id, c.name = Routine.name family id →
    (family, id) ∈ s'.needs.requests
  string : ∀ c ∈ calls, c.name = "str" → ∃ id offset start, P id offset ∧
    s'.strings.offsets.lookup id = some start ∧
    c.argument = some (start + offset)
  called : ∀ family id, (family, id) ∈ s'.needs.requests →
    (family, id) ∈ s.needs.requests ∨ ∃ c ∈ calls, c.name = Routine.name family id
  pooled : s'.strings.isEmpty = false → s.strings.isEmpty = false ∨ ∃ c ∈ calls, c.name = "str"

variable {P : StringId → Int → Prop} {calls calls' : List Call}

/-- Without steps nothing is supplied. -/
theorem Supply.refl (s : State) : Supply P s s [] where
  needs_grow := List.Subset.refl _
  strings_grow := .refl _
  routine _ hc := absurd hc List.not_mem_nil
  string _ hc := absurd hc List.not_mem_nil
  called _ _ h := .inl h
  pooled h := .inl h

/-- What is supplied first and later is supplied together. -/
theorem Supply.trans (h : Supply P s s' calls) (h' : Supply P s' s'' calls') :
    Supply P s s'' (calls ++ calls') where
  needs_grow := List.Subset.trans h.needs_grow h'.needs_grow
  strings_grow := h.strings_grow.trans h'.strings_grow
  routine c hc family id hname := by
    rcases List.mem_append.1 hc with hc | hc
    · exact h'.needs_grow (h.routine c hc family id hname)
    · exact h'.routine c hc family id hname
  string c hc hname := by
    rcases List.mem_append.1 hc with hc | hc
    · obtain ⟨id, offset, start, hP, hlookup, hargument⟩ := h.string c hc hname
      exact ⟨id, offset, start, hP, h'.strings_grow.offsets id start hlookup, hargument⟩
    · exact h'.string c hc hname
  called family id hneed := by
    rcases h'.called family id hneed with hneed | ⟨c, hc, hname⟩
    · refine (h.called family id hneed).imp_right ?_
      rintro ⟨c, hc, hname⟩
      exact ⟨c, List.mem_append_left _ hc, hname⟩
    · exact .inr ⟨c, List.mem_append_right _ hc, hname⟩
  pooled hpooled := by
    rcases h'.pooled hpooled with hpooled | ⟨c, hc, hname⟩
    · refine (h.pooled hpooled).imp_right ?_
      rintro ⟨c, hc, hname⟩
      exact ⟨c, List.mem_append_left _ hc, hname⟩
    · exact .inr ⟨c, List.mem_append_right _ hc, hname⟩

/-- Lists with the same calls of support functions have the same such calls in them. -/
theorem mem_iff_of_supports (h : supports calls = supports calls') {c : Call}
    (hc : isSupportName c.name) : c ∈ calls ↔ c ∈ calls' := by
  have hmem : c ∈ supports calls ↔ c ∈ supports calls' := by rw [h]
  simpa only [mem_supports, hc, and_true] using hmem

/-- Calls of other functions do not matter. -/
theorem Supply.congr (h : Supply P s s' calls) (hcalls : supports calls = supports calls') :
    Supply P s s' calls' := by
  have hroutine {c : Call} {family : Routine.Family} {id : TypeId}
      (hname : c.name = Routine.name family id) :
      c ∈ calls ↔ c ∈ calls' :=
    mem_iff_of_supports hcalls (hname ▸ Routine.isSupportName_name family id)
  have hstring {c : Call} (hname : c.name = "str") : c ∈ calls ↔ c ∈ calls' :=
    mem_iff_of_supports hcalls (hname ▸ rfl)
  refine ⟨h.needs_grow, h.strings_grow, ?_, ?_, ?_, ?_⟩
  · intro c hc family id hname
    exact h.routine c ((hroutine hname).2 hc) family id hname
  · intro c hc hname
    exact h.string c ((hstring hname).2 hc) hname
  · intro family id hneed
    refine (h.called family id hneed).imp_right ?_
    rintro ⟨c, hc, hname⟩
    exact ⟨c, (hroutine hname).1 hc, hname⟩
  · intro hpooled
    refine (h.pooled hpooled).imp_right ?_
    rintro ⟨c, hc, hname⟩
    exact ⟨c, (hstring hname).1 hc, hname⟩

/-- Only requests matter. -/
theorem Supply.of_eq (h : Supply P s s' calls) (hneeds : s''.needs = s'.needs)
    (hstrings : s''.strings = s'.strings) : Supply P s s'' calls :=
  ⟨hneeds ▸ h.needs_grow, hstrings ▸ h.strings_grow, hneeds ▸ h.routine, hstrings ▸ h.string,
    hneeds ▸ h.called, hstrings ▸ h.pooled⟩

/-! ## Quiet steps -/

/-- What is written and asked for. -/
def State.account (s : State) : List (Item Stmt Expr) × Routine.Needs × StringPool :=
  (s.items, s.needs, s.strings)

/-- Only what is written and asked for matters. -/
theorem Supply.of_account (h : Supply P s s' calls) (haccount : s''.account = s'.account) :
    Supply P s s'' calls :=
  h.of_eq (congrArg (·.2.1) haccount) (congrArg (·.2.2) haccount)

/-- The step asks for no routine and no string, and adds nothing to the file. -/
structure Quiet (m : Emit α) : Prop where
  steady : Steady m
  account_eq : ∀ env s, ((m env).perform s).2.account = s.account

/-- A quiet step leaves what is written and asked for. -/
theorem Quiet.yields {m : Emit α} {a : α} (hm : Quiet m) (h : Yields env m s a s') :
    s'.account = s.account := by
  have haccount := hm.account_eq env s
  rwa [h] at haccount

@[simp] theorem quiet_pure (a : α) : Quiet (pure a : Emit α) := ⟨steady_pure a, fun _ _ => rfl⟩

@[simp] theorem quiet_throw (e : Error) : Quiet (throw e : Emit α) :=
  ⟨steady_throw e, fun _ _ => rfl⟩

@[simp] theorem quiet_unsupported (position : Position) (cause : Unsupported) :
    Quiet (unsupported position cause : Emit α) := quiet_throw _

@[simp] theorem quiet_breach (cause : Breach) : Quiet (breach cause : Emit α) := quiet_throw _

/-- What only gives a result or fails is quiet. -/
@[simp] theorem quiet_lift (r : Except Error α) : Quiet (liftM r : Emit α) := by
  refine ⟨steady_lift r, fun env s => ?_⟩
  cases r <;> rfl

@[simp] theorem quiet_read : Quiet (read : Emit Env) := ⟨steady_read, fun _ _ => rfl⟩

@[simp] theorem quiet_get : Quiet (get : Emit State) := ⟨steady_get, fun _ _ => rfl⟩

@[simp] theorem quiet_types : Quiet types := ⟨steady_types, fun _ _ => rfl⟩

/-- A sequence of quiet steps is quiet. -/
@[simp] theorem quiet_bind {m : Emit α} {k : α → Emit β} (hm : Quiet m) (hk : ∀ a, Quiet (k a)) :
    Quiet (m >>= k) := by
  refine ⟨steady_bind hm.steady fun a => (hk a).steady, fun env s => ?_⟩
  show (perform (m env >>= fun a => k a env) s).2.account = s.account
  have hs := hm.account_eq env s
  rw [perform_bind]
  cases hrun : perform (m env) s with
  | mk r s₁ =>
    rw [hrun] at hs
    cases r with
    | error e => exact hs
    | ok a => exact ((hk a).account_eq env s₁).trans hs

/-- A map of a quiet step is quiet. -/
@[simp] theorem quiet_map {m : Emit α} (g : α → β) (hm : Quiet m) : Quiet (g <$> m) := by
  rw [← bind_pure_comp]
  exact quiet_bind hm fun a => quiet_pure (g a)

/-- A branch between quiet steps is quiet. -/
@[simp] theorem quiet_ite {c : Prop} {_ : Decidable c} {m m' : Emit α} (h : Quiet m)
    (h' : Quiet m') : Quiet (if c then m else m') := by
  split
  · exact h
  · exact h'

@[simp] theorem quiet_goType (id : TypeId) : Quiet (goType id) :=
  ⟨steady_goType id, fun _ _ => rfl⟩

@[simp] theorem quiet_sizeOf (id : TypeId) : Quiet (sizeOf id) :=
  ⟨steady_sizeOf id, fun _ _ => rfl⟩

@[simp] theorem quiet_identifier (name : NameId) (exported : Bool) (scope : Scope) :
    Quiet (identifier name exported scope) :=
  ⟨steady_identifier name exported scope, fun _ _ => rfl⟩

@[simp] theorem quiet_note (e : Event) : Quiet (note e) := ⟨steady_note e, fun _ _ => rfl⟩

/-- Looking up the package of an object is quiet. -/
@[simp] theorem quiet_package? (index : Nat) : Quiet (package? index) := by
  refine ⟨steady_package? index, fun env s => ?_⟩
  obtain ⟨packages, asked, h⟩ := package?_frame env s index
  rw [h]
  rfl

@[simp] theorem quiet_kind (id : TypeId) : Quiet (kind id) := by simp [kind]

/-- Looking up an object is quiet. -/
@[simp] theorem quiet_object (index : Nat) : Quiet (object index) := by
  refine ⟨steady_object index, fun env s => ?_⟩
  rw [perform_object]

@[simp] theorem quiet_isMain (name : NameId) : Quiet (isMain name) := by simp [isMain]

/-- The comment with a position is quiet. -/
@[simp] theorem quiet_positionComment (position : Position) :
    Quiet (positionComment position) := by
  simp [positionComment]

@[simp] theorem quiet_localName (l : Local) : Quiet (localName l) := by simp [localName]

/-- The bits of a pointer are quiet. -/
@[simp] theorem quiet_pointerBits (value : Int) : Quiet (pointerBits value) := by
  simp [pointerBits]

/-- The type of a tree is quiet. -/
@[simp] theorem quiet_resultType (type : Option TypeId) (position : Position) :
    Quiet (resultType type position) := by
  unfold resultType
  split <;> simp

/-- The check of an operator is quiet. -/
@[simp] theorem quiet_checkBinary (op : BinaryOp) (type : TypeId) (position : Position) :
    Quiet (checkBinary op type position) := by
  unfold checkBinary
  refine quiet_bind (quiet_kind type) fun k => ?_
  split <;> simp

/-- The parameters of a function type are quiet. -/
@[simp] theorem quiet_parametersOf (type : TypeId) : Quiet (parametersOf type) := by
  unfold parametersOf
  refine quiet_bind quiet_types fun table => quiet_bind (quiet_lift _) fun t => ?_
  split <;> simp

/-- The type of the items behind a pointer is quiet. -/
@[simp] theorem quiet_itemType (pointer : TypeId) (position : Position) :
    Quiet (itemType pointer position) := by
  unfold itemType
  refine quiet_ite (quiet_unsupported _ _) (quiet_bind quiet_types fun table => ?_)
  refine quiet_bind (quiet_lift _) fun pointee => quiet_bind (quiet_lift _) fun t => ?_
  split <;> simp

/-- The kind of a field behind a pointer is quiet. -/
@[simp] theorem quiet_fieldKind (pointer : TypeId) (index : Nat) (position : Position) :
    Quiet (fieldKind pointer index position) := by
  unfold fieldKind
  refine quiet_bind quiet_types fun table => quiet_bind (quiet_lift _) fun aggregate =>
    quiet_bind (quiet_lift _) fun t => ?_
  split
  · split <;> simp
  · simp
  · simp

/-- The bytes of a union are quiet. -/
@[simp] theorem quiet_unionValue (member : TypeId) (v : Value) (size : Nat) (position : Position) :
    Quiet (unionValue member v size position) := by
  unfold unionValue
  refine quiet_bind (quiet_kind _) fun k => quiet_bind (quiet_sizeOf _) fun width => ?_
  split <;> simp

/-- The result of a function is quiet. -/
@[simp] theorem quiet_resultOf (f : Frame) : Quiet (resultOf f) := by
  unfold resultOf
  split <;> simp

/-- The parameters of a function are quiet. -/
@[simp] theorem quiet_parameters (names : List NameId) (types : List TypeId) :
    Quiet (parameters names types) := by
  induction types generalizing names with
  | nil => simp [parameters]
  | cons type rest ih =>
    rw [parameters]
    refine quiet_bind (quiet_goType type) fun t => ?_
    have hrest (name : String) :
        Quiet (do return ⟨some name, t⟩ :: (← parameters names.tail rest)) :=
      quiet_bind (ih _) fun _ => quiet_pure _
    split
    · exact quiet_ite (quiet_bind (quiet_pure _) hrest) (quiet_bind (quiet_identifier _ _ _) hrest)
    · exact quiet_bind (quiet_pure _) hrest

/-- The header of a function is quiet. -/
@[simp] theorem quiet_header (f : Frame) (name : String) : Quiet (header f name) := by
  unfold header
  refine quiet_bind (quiet_resultOf f) fun result => quiet_bind (quiet_isMain _) fun isEntry => ?_
  refine quiet_ite ?_ (quiet_bind (quiet_parameters _ _) fun _ => quiet_pure _)
  split <;> simp

/-- The lines that declare locals are quiet. -/
@[simp] theorem quiet_localLines (locals : List Local) : Quiet (localLines locals) := by
  induction locals with
  | nil => simp [localLines]
  | cons l rest ih =>
    rw [localLines]
    refine quiet_bind (quiet_localName l) fun name => quiet_bind (quiet_goType _) fun t => ?_
    exact quiet_bind (quiet_positionComment _) fun _ => quiet_bind ih fun _ => quiet_pure _

/-- The text of a label is quiet. -/
@[simp] theorem quiet_labelText (l : Label) : Quiet (labelText l) := by
  unfold labelText
  split <;> simp

/-- The key of a case is quiet. -/
@[simp] theorem quiet_caseKey (k : Kind) (position : Position) (v : Value) :
    Quiet (caseKey k position v) := by
  unfold caseKey
  split
  · unfold wrapCase
    split <;> simp
  · unfold wrapCase
    split <;> simp
  · simp

/-- The keys of all cases are quiet. -/
@[simp] theorem quiet_caseKeys (k : Kind) (position : Position) (cases : List (Value × Label)) :
    Quiet (caseKeys k position cases) := by
  induction cases with
  | nil => simp [caseKeys]
  | cons first rest ih =>
    rw [caseKeys]
    exact quiet_bind (quiet_caseKey _ _ _) fun _ => quiet_bind ih fun _ => quiet_pure _

/-! ## Steps that give an expression with the same calls -/

/-- The step is quiet, and the calls of its results are the given ones, as far as they are of
support functions. -/
structure Wraps (calls : List Call) (m : Emit α) (g : α → List Call) : Prop where
  quiet : Quiet m
  supports_eq : ∀ env s a s', Yields env m s a s' → supports (g a) = supports calls

variable {g : α → List Call} {g' : β → List Call}

/-- A result wraps calls if it has them. -/
theorem wraps_pure {a : α} (h : supports (g a) = supports calls) : Wraps calls (pure a) g := by
  refine ⟨quiet_pure a, fun env s b s' hb => ?_⟩
  obtain ⟨rfl, -⟩ := yields_pure.1 hb
  exact h

/-- A failure because of what is not supported has no result. -/
theorem wraps_unsupported (position : Position) (cause : Unsupported) :
    Wraps calls (unsupported position cause : Emit α) g :=
  ⟨quiet_unsupported position cause, fun _ _ _ _ h => absurd h not_yields_unsupported⟩

/-- A failure because of a breach has no result. -/
theorem wraps_breach (cause : Breach) : Wraps calls (breach cause : Emit α) g :=
  ⟨quiet_breach cause, fun _ _ _ _ h => absurd h not_yields_breach⟩

/-- A quiet step whose result has no calls may come first. -/
theorem wraps_skip {m : Emit α} {k : α → Emit β} (hm : Quiet m) (hk : ∀ a, Wraps calls (k a) g') :
    Wraps calls (m >>= k) g' := by
  refine ⟨quiet_bind hm fun a => (hk a).quiet, fun env s b s' h => ?_⟩
  obtain ⟨a, s₁, -, hb⟩ := yields_bind.1 h
  exact (hk a).supports_eq env s₁ b s' hb

/-- A step that wraps calls may come before one that wraps its result. -/
theorem wraps_bind {m : Emit α} {k : α → Emit β} (hm : Wraps calls m g)
    (hk : ∀ a, Wraps (g a) (k a) g') : Wraps calls (m >>= k) g' := by
  refine ⟨quiet_bind hm.quiet fun a => (hk a).quiet, fun env s b s' h => ?_⟩
  obtain ⟨a, s₁, ha, hb⟩ := yields_bind.1 h
  exact ((hk a).supports_eq env s₁ b s' hb).trans (hm.supports_eq env s a s₁ ha)

/-- A branch wraps what both of its sides wrap. -/
theorem wraps_ite {c : Prop} {_ : Decidable c} {m m' : Emit α} (h : Wraps calls m g)
    (h' : Wraps calls m' g) : Wraps calls (if c then m else m') g := by
  split
  · exact h
  · exact h'

/-! ## Steps that supply their calls -/

/-- If just the calls `calls` were supplied since some state, then after the step just those of its
result are. -/
def Supplies (P : StringId → Int → Prop) (calls : List Call) (m : Emit α) (g : α → List Call) :
    Prop :=
  ∀ env s₀ s a s', s.identifiers.Sound env.dict → Supply P s₀ s calls → Yields env m s a s' →
    s'.items = s.items ∧ s'.identifiers.Sound env.dict ∧ Supply P s₀ s' (g a)

/-- A result supplies calls if it has them. -/
theorem supplies_pure {a : α} (h : supports calls = supports (g a)) :
    Supplies P calls (pure a) g := by
  intro env s₀ s b s' hsound hs hb
  obtain ⟨rfl, rfl⟩ := yields_pure.1 hb
  exact ⟨rfl, hsound, hs.congr h⟩

/-- A failure because of what is not supported supplies what is wanted. -/
theorem supplies_unsupported (position : Position) (cause : Unsupported) :
    Supplies P calls (unsupported position cause : Emit α) g :=
  fun _ _ _ _ _ _ _ h => absurd h not_yields_unsupported

/-- A failure because of a breach supplies what is wanted. -/
theorem supplies_breach (cause : Breach) : Supplies P calls (breach cause : Emit α) g :=
  fun _ _ _ _ _ _ _ h => absurd h not_yields_breach

/-- What wraps the supplied calls asks for no others. -/
theorem Wraps.supplies {m : Emit α} (hm : Wraps calls m g) : Supplies P calls m g := by
  intro env s₀ s a s' hsound hs h
  have haccount := hm.quiet.yields h
  exact ⟨congrArg Prod.fst haccount, (hm.quiet.steady.evolves h).sound hsound,
    (hs.of_account haccount).congr (hm.supports_eq env s a s' h).symm⟩

/-- A step may be followed by what goes on with its calls alone. -/
theorem supplies_chain {m : Emit α} {k : α → Emit β} (hm : Supplies P calls m g)
    (hk : ∀ a, Supplies P (g a) (k a) g') : Supplies P calls (m >>= k) g' := by
  intro env s₀ s b s' hsound hs h
  obtain ⟨a, s₁, ha, hb⟩ := yields_bind.1 h
  obtain ⟨hitems, hsound₁, hs₁⟩ := hm env s₀ s a s₁ hsound hs ha
  obtain ⟨hitems', hsound', hs'⟩ := hk a env s₀ s₁ b s' hsound₁ hs₁ hb
  exact ⟨hitems'.trans hitems, hsound', hs'⟩

/-- What a step supplies by itself, it supplies after other calls. -/
theorem Supplies.frame {m : Emit α} (hm : Supplies P [] m g) (calls : List Call) :
    Supplies P calls m fun a => calls ++ g a := by
  intro env s₀ s a s' hsound hs h
  obtain ⟨hitems, hsound', hs'⟩ := hm env s s a s' hsound (.refl s) h
  exact ⟨hitems, hsound', hs.trans hs'⟩

/-- A step may be followed by what goes on with its calls behind the earlier ones. -/
theorem supplies_bind {m : Emit α} {k : α → Emit β} (hm : Supplies P [] m g)
    (hk : ∀ a, Supplies P (calls ++ g a) (k a) g') : Supplies P calls (m >>= k) g' :=
  supplies_chain (hm.frame calls) hk

/-- A quiet step, of whose results something may be known. -/
theorem supplies_after {m : Emit α} {k : α → Emit β} {Q : α → Prop} (hm : Quiet m)
    (hQ : ∀ env s a s', s.identifiers.Sound env.dict → Yields env m s a s' → Q a)
    (hk : ∀ a, Q a → Supplies P calls (k a) g') : Supplies P calls (m >>= k) g' := by
  intro env s₀ s b s' hsound hs h
  obtain ⟨a, s₁, ha, hb⟩ := yields_bind.1 h
  have haccount := hm.yields ha
  obtain ⟨hitems, hsound', hs'⟩ := hk a (hQ env s a s₁ hsound ha) env s₀ s₁ b s'
    ((hm.steady.evolves ha).sound hsound) (hs.of_account haccount) hb
  exact ⟨hitems.trans (congrArg Prod.fst haccount), hsound', hs'⟩

/-- A quiet step whose result has no calls may come first. -/
theorem supplies_skip {m : Emit α} {k : α → Emit β} (hm : Quiet m)
    (hk : ∀ a, Supplies P calls (k a) g') : Supplies P calls (m >>= k) g' :=
  supplies_after (Q := fun _ => True) hm (fun _ _ _ _ _ _ => trivial) fun a _ => hk a

/-- What wraps calls that were not supplied may come first. -/
theorem supplies_wraps {m : Emit α} {k : α → Emit β} {inner : List Call} (hm : Wraps inner m g)
    (hk : ∀ a, supports (g a) = supports inner → Supplies P calls (k a) g') :
    Supplies P calls (m >>= k) g' :=
  supplies_after hm.quiet (fun env s a s' _ h => hm.supports_eq env s a s' h) hk

/-- A result from outside may come first. -/
theorem supplies_lift {r : Except Error α} {k : α → Emit β}
    (hk : ∀ a, r = .ok a → Supplies P calls (k a) g') :
    Supplies P calls (liftM r >>= k) g' :=
  supplies_after (quiet_lift r) (fun _ _ _ _ _ h => (yields_lift.1 h).1) hk

/-- A branch supplies what both of its sides supply. -/
theorem supplies_ite {c : Prop} {_ : Decidable c} {m m' : Emit α} (h : Supplies P calls m g)
    (h' : Supplies P calls m' g) : Supplies P calls (if c then m else m') g := by
  split
  · exact h
  · exact h'

/-- A map supplies the calls of the images. -/
theorem supplies_map {m : Emit α} {f : α → β} (hm : Supplies P calls m fun a => g' (f a)) :
    Supplies P calls (f <$> m) g' := by
  intro env s₀ s b s' hsound hs h
  obtain ⟨a, ha, rfl⟩ := yields_map.1 h
  exact hm env s₀ s a s' hsound hs ha

/-- Only the calls of support functions matter. -/
theorem Supplies.congr {m : Emit α} {g' : α → List Call} (hm : Supplies P calls m g)
    (h : ∀ a, supports (g a) = supports (g' a)) : Supplies P calls m g' := by
  intro env s₀ s a s' hsound hs hyields
  obtain ⟨hitems, hsound', hs'⟩ := hm env s₀ s a s' hsound hs hyields
  exact ⟨hitems, hsound', hs'.congr (h a)⟩

/-- The state after a store that computes its address once. -/
def State.left (s : State) : State := { s with compoundDepth := s.compoundDepth - 1 }

/-- Inside a store nothing is different. -/
theorem supplies_inCompound {m : Emit α} (hm : Supplies P calls m g) :
    Supplies P calls (inCompound m) g := by
  intro env s₀ s a s' hsound hs h
  obtain ⟨s₁, hs₁⟩ := Scene.exists_yields_of_inCompound h
  have hafter : ((inCompound m env).perform s).2 =
      ((m env).perform { s with compoundDepth := s.compoundDepth + 1 }).2.left :=
    rfl
  rw [h, hs₁] at hafter
  obtain ⟨hitems, hsound', hs'⟩ :=
    hm env s₀ { s with compoundDepth := s.compoundDepth + 1 } a s₁ hsound
    (hs.of_account rfl) hs₁
  rw [show s' = s₁.left from hafter]
  exact ⟨hitems, hsound', hs'.of_account rfl⟩

/-! ## Requests -/

/-- Asking for a routine supplies the call of it. -/
theorem supplies_require (family : Routine.Family) (id : TypeId) :
    Supplies P [] (require family id) fun name => [⟨name, none⟩] := by
  intro env s₀ s name s' hsound hs h
  obtain ⟨⟨⟩, s₁, hneeds, hname⟩ := yields_bind.1 h
  obtain rfl := yields_modify.1 hneeds
  obtain ⟨rfl, rfl⟩ := yields_pure.1 hname
  refine ⟨rfl, hsound, ?_⟩
  have hrequire :
      Supply P s { s with needs := s.needs.require family id }
        [⟨Routine.name family id, none⟩] := by
    refine ⟨fun _ h => Routine.Needs.mem_require.2 (.inl h), .refl _, ?_, ?_, ?_, .inl⟩
    · rintro c hc family' id' hname
      rw [List.mem_singleton.1 hc] at hname
      obtain ⟨rfl, rfl⟩ := Routine.name_inj hname
      exact Routine.Needs.mem_require.2 (.inr ⟨rfl, rfl⟩)
    · intro c hc hname
      rw [List.mem_singleton.1 hc] at hname
      exact absurd hname (Routine.name_ne_str family id)
    · intro family' id' hneed
      refine (Routine.Needs.mem_require.1 hneed).imp_right ?_
      rintro ⟨rfl, rfl⟩
      exact ⟨_, List.mem_singleton_self _, rfl⟩
  exact hs.trans hrequire

/-- Asking for a string supplies the access to a place of it. -/
theorem supplies_stringOffset {id : StringId} {offset : Int} (hP : P id offset) :
    Supplies P [] (stringOffset id) fun start => [⟨"str", some (start + offset)⟩] := by
  intro env s₀ s start s' hsound hs h
  have hstart : (perform (StringPool.offset env.dict id) s.strings).1 = .ok start :=
    congrArg Prod.fst h
  obtain rfl : { s with strings := (perform (StringPool.offset env.dict id) s.strings).2 } = s' :=
    congrArg Prod.snd h
  refine ⟨rfl, hsound, ?_⟩
  -- The offset is not looked at here: whether it stays inside of the literal is left to `P`.
  have hplaced :
      Supply P s { s with strings := (perform (StringPool.offset env.dict id) s.strings).2 }
      [⟨"str", some (start + offset)⟩] := by
    refine ⟨List.Subset.refl _, StringPool.extends_offset _ _ _, ?_, ?_, fun _ _ => .inl, ?_⟩
    · intro c hc family id' hname
      rw [List.mem_singleton.1 hc] at hname
      exact absurd hname.symm (Routine.name_ne_str family id')
    · intro c hc _
      rw [List.mem_singleton.1 hc]
      exact ⟨id, offset, start, hP, StringPool.lookup_of_offset hstart, rfl⟩
    · intro _
      exact .inr ⟨_, List.mem_singleton_self _, rfl⟩
  exact hs.trans hplaced

end StackToGo.Emit
