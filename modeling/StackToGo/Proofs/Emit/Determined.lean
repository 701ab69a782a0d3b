import StackToGo.Proofs.Emit.Faithful

/-!
# Results that depend on names only

Two things that a step gives can depend on what happened before: the package of a stub, which is
asked for once, and the place of a string literal, which is set at its first use. Both are kept
from then on (`Keeps`). So if two runs of one step end in states from which a common later state
has kept all names, they give the same result (`Determined`): given the names of that later state,
the result is determined by what the step is about.

Steps come in families here, since the steps that are compared may be about different things.
-/

namespace StackToGo.Emit

open StackToGo.Action
open StackToGo.TypeText (Expands)

/-! ## Names that are kept -/

/-- All packages and places of literals that were given out are still the same. -/
structure Keeps (s s' : State) : Prop where
  packages : ∀ index known, s.packages.lookup index = some known →
    s'.packages.lookup index = some known
  offsets : ∀ id start, s.strings.offsets.lookup id = some start →
    s'.strings.offsets.lookup id = some start

section

variable {env : Env} {s s' s'' : State}

/-- A state keeps what it has given out. -/
theorem Keeps.refl (s : State) : Keeps s s := ⟨fun _ _ h => h, fun _ _ h => h⟩

/-- What is kept on the way and further on is kept. -/
theorem Keeps.trans (h : Keeps s s') (h' : Keeps s' s'') : Keeps s s'' :=
  ⟨fun index known hknown => h'.packages index known (h.packages index known hknown),
    fun id start hstart => h'.offsets id start (h.offsets id start hstart)⟩

/-- Emission keeps what it has given out. -/
theorem Evolves.keeps (h : Evolves env s s') : Keeps s s' := by
  induction h with
  | refl | goType | sizeOf | identifier | require | addItem | note | routineTexts =>
    exact ⟨fun _ _ h => h, fun _ _ h => h⟩
  | trans _ _ ih ih' => exact ih.trans ih'
  | stringOffset s id =>
    exact ⟨fun _ _ h => h, (StringPool.extends_offset env.dict id s.strings).2⟩
  | package? s index =>
    obtain ⟨packages, asked, hframe⟩ := package?_frame env s index
    refine ⟨?_, fun _ _ h => by rwa [hframe]⟩
    intro index' known hknown
    rw [perform_package?]
    split
    · exact hknown
    · exact hknown
    · rename_i o hunknown ho
      -- What is new is about an object that was not known.
      have hne : (index' == index) = false := by
        rw [beq_eq_false_iff_ne]
        rintro rfl
        rw [hunknown] at hknown
        cases hknown
      rw [List.lookup_cons, hne]
      exact hknown
  | compound _ ih => exact ⟨ih.packages, ih.offsets⟩

/-- A steady step keeps what was given out. -/
theorem Steady.keeps {α : Type} {m : Emit α} {a : α} (hm : Steady m) (h : Yields env m s a s') :
    Keeps s s' :=
  (hm.evolves h).keeps

/-- A package that was asked for is known. -/
theorem lookup_of_package? {index : Nat} {package : Option String}
    (h : Yields env (package? index) s package s') :
    s'.packages.lookup index = some package := by
  rw [Yields, perform_package?] at h
  split at h
  · rename_i known hknown
    cases h
    exact hknown
  · cases h
  · cases h
    simp

/-- A literal that was asked for has its place. -/
theorem lookup_of_stringOffset {id : StringId} {start : Nat}
    (h : Yields env (stringOffset id) s start s') :
    s'.strings.offsets.lookup id = some start := by
  have hstart : (perform (StringPool.offset env.dict id) s.strings).1 = .ok start :=
    congrArg Prod.fst h
  have hpool : (perform (StringPool.offset env.dict id) s.strings).2 = s'.strings :=
    congrArg (fun r => State.strings (Prod.snd r)) h
  rw [← hpool]
  exact StringPool.lookup_of_offset hstart

end

/-! ## Families of steps with one result -/

/-- All steps of the family give the same result, if the names are those of the state `final`. -/
structure Determined (env : Env) (final : State) {C α : Type} (m : C → Emit α) : Prop where
  steady : ∀ c, Steady (m c)
  unique : ∀ {c c' s s' t t' a b}, Faithful env s → Faithful env t → Keeps s' final →
    Keeps t' final →
    Yields env (m c) s a s' → Yields env (m c') t b t' → a = b

section

variable {env : Env} {final : State} {C α β : Type}

/-- Results that are described without the state. -/
theorem determined_of_delivers {m : C → Emit α} {P : α → Prop} (hsteady : ∀ c, Steady (m c))
    (h : ∀ c, Delivers env (m c) P) (hunique : ∀ a b, P a → P b → a = b) :
    Determined env final m where
  steady := hsteady
  unique hs ht _ _ ha hb := hunique _ _ (h _ _ _ _ hs ha) (h _ _ _ _ ht hb)

/-- A result that is the same for all is determined. -/
theorem determined_pure (a : α) : Determined env final fun _ : C => (pure a : Emit α) :=
  determined_of_delivers (P := (a = ·)) (fun _ => steady_pure a) (fun _ => delivers_pure rfl)
    fun _ _ h h' => h.symm.trans h'

/-- Steps that fail because of what is not supported are determined, though their errors may
differ. -/
theorem determined_unsupported (position : C → Position) (cause : C → Unsupported) :
    Determined env final fun c => (unsupported (position c) (cause c) : Emit α) :=
  determined_of_delivers (fun _ => steady_unsupported _ _)
    (fun _ => delivers_unsupported (P := fun _ => False) _ _) fun _ _ h => h.elim

/-- A step that fails because of a breach is determined. -/
theorem determined_breach (cause : Breach) :
    Determined env final fun _ : C => (breach cause : Emit α) :=
  determined_of_delivers (fun _ => steady_breach _)
    (fun _ => delivers_breach (P := fun _ => False) _) fun _ _ h => h.elim

/-- A sequence of determined steps is determined. -/
theorem determined_bind {m : C → Emit α} {k : C → α → Emit β} (hm : Determined env final m)
    (hk : ∀ a, Determined env final fun c => k c a) :
    Determined env final fun c => m c >>= k c where
  steady c := steady_bind (hm.steady c) fun a => (hk a).steady c
  unique {c c'} s s' t t' b b' hs ht hs' ht' h h' := by
    obtain ⟨a, s₁, ha, hb⟩ := yields_bind.1 h
    obtain ⟨a', t₁, ha', hb'⟩ := yields_bind.1 h'
    have hsame : a = a' :=
      hm.unique hs ht ((((hk a).steady c).keeps hb).trans hs')
        ((((hk a').steady c').keeps hb').trans ht')
      ha ha'
    subst hsame
    exact (hk a).unique (hs.evolves ((hm.steady c).evolves ha))
      (ht.evolves ((hm.steady c').evolves ha')) hs' ht' hb hb'

/-- A branch between determined steps is determined. -/
theorem determined_ite {p : Prop} {_ : Decidable p} {m m' : C → Emit α}
    (h : Determined env final m) (h' : Determined env final m') :
    Determined env final fun c => if p then m c else m' c := by
  split
  · exact h
  · exact h'

/-- A result from outside is determined. -/
theorem determined_lift (r : Except Error α) :
    Determined env final fun _ : C => (liftM r : Emit α) :=
  determined_of_delivers (fun _ => steady_lift r) (fun _ => delivers_lift r) fun _ _ h h' =>
    Except.ok.inj (h.symm.trans h')

/-- The environment is determined. -/
theorem determined_read : Determined env final fun _ : C => (read : Emit Env) :=
  determined_of_delivers (P := (env = ·)) (fun _ => steady_read)
    (fun _ _ _ _ _ h => (yields_read.1 h).1) fun _ _ h h' => h.symm.trans h'

/-- The types of the program are determined. -/
theorem determined_types : Determined env final fun _ : C => types :=
  determined_of_delivers (fun _ => steady_types) (fun _ => delivers_types) fun _ _ h h' =>
    h.symm.trans h'

/-- The kind of a type is determined. -/
theorem determined_kind (id : TypeId) : Determined env final fun _ : C => kind id :=
  determined_bind determined_types fun table => determined_lift (table.kind id)

/-- A type has one Go type. -/
theorem expands_unique {id : TypeId} {t u : Go.Ty} (ht : Expands env.program.types env.target id t)
    (hu : Expands env.program.types env.target id u) : t = u := by
  rw [← TypeText.expansion_eq_ok_iff trail_nil (Nat.lt_succ_self _)] at ht hu
  exact Except.ok.inj (ht.symm.trans hu)

/-- The Go type of a type is determined, remembered or not. -/
theorem determined_goType (id : TypeId) : Determined env final fun _ : C => goType id :=
  determined_of_delivers (fun _ => steady_goType id) (fun _ => delivers_goType id) fun _ _ =>
    expands_unique

/-- The size of a type is determined, remembered or not. -/
theorem determined_sizeOf (id : TypeId) : Determined env final fun _ : C => sizeOf id :=
  determined_of_delivers (fun _ => steady_sizeOf id)
    (fun _ _ _ _ hs h => hs.yields_sizeOf.1 ⟨_, h⟩) fun _ _ h h' => Except.ok.inj (h.symm.trans h')

/-- An identifier is determined, remembered or not. -/
theorem determined_identifier (name : NameId) (exported : Bool) (scope : Scope) :
    Determined env final fun _ : C => identifier name exported scope :=
  determined_of_delivers (fun _ => steady_identifier _ _ _)
    (fun _ _ _ _ hs h => hs.yields_identifier.1 ⟨_, h⟩) fun _ _ h h' =>
      Except.ok.inj (h.symm.trans h')

/-- The name of a routine is determined. -/
theorem determined_require (family : Routine.Family) (id : TypeId) :
    Determined env final fun _ : C => require family id := by
  refine determined_of_delivers (P := (Routine.name family id = ·))
    (fun _ => steady_require family id) ?_ fun _ _ h h' => h.symm.trans h'
  intro _ s text s' _ h
  obtain ⟨_, _, -, htext⟩ := yields_bind.1 h
  exact (yields_pure.1 htext).1

/-- The package of an object is determined, as it is asked for once. -/
theorem determined_package? (index : Nat) : Determined env final fun _ : C => package? index where
  steady _ := steady_package? index
  unique _ _ hs' ht' h h' := by
    have hpackage := hs'.packages index _ (lookup_of_package? h)
    rw [ht'.packages index _ (lookup_of_package? h')] at hpackage
    exact (Option.some.inj hpackage).symm

/-- The place of a string is determined, as it is given out once. -/
theorem determined_stringOffset (id : StringId) :
    Determined env final fun _ : C => stringOffset id where
  steady _ := steady_stringOffset id
  unique _ _ hs' ht' h h' := by
    have hstart := hs'.offsets id _ (lookup_of_stringOffset h)
    rw [ht'.offsets id _ (lookup_of_stringOffset h')] at hstart
    exact (Option.some.inj hstart).symm

/-! ## All steps that write no operand -/

/-- The object at a place is determined. -/
theorem determined_object (index : Nat) : Determined env final fun _ : C => object index := by
  unfold object
  refine determined_bind determined_read fun env' => ?_
  split
  · exact determined_pure _
  · exact determined_breach _

/-- It is determined whether a name is that of the function that a program starts with. -/
theorem determined_isMain (name : NameId) : Determined env final fun _ : C => isMain name :=
  determined_bind determined_read fun _ =>
    determined_bind (determined_lift _) fun _ => determined_pure _

/-- An object with its package is determined. -/
theorem determined_objectAs (index : Nat) (name : NameId) (exported : Bool) :
    Determined env final fun _ : C => objectAs index name exported :=
  determined_bind (determined_identifier _ _ _) fun _ =>
    determined_bind (determined_package? index) fun _ => determined_pure _

/-- A reference to an object is determined. -/
theorem determined_objectRef (index : Nat) : Determined env final fun _ : C => objectRef index :=
  determined_bind (determined_object index) fun o => determined_objectAs index o.name _

/-- The name of a local is determined. -/
theorem determined_localName (l : Local) : Determined env final fun _ : C => localName l := by
  unfold localName
  dsimp only
  exact determined_ite (determined_pure _)
    (determined_bind determined_read fun env' => determined_identifier _ _ _)

/-- An integer constant is determined. -/
theorem determined_integer (type : TypeId) (k : Kind) (value : Int) (position : Position) :
    Determined env final fun _ : C => integer type k value position := by
  unfold integer
  split
  · exact determined_bind (determined_goType type) fun t => determined_pure _
  · exact determined_bind (determined_goType type) fun t => determined_unsupported _ _

/-- The bits of a pointer are determined. -/
theorem determined_pointerBits (value : Int) :
    Determined env final fun _ : C => pointerBits value :=
  determined_bind determined_read fun _ => determined_pure _

/-- An integer as a pointer is determined. -/
theorem determined_integerPointer (type : TypeId) (value : Int) (position : Position) :
    Determined env final fun _ : C => integerPointer type value position := by
  unfold integerPointer
  refine determined_bind (determined_pointerBits value) fun bits =>
    determined_ite (determined_pure _) ?_
  refine determined_ite (determined_pure _) (determined_bind determined_types fun table => ?_)
  refine determined_bind (determined_lift _) fun isFunction =>
    determined_ite (determined_unsupported _ _) ?_
  exact determined_bind (determined_goType type) fun t => determined_pure _

/-- A constant of any type is determined. -/
theorem determined_constant (type : TypeId) (value : Int) (single : UInt32) (double : UInt64)
    (position : Position) :
    Determined env final fun _ : C => constant type value single double position := by
  unfold constant
  refine determined_bind (determined_kind type) fun k => ?_
  split
  · exact determined_integerPointer type value position
  · exact determined_pure _
  · exact determined_pure _
  · exact determined_pure _
  · exact determined_pure _
  · exact determined_integer type _ value position

/-- A pointer into the string table is determined. -/
theorem determined_stringPointer (type : TypeId) (id : StringId) (offset : Int)
    (position : Position) :
    Determined env final fun _ : C => stringPointer type id offset position := by
  unfold stringPointer
  have hrefuse : Determined env final fun _ : C =>
      (do unsupported position (.stringAs (← goType type)) : Emit Go.Expr) :=
    determined_bind (determined_goType type) fun t => determined_unsupported _ _
  refine determined_bind (determined_stringOffset id) fun start =>
    determined_ite (determined_pure _) ?_
  refine determined_bind determined_types fun table =>
    determined_bind (determined_lift _) fun t => ?_
  split
  · refine determined_ite (determined_pure _)
      (determined_bind (determined_lift _) fun isFunction => ?_)
    exact determined_ite hrefuse (determined_bind (determined_goType type)
      fun t => determined_pure _)
  · exact hrefuse

/-- The type of a tree is determined. -/
theorem determined_resultType (type : Option TypeId) (position : Position) :
    Determined env final fun _ : C => resultType type position := by
  unfold resultType
  split
  · exact determined_pure _
  · exact determined_unsupported _ _

/-- The types of trees that have the same type. -/
theorem determined_valueType {type : Option TypeId} {t : C → Tree} (h : ∀ c, (t c).type = type) :
    Determined env final fun c => (liftM (t c).valueType : Emit TypeId) := by
  refine determined_of_delivers (P := fun id => type = some id) (fun _ => steady_lift _) ?_
    fun _ _ h h' => Option.some.inj (h.symm.trans h')
  intro c s id s' _ hyields
  obtain ⟨hvalue, -⟩ := yields_lift.1 hyields
  unfold Tree.valueType at hvalue
  rw [h c] at hvalue
  split at hvalue
  · cases hvalue
    rfl
  · cases hvalue

/-- The check of an operator is determined. -/
theorem determined_checkBinary (op : BinaryOp) (type : TypeId) (position : Position) :
    Determined env final fun _ : C => checkBinary op type position where
  steady _ := steady_checkBinary op type position
  unique _ _ _ _ _ _ := rfl

/-- The zero that a value is compared with is determined, wherever it stands. -/
theorem determined_zeroOf (type : TypeId) (position : C → Position) :
    Determined env final fun c => zeroOf type (position c) := by
  unfold zeroOf
  refine determined_bind (determined_kind type) fun k => ?_
  cases k with
  | scalar | pointer => exact determined_pure _
  | _ => exact determined_unsupported _ _

/-- What an increment adds is determined. -/
theorem determined_incrementDelta (type : TypeId) (delta : Int) (position : Position) :
    Determined env final fun _ : C => incrementDelta type delta position := by
  unfold incrementDelta
  refine determined_bind determined_types fun table =>
    determined_bind (determined_lift _) fun isData => ?_
  refine determined_ite (determined_pure _) (determined_bind (determined_kind type) fun k => ?_)
  refine determined_ite (determined_bind (determined_pointerBits delta)
    fun bits => determined_pure _) ?_
  refine determined_ite (determined_integer type k delta position) (determined_ite ?_ ?_)
  · exact determined_bind (determined_goType type) fun t => determined_pure _
  · exact determined_bind (determined_goType type) fun t => determined_unsupported _ _

/-- The parameters of a function type are determined. -/
theorem determined_parametersOf (type : TypeId) :
    Determined env final fun _ : C => parametersOf type := by
  unfold parametersOf
  refine determined_bind determined_types fun table =>
    determined_bind (determined_lift _) fun t => ?_
  split
  · exact determined_pure _
  · exact determined_breach _

/-- A reference to an argument is determined. -/
theorem determined_argumentRef (f : Frame) (index : Nat) (address : Bool) (position : Position) :
    Determined env final fun _ : C => argumentRef f index address position := by
  unfold argumentRef
  split
  · exact determined_ite (determined_unsupported _ _)
      (determined_bind (determined_identifier _ _ _) fun name => determined_pure _)
  · exact determined_ite (determined_unsupported _ _) (determined_breach _)

/-- A reference to a local is determined. -/
theorem determined_localRef (f : Frame) (usage : Use) (index : Nat) (address : Bool) :
    Determined env final fun _ : C => localRef f usage index address := by
  unfold localRef
  refine determined_bind (determined_lift _) fun l =>
    determined_bind (determined_localName l) fun name => ?_
  refine determined_ite (determined_bind (determined_kind _) fun k => ?_) (determined_pure _)
  exact determined_ite (determined_pure _) (determined_pure _)

/-- A reference to a result is determined. -/
theorem determined_resultRef (f : Frame) (index : Nat) (address : Bool) :
    Determined env final fun _ : C => resultRef f index address :=
  determined_ite (determined_breach _) (determined_pure _)

/-- A reference to a global is determined. -/
theorem determined_globalRef (usage : Use) (index : Nat) (name : NameId) (linkage : Linkage)
    (address : Bool) :
    Determined env final fun _ : C => globalRef usage index name linkage address := by
  unfold globalRef
  refine determined_bind (determined_object index) fun o =>
    determined_bind (determined_objectAs index name _) fun x => ?_
  refine determined_bind (determined_kind _) fun k => determined_ite (determined_pure _) ?_
  exact determined_ite (determined_pure _) (determined_pure _)

/-- The type of the items behind a pointer is determined. -/
theorem determined_itemType (pointer : TypeId) (position : Position) :
    Determined env final fun _ : C => itemType pointer position := by
  unfold itemType
  refine determined_ite (determined_unsupported _ _)
    (determined_bind determined_types fun table => ?_)
  refine determined_bind (determined_lift _) fun pointee =>
    determined_bind (determined_lift _) fun t => ?_
  split
  · exact determined_pure _
  · exact determined_pure _

/-- The kind of a field behind a pointer is determined. -/
theorem determined_fieldKind (pointer : TypeId) (index : Nat) (position : Position) :
    Determined env final fun _ : C => fieldKind pointer index position := by
  unfold fieldKind
  refine determined_bind determined_types fun table =>
    determined_bind (determined_lift _) fun aggregate => ?_
  refine determined_bind (determined_lift _) fun t => ?_
  split
  · split
    · exact determined_bind (determined_goType _) fun t => determined_pure _
    · exact determined_breach _
  · exact determined_ite (determined_pure _) (determined_breach _)
  · exact determined_unsupported _ _

end

end StackToGo.Emit
