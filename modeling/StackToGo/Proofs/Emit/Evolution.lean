import StackToGo.Proofs.Emit.Composed
import StackToGo.Proofs.Identifier

/-!
# What emission does to its state

`Evolves` says what a step can do to the state at all: it asks for a type, an identifier, a string,
a routine or a package, adds an item or an event, and counts the stores around it while it is
inside of one. Every step evolves its state, whether it fails or not (`Steady`), so an invariant of
all states of emission is proved from the elementary changes alone.
-/

namespace StackToGo.Emit

open StackToGo.Action

section

variable {α β : Type} {env : Env} {s s' : State}

/-! ## Elementary changes -/

/-- The states that elementary changes lead to. -/
inductive Evolves (env : Env) : State → State → Prop
  | refl (s : State) : Evolves env s s
  | trans {s₁ s₂ s₃ : State} (h : Evolves env s₁ s₂) (h' : Evolves env s₂ s₃) : Evolves env s₁ s₃
  | goType (s : State) (id : TypeId) : Evolves env s ((goType id env).perform s).2
  | sizeOf (s : State) (id : TypeId) : Evolves env s ((sizeOf id env).perform s).2
  | identifier (s : State) (name : NameId) (exported : Bool) (scope : Scope) :
      Evolves env s ((identifier name exported scope env).perform s).2
  | stringOffset (s : State) (id : StringId) : Evolves env s ((stringOffset id env).perform s).2
  | require (s : State) (family : Routine.Family) (id : TypeId) :
      Evolves env s ((require family id env).perform s).2
  | package? (s : State) (index : Nat) : Evolves env s ((package? index env).perform s).2
  | addItem (s : State) (item : Go.Item Go.Stmt Go.Expr) :
      Evolves env s ((addItem item env).perform s).2
  | note (s : State) (e : Event) : Evolves env s ((note e env).perform s).2
  | routineTexts (s : State) : Evolves env s ((routineTexts env).perform s).2
  /-- What happens inside a store that computes its address once. -/
  | compound {s s' : State} (h : Evolves env { s with compoundDepth := s.compoundDepth + 1 } s') :
      Evolves env s { s' with compoundDepth := s'.compoundDepth - 1 }

/-- Whatever state the step starts from, it leaves one that the state evolves to. -/
def Steady (m : Emit α) : Prop := ∀ env s, Evolves env s ((m env).perform s).2

/-- A steady step evolves the state. -/
theorem Steady.evolves {m : Emit α} {a : α} (hm : Steady m) (h : Yields env m s a s') :
    Evolves env s s' := by
  have hs := hm env s
  rwa [h] at hs

/-! ## Steady steps put together -/

@[simp] theorem steady_pure (a : α) : Steady (pure a : Emit α) := fun _ s => .refl s

@[simp] theorem steady_throw (e : Error) : Steady (throw e : Emit α) := fun _ s => .refl s

@[simp] theorem steady_unsupported (position : Position) (cause : Unsupported) :
    Steady (unsupported position cause : Emit α) := steady_throw _

@[simp] theorem steady_breach (cause : Breach) : Steady (breach cause : Emit α) := steady_throw _

/-- What only gives a result or fails leaves the state. -/
@[simp] theorem steady_lift (r : Except Error α) : Steady (liftM r : Emit α) := by
  intro env s
  cases r <;> exact .refl s

@[simp] theorem steady_read : Steady (read : Emit Env) := fun _ s => .refl s

@[simp] theorem steady_get : Steady (get : Emit State) := fun _ s => .refl s

@[simp] theorem steady_types : Steady types := fun _ s => .refl s

/-- A sequence of steady steps is steady. -/
@[simp] theorem steady_bind {m : Emit α} {k : α → Emit β} (hm : Steady m)
    (hk : ∀ a, Steady (k a)) : Steady (m >>= k) := by
  intro env s
  show Evolves env s (perform (m env >>= fun a => k a env) s).2
  have hs := hm env s
  rw [perform_bind]
  cases hm : perform (m env) s with
  | mk r s₁ =>
    rw [hm] at hs
    cases r with
    | error e => exact hs
    | ok a => exact hs.trans (hk a env s₁)

/-- A map of a steady step is steady. -/
@[simp] theorem steady_map {m : Emit α} (g : α → β) (hm : Steady m) : Steady (g <$> m) := by
  rw [← bind_pure_comp]
  exact steady_bind hm fun a => steady_pure (g a)

/-- Steady steps for all of a list are steady. -/
@[simp] theorem steady_mapM {m : α → Emit β} (hm : ∀ a, Steady (m a)) (list : List α) :
    Steady (list.mapM m) := by
  induction list with
  | nil => exact steady_pure []
  | cons a list ih =>
    rw [List.mapM_cons]
    exact steady_bind (hm a) fun b => steady_bind ih fun bs => steady_pure _

@[simp] theorem steady_goType (id : TypeId) : Steady (goType id) := fun _ s => .goType s id

@[simp] theorem steady_sizeOf (id : TypeId) : Steady (sizeOf id) := fun _ s => .sizeOf s id

@[simp] theorem steady_identifier (name : NameId) (exported : Bool) (scope : Scope) :
    Steady (identifier name exported scope) := fun _ s => .identifier s name exported scope

@[simp] theorem steady_stringOffset (id : StringId) : Steady (stringOffset id) :=
  fun _ s => .stringOffset s id

@[simp] theorem steady_require (family : Routine.Family) (id : TypeId) :
    Steady (require family id) :=
  fun _ s => .require s family id

@[simp] theorem steady_package? (index : Nat) : Steady (package? index) :=
  fun _ s => .package? s index

@[simp] theorem steady_addItem (item : Go.Item Go.Stmt Go.Expr) : Steady (addItem item) :=
  fun _ s => .addItem s item

@[simp] theorem steady_note (e : Event) : Steady (note e) := fun _ s => .note s e

@[simp] theorem steady_routineTexts : Steady routineTexts := fun _ s => .routineTexts s

@[simp] theorem steady_inCompound {m : Emit α} (hm : Steady m) : Steady (inCompound m) :=
  fun env s => .compound (hm env { s with compoundDepth := s.compoundDepth + 1 })

/-- What is put together from small steps is steady. -/
theorem Composed.steady {may : Permit} {m : Emit α} (h : Composed may m) : Steady m := by
  induction h with
  | pure a => exact steady_pure a
  | throw => exact steady_throw _
  | lift => exact steady_lift _
  | read => exact steady_read
  | get => exact steady_get
  | bind _ _ ihm ihk => exact steady_bind ihm ihk
  | goType id => exact steady_goType id
  | sizeOf id => exact steady_sizeOf id
  | identifier name exported scope => exact steady_identifier name exported scope
  | stringOffset id => exact steady_stringOffset id
  | require => exact steady_require _ _
  | package? index => exact steady_package? index
  | addItem item => exact steady_addItem item
  | note e => exact steady_note e
  | inCompound _ ih => exact steady_inCompound ih

/-- What is composed without changing the depth of compound assignments is steady. -/
theorem steady_of_composed {m : Emit α} (h : Composed (fun _ _ => False) m) : Steady m := h.steady

end

/-! ## All steps of emission -/

@[simp] theorem steady_kind (id : TypeId) : Steady (kind id) :=
  steady_of_composed (composed_kind id)

@[simp] theorem steady_object (index : Nat) : Steady (object index) :=
  steady_of_composed (composed_object index)

@[simp] theorem steady_isMain (name : NameId) : Steady (isMain name) :=
  steady_of_composed (composed_isMain name)

@[simp] theorem steady_objectAs (index : Nat) (name : NameId) (exported : Bool) :
    Steady (objectAs index name exported) :=
  steady_of_composed (composed_objectAs index name exported)

@[simp] theorem steady_objectRef (index : Nat) : Steady (objectRef index) :=
  steady_of_composed (composed_objectRef index)

@[simp] theorem steady_positionComment (position : Position) : Steady (positionComment position) :=
  steady_of_composed (composed_positionComment position)

@[simp] theorem steady_localName (l : Local) : Steady (localName l) :=
  steady_of_composed (composed_localName l)

@[simp] theorem steady_pointerBits (value : Int) : Steady (pointerBits value) :=
  steady_of_composed (composed_pointerBits value)

@[simp] theorem steady_resultType (type : Option TypeId) (position : Position) :
    Steady (resultType type position) :=
  steady_of_composed (composed_resultType type position)

@[simp] theorem steady_checkBinary (op : BinaryOp) (type : TypeId) (position : Position) :
    Steady (checkBinary op type position) :=
  steady_of_composed (composed_checkBinary op type position)

@[simp] theorem steady_zeroOf (type : TypeId) (position : Position) :
    Steady (zeroOf type position) :=
  steady_of_composed (composed_zeroOf type position)

/-- The test of a value is steady. -/
@[simp] theorem steady_truthOf {x : Emit Go.Expr} (hx : Steady x) (t : Tree) (zero : Bool) :
    Steady (truthOf t x zero) := by
  unfold truthOf
  refine steady_bind (steady_lift _) fun type => steady_bind hx fun x => ?_
  simp

@[simp] theorem steady_addressBits (type : TypeId) (x : Go.Expr) (position : Position) :
    Steady (addressBits type x position) :=
  steady_of_composed (composed_addressBits type x position)

@[simp] theorem steady_compareExpr (op : CompareOp) (type : TypeId) (l r : Go.Expr)
    (position : Position) :
    Steady (compareExpr op type l r position) :=
  steady_of_composed (composed_compareExpr op type l r position)

@[simp] theorem steady_convertExpr (src dst : TypeId) (x : Go.Expr) (position : Position) :
    Steady (convertExpr src dst x position) :=
  steady_of_composed (composed_convertExpr src dst x position)

@[simp] theorem steady_incrementDelta (type : TypeId) (delta : Int) (position : Position) :
    Steady (incrementDelta type delta position) :=
  steady_of_composed (composed_incrementDelta type delta position)

@[simp] theorem steady_passArgument (param : Option TypeId) (variadic : Bool) (type : TypeId)
    (x : Go.Expr) :
    Steady (passArgument param variadic type x) :=
  steady_of_composed (composed_passArgument param variadic type x)

@[simp] theorem steady_parametersOf (type : TypeId) : Steady (parametersOf type) :=
  steady_of_composed (composed_parametersOf type)

@[simp] theorem steady_itemType (pointer : TypeId) (position : Position) :
    Steady (itemType pointer position) :=
  steady_of_composed (composed_itemType pointer position)

@[simp] theorem steady_fieldKind (pointer : TypeId) (index : Nat) (position : Position) :
    Steady (fieldKind pointer index position) :=
  steady_of_composed (composed_fieldKind pointer index position)

/-- The expression of a tree is steady: compound assignments are left again. -/
theorem steady_expr (f : Frame) (usage : Use) (t : Tree) : Steady (expr f usage t) :=
  steady_of_composed (composed_expr f usage t)

/-- The statements of a tree are steady. -/
theorem steady_statement (f : Frame) (t : Tree) : Steady (statement f t) :=
  steady_of_composed (composed_statement f t)

/-- The statements of trees are steady. -/
theorem steady_statements (f : Frame) (ts : List Tree) : Steady (statements f ts) :=
  steady_of_composed (composed_statements f ts)

/-- The arguments of a call are steady. -/
theorem steady_arguments (f : Frame) (variadic : Bool) (params : List TypeId) (ts : List Tree) :
    Steady (arguments f variadic params ts) :=
  steady_of_composed (composed_arguments f variadic params ts)

/-- The expression of a shape is steady. -/
theorem steady_core (f : Frame) (usage : Use) (type : Option TypeId) (position : Position)
    (shape : Shape) :
    Steady (core f usage type position shape) :=
  steady_of_composed (composed_core f usage type position shape)

@[simp] theorem steady_truth (f : Frame) (t : Tree) (zero : Bool) : Steady (truth f t zero) :=
  steady_of_composed (composed_truth f t zero)

/-- An initial value is steady. -/
theorem steady_value (type : TypeId) (position : Position) (v : Value) :
    Steady (value type position v) :=
  steady_of_composed (composed_value type position v)

@[simp] theorem steady_resultOf (f : Frame) : Steady (resultOf f) :=
  steady_of_composed (composed_resultOf f)

@[simp] theorem steady_header (f : Frame) (name : String) : Steady (header f name) :=
  steady_of_composed (composed_header f name)

@[simp] theorem steady_localLines (locals : List Local) : Steady (localLines locals) :=
  steady_of_composed (composed_localLines locals)

@[simp] theorem steady_labelText (l : Label) : Steady (labelText l) :=
  steady_of_composed (composed_labelText l)

@[simp] theorem steady_initializer (name : String) (type : TypeId) (v : Value)
    (position : Position) :
    Steady (initializer name type v position) :=
  steady_of_composed (composed_initializer name type v position)

@[simp] theorem steady_nodeStatements (f : Frame) (list : List Flow.Statement) :
    Steady (nodeStatements f list) :=
  steady_of_composed (composed_nodeStatements f list)

@[simp] theorem steady_caseKeys (k : Kind) (position : Position) (cases : List (Value × Label)) :
    Steady (caseKeys k position cases) := steady_of_composed (composed_caseKeys k position cases)

@[simp] theorem steady_caseTargets (cases : List (Int × Label)) : Steady (caseTargets cases) :=
  steady_of_composed (composed_caseTargets cases)

@[simp] theorem steady_block (f : Frame) (node : Flow.Node) : Steady (block f node) :=
  steady_of_composed (composed_block f node)

@[simp] theorem steady_functionDefinition (index : Nat) (definition : FunctionDef) :
    Steady (functionDefinition index definition) :=
  steady_of_composed (composed_functionDefinition index definition)

@[simp] theorem steady_dataDefinition (definition : DataDef) :
    Steady (dataDefinition definition) :=
  steady_of_composed (composed_dataDefinition definition)

/-! ## Files -/

/-- The definition of an object is steady. -/
theorem steady_objectDefinition (index : Nat) (o : Object) :
    Steady (objectDefinition index o) := by
  unfold objectDefinition
  refine steady_bind steady_read fun env => steady_bind (steady_note _) fun _ => ?_
  cases o with
  | function definition => exact fun env s => steady_functionDefinition index definition env s
  | data definition => exact fun env s => steady_dataDefinition definition env s

/-- The definitions of objects are steady. -/
theorem steady_objectDefinitions (index : Nat) (objects : List Object) :
    Steady (objectDefinitions index objects) := by
  induction objects generalizing index with
  | nil => exact steady_pure ()
  | cons o rest ih => exact steady_bind (steady_objectDefinition index o) fun _ => ih (index + 1)

/-- All parts of a file are steady. -/
theorem steady_fileItems : Steady fileItems := by
  unfold fileItems
  refine steady_bind steady_read fun env => steady_bind (steady_objectDefinitions 0 _) fun _ => ?_
  refine steady_bind steady_routineTexts fun routines => steady_bind steady_get fun s => ?_
  exact steady_bind (steady_note _) fun _ => steady_pure _

/-- The text of a file is steady. -/
theorem steady_fileText : Steady fileText := by
  unfold fileText
  refine steady_bind steady_fileItems fun items => steady_bind (steady_lift _) fun cleaned => ?_
  exact steady_bind (steady_note _) fun _ => steady_pure _

/-! ## Invariants -/

/-- The states that emission can be in. -/
def Reached (env : Env) (s : State) : Prop := Evolves env (.start env.target) s

/-- Looking up an object leaves the state. -/
theorem perform_object (env : Env) (s : State) (index : Nat) : (object index env).perform s =
    ((match env.program.objects[index]? with
      | some o => .ok o
      | none => .error (.breach (.objectOutOfRange index))), s) := by
  show perform ((match env.program.objects[index]? with
    | some o => pure o
    | none => breach (.objectOutOfRange index) : Emit Object) env) s = _
  cases env.program.objects[index]? <;> rfl

/-- Is there a stub at the place? -/
def Env.isStub (env : Env) (index : Nat) : Bool :=
  match env.program.objects[index]? with
  | some (.function f) => f.isStub
  | _ => false

/-- The package of an object, which is asked for if the object is a stub. -/
def packageOf (env : Env) (s : State) : Object → Option String × State
  | .function f =>
    if f.isStub then (some (env.qualifier s.asked f), { s with asked := s.asked ++ [f] })
      else (none, s)
  | .data _ => (none, s)

/-- The package of an object is asked for at its first use, and then kept. -/
theorem perform_package? (env : Env) (s : State) (index : Nat) : (package? index env).perform s =
    match s.packages.lookup index, env.program.objects[index]? with
    | some known, _ => (.ok known, s)
    | none, none => (.error (.breach (.objectOutOfRange index)), s)
    | none, some o =>
      (.ok (packageOf env s o).1,
        { (packageOf env s o).2 with
          packages := (index, (packageOf env s o).1) :: s.packages }) := by
  show perform ((get : Action State State) >>= _) s = _
  rw [perform_bind, perform_get]
  dsimp only
  cases s.packages.lookup index with
  | some known => rfl
  | none =>
    show perform (object index env >>= _) s = _
    rw [perform_bind, perform_object]
    cases env.program.objects[index]? with
    | none => rfl
    | some o =>
      cases o with
      | data d => rfl
      | function f =>
        dsimp only [packageOf]
        split <;> rfl

/-- Asking for a package changes what is known about packages only. -/
theorem package?_frame (env : Env) (s : State) (index : Nat) : ∃ packages asked,
    ((package? index env).perform s).2 = { s with packages, asked } := by
  have hasked : ∀ o, ∃ asked, (packageOf env s o).2 = { s with asked } := by
    intro o
    cases o with
    | data d => exact ⟨s.asked, rfl⟩
    | function f =>
      dsimp only [packageOf]
      split
      · exact ⟨_, rfl⟩
      · exact ⟨s.asked, rfl⟩
  rw [perform_package?]
  split
  · exact ⟨s.packages, s.asked, rfl⟩
  · exact ⟨s.packages, s.asked, rfl⟩
  · rename_i o _ _
    obtain ⟨asked, h⟩ := hasked o
    exact ⟨_, asked, by rw [h]⟩

section

variable {env : Env} {s s' : State}

/-- What happens inside a store is over at its end: no step leaves one open. -/
theorem Evolves.compoundDepth_eq (h : Evolves env s s') : s'.compoundDepth = s.compoundDepth := by
  induction h with
  | refl | goType | sizeOf | identifier | stringOffset | require | addItem | note | routineTexts =>
    rfl
  | trans _ _ ih ih' => exact ih'.trans ih
  | package? s index =>
    obtain ⟨packages, asked, h⟩ := package?_frame env s index
    rw [h]
  | compound _ ih =>
    simp only at ih
    simp [ih]

/-- The identifiers made so far stay spellings of their keys. -/
theorem Evolves.sound (h : Evolves env s s') (hs : s.identifiers.Sound env.dict) :
    s'.identifiers.Sound env.dict := by
  induction h with
  | refl | goType | sizeOf | stringOffset | require | addItem | note | routineTexts => exact hs
  | trans _ _ ih ih' => exact ih' (ih hs)
  | identifier s name exported scope => exact (hs.identifier ⟨name, exported, scope⟩).1
  | package? s index =>
    obtain ⟨packages, asked, h⟩ := package?_frame env s index
    rwa [h]
  | compound _ ih => exact ih hs

/-- Parts of the file are only ever added. -/
theorem Evolves.items_grow (h : Evolves env s s') : s.items <+: s'.items := by
  induction h with
  | refl | goType | sizeOf | identifier | stringOffset | require | note | routineTexts =>
    exact List.prefix_rfl
  | trans _ _ ih ih' => exact ih.trans ih'
  | package? s index =>
    obtain ⟨packages, asked, h⟩ := package?_frame env s index
    simp [h]
  | addItem s item => exact List.prefix_append s.items [item]
  | compound _ ih => exact ih

/-- Exactly the stubs are known to have a package. -/
def PackagesKnown (env : Env) (s : State) : Prop :=
  ∀ index package, s.packages.lookup index = some package → package.isSome = env.isStub index

/-- Just the stubs have a package. -/
theorem isSome_packageOf {index : Nat} {o : Object} (ho : env.program.objects[index]? = some o) :
    (packageOf env s o).1.isSome = env.isStub index := by
  rw [Env.isStub, ho]
  cases o with
  | data d => rfl
  | function f =>
    dsimp only [packageOf]
    split <;> simp_all

/-- Exactly the stubs stay known to have a package. -/
theorem Evolves.packagesKnown (h : Evolves env s s') (hs : PackagesKnown env s) :
    PackagesKnown env s' := by
  induction h with
  | refl | goType | sizeOf | identifier | stringOffset | require | addItem | note | routineTexts =>
    exact hs
  | trans _ _ ih ih' => exact ih' (ih hs)
  | package? s index =>
    rw [perform_package?]
    split
    · exact hs
    · exact hs
    · rename_i o hunknown ho
      intro index' package hlookup
      rw [List.lookup_cons] at hlookup
      split at hlookup
      · rename_i heq
        cases hlookup
        rw [beq_iff_eq.1 heq]
        exact isSome_packageOf ho
      · exact hs index' package hlookup
  | compound _ ih => exact ih hs

/-- The identifiers that are remembered are right in every state of emission. -/
theorem Reached.sound (h : Reached env s) : s.identifiers.Sound env.dict :=
  Evolves.sound h fun _ hentry => by cases hentry

/-- Exactly the stubs are known to have a package in every state of emission. -/
theorem Reached.packagesKnown (h : Reached env s) : PackagesKnown env s :=
  Evolves.packagesKnown h fun _ _ hlookup => by cases hlookup

/-- In every state of emission exactly the stubs are given a package. -/
theorem Reached.package?_isSome (h : Reached env s) {index : Nat} {package : Option String}
    (hyields : Yields env (package? index) s package s') : package.isSome = env.isStub index := by
  rw [Yields, perform_package?] at hyields
  split at hyields
  · rename_i known _ hknown
    cases hyields
    exact h.packagesKnown index _ hknown
  · cases hyields
  · rename_i o _ ho
    cases hyields
    exact isSome_packageOf ho

/-- The states of emission evolve to states of emission. -/
theorem Reached.evolves (h : Reached env s) (h' : Evolves env s s') : Reached env s' :=
  Evolves.trans h h'

/-- In every state of emission a key is given its spelling. -/
theorem Reached.yields_identifier (h : Reached env s) {name : NameId} {exported : Bool}
    {scope : Scope} {text : String} :
    (∃ s', Yields env (identifier name exported scope) s text s') ↔
      Identifier.spelling env.dict ⟨name, exported, scope⟩ = .ok text := by
  rw [← (h.sound.identifier ⟨name, exported, scope⟩).2]
  exact ⟨fun ⟨s', hs'⟩ => congrArg Prod.fst hs', fun htext => ⟨_, Prod.ext htext rfl⟩⟩

/-- In some state of emission the step gives `a`. -/
def Gives (env : Env) {α : Type} (m : Emit α) (a : α) : Prop :=
  ∃ s s', Reached env s ∧ Yields env m s a s'

/-- Emission gives an identifier just the text that it is spelled with. -/
theorem gives_identifier_iff {name : NameId} {exported : Bool} {scope : Scope} {text : String} :
    Gives env (identifier name exported scope) text ↔
    Identifier.spelling env.dict ⟨name, exported, scope⟩ = .ok text := by
  constructor
  · rintro ⟨s, s', hs, h⟩
    exact hs.yields_identifier.1 ⟨s', h⟩
  · intro h
    have hstart : Reached env (.start env.target) := .refl _
    obtain ⟨s', hs'⟩ := hstart.yields_identifier.2 h
    exact ⟨_, s', hstart, hs'⟩

end

end StackToGo.Emit
