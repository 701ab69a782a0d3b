import Mathlib.Tactic.SplitIfs
import StackToGo.Proofs.BareErrors
import StackToGo.Proofs.Emit.Yields

/-!
# How emission is put together

Every step of emission is put together from small ones: it reads, refuses, looks up a type, an
identifier or a string, asks for a package or a routine, and writes. `Composed` says so about a
step, and the steps are gone through once here. What holds of the small steps and is kept when
steps follow each other then holds of all of them.

For a routine it matters what is known when it is asked for. Most are asked for only after the type
was given a Go type. A copy is asked for without a look at its type, and so is the increment of a
pointer to data (`Unchecked`).
-/

namespace StackToGo.Emit

open StackToGo.Action
open StackToGo.TypeText (Settled Expands)

/-! ## Routines that may be asked for -/

/-- The routine is asked for whether its type has a Go type or not. -/
def Unchecked (env : Env) : Routine.Family → TypeId → Prop
  | .copy, _ => True
  | .postIncrement, id | .preIncrement, id => env.program.types.isDataPointer id = .ok true
  | .storeBits, _ | .store, _ => False

/-- The routine may be asked for: its type has a Go type, unless that is not looked at. -/
def Cleared (env : Env) (family : Routine.Family) (id : TypeId) : Prop :=
  Unchecked env family id ∨ ∃ t, Expands env.program.types env.target id t

section

variable {α β : Type}

/-- Says which routines may be asked for. -/
abbrev Permit := Routine.Family → TypeId → Prop

/-- If the step has given `a`, the routine may be asked for. -/
def Clears (m : Emit α) (a : α) : Permit := fun family id =>
  ∀ env s s', Settled env.program.types env.target s.typeText → Yields env m s a s' →
    Cleared env family id

/-- The step is put together from small steps. It asks for the routines that it may ask for from
the start, for those that a step before has cleared, and for those that may always be asked for. -/
inductive Composed : Permit → {α : Type} → Emit α → Prop
  | pure {may : Permit} {α : Type} (a : α) : Composed may (pure a : Emit α)
  | throw {may : Permit} {α : Type} {e : Error} (h : e.IsBare) : Composed may (throw e : Emit α)
  | lift {may : Permit} {α : Type} {r : Except Error α} (h : FailsBare r) :
      Composed may (liftM r : Emit α)
  | read {may : Permit} : Composed may (read : Emit Env)
  | get {may : Permit} : Composed may (get : Emit State)
  | bind {may : Permit} {α β : Type} {m : Emit α} {k : α → Emit β} (hm : Composed may m)
      (hk : ∀ a, Composed (fun family id => may family id ∨ Clears m a family id) (k a)) :
      Composed may (m >>= k)
  | goType {may : Permit} (id : TypeId) : Composed may (goType id)
  | sizeOf {may : Permit} (id : TypeId) : Composed may (sizeOf id)
  | identifier {may : Permit} (name : NameId) (exported : Bool) (scope : Scope) :
      Composed may (identifier name exported scope)
  | stringOffset {may : Permit} (id : StringId) : Composed may (stringOffset id)
  | require {may : Permit} {family : Routine.Family} {id : TypeId}
      (h : may family id ∨ ∀ env, Cleared env family id) :
      Composed may (require family id)
  | package? {may : Permit} (index : Nat) : Composed may (package? index)
  | addItem {may : Permit} (item : Go.Item Go.Stmt Go.Expr) : Composed may (addItem item)
  | note {may : Permit} (e : Event) : Composed may (note e)
  | inCompound {may : Permit} {α : Type} {m : Emit α} (h : Composed may m) :
      Composed may (inCompound m)

attribute [simp] Composed.pure Composed.lift Composed.read Composed.get Composed.goType
  Composed.sizeOf Composed.identifier Composed.stringOffset Composed.package?
  Composed.addItem Composed.note

variable {may may' : Permit}

/-- More may be asked for than is. -/
theorem Composed.mono {m : Emit α} (h : Composed may m)
    (hmay : ∀ family id, may family id → may' family id) :
    Composed may' m := by
  induction h generalizing may' with
  | pure a => exact .pure a
  | throw h => exact .throw h
  | lift h => exact .lift h
  | read => exact .read
  | get => exact .get
  | bind _ _ ihm ihk =>
    exact .bind (ihm hmay) fun a => ihk a fun family id => Or.imp_left (hmay family id)
  | goType id => exact .goType id
  | sizeOf id => exact .sizeOf id
  | identifier name exported scope => exact .identifier name exported scope
  | stringOffset id => exact .stringOffset id
  | require h => exact .require (h.imp_left (hmay _ _))
  | package? index => exact .package? index
  | addItem item => exact .addItem item
  | note e => exact .note e
  | inCompound _ ih => exact .inCompound (ih hmay)

/-! ## Steps one after the other -/

@[simp] theorem composed_unsupported (position : Position) (cause : Unsupported) :
    Composed may (unsupported position cause : Emit α) := .throw (.unsupported position cause)

@[simp] theorem composed_breach (cause : Breach) : Composed may (breach cause : Emit α) :=
  .throw (.breach cause)

/-- A step after another one, when nothing follows from what the first one gives. -/
@[simp] theorem composed_bind {m : Emit α} {k : α → Emit β} (hm : Composed may m)
    (hk : ∀ a, Composed may (k a)) : Composed may (m >>= k) :=
  .bind hm fun a => (hk a).mono fun _ _ => .inl

@[simp] theorem composed_types : Composed may types :=
  composed_bind .read fun env => .pure env.program.types

/-- A map of composed steps is composed. -/
@[simp] theorem composed_map {m : Emit α} (g : α → β) (hm : Composed may m) :
    Composed may (g <$> m) := by
  rw [← bind_pure_comp]
  exact composed_bind hm fun a => .pure (g a)

/-- A branch of composed steps is composed. -/
@[simp] theorem composed_ite {c : Prop} {_ : Decidable c} {m m' : Emit α} (h : Composed may m)
    (h' : Composed may m') : Composed may (if c then m else m') := by
  split
  · exact h
  · exact h'

/-- A list of composed steps is composed. -/
@[simp] theorem composed_mapM {m : α → Emit β} (hm : ∀ a, Composed may (m a)) (list : List α) :
    Composed may (list.mapM m) := by
  induction list with
  | nil => exact .pure []
  | cons a list ih =>
    rw [List.mapM_cons]
    exact composed_bind (hm a) fun b => composed_bind ih fun bs => .pure _

/-! ## What is known after a step -/

/-- A type that was given a Go type has one. -/
theorem clears_goType (id : TypeId) (t : Go.Ty) (family : Routine.Family) :
    Clears (goType id) t family id :=
  fun _ s _ hs h =>
    .inr ⟨t, (TypeText.maintains_goType id s.typeText hs).2 t (congrArg Prod.fst h)⟩

/-- An increment has been given its amount by a type that has a Go type, or points to data. -/
theorem clears_incrementDelta (pre : Bool) (type : TypeId) (delta : Int) (position : Position)
    (d : Go.Expr) :
    Clears (incrementDelta type delta position) d
      (if pre then .preIncrement else .postIncrement) type := by
  intro env s s' hs h
  unfold incrementDelta at h
  obtain ⟨table, s₁, htable, h⟩ := yields_bind.1 h
  obtain ⟨rfl, rfl⟩ := yields_types.1 htable
  obtain ⟨isData, s₁, hdata, h⟩ := yields_bind.1 h
  obtain ⟨hisData, rfl⟩ := yields_lift.1 hdata
  cases isData with
  | true =>
    left
    cases pre <;> exact hisData
  | false =>
    obtain ⟨k, s₁, hkind, h⟩ := yields_bind.1 h
    obtain ⟨ty, hty, rfl⟩ := map_eq_ok_iff.1 (yields_kind.1 hkind).1
    cases ty with
    | scalar scalar => exact .inr ⟨_, .scalar hty⟩
    | pointer pointee =>
      by_cases hvoid : TypeTable.isVoidPointer type
      · exact .inr ⟨_, .voidPointer hty hvoid⟩
      · simp [Ty.kind, Kind.isInteger, Kind.intShape?, Kind.isFloat, Kind.isComplex, hvoid] at h
    | _ => simp [Ty.kind, Kind.isInteger, Kind.intShape?, Kind.isFloat, Kind.isComplex] at h

end

/-! ## All steps of emission -/

variable {may : Permit}

@[simp] theorem composed_kind (id : TypeId) : Composed may (kind id) := by simp [kind]

/-- Looking up an object is composed. -/
@[simp] theorem composed_object (index : Nat) : Composed may (object index) := by
  simp only [object]
  refine composed_bind .read fun env => ?_
  split
  · exact .pure _
  · exact composed_breach _

@[simp] theorem composed_isMain (name : NameId) : Composed may (isMain name) :=
  composed_bind .read fun env => composed_bind (.lift (by simp)) fun bytes => .pure _

/-- An object under one of its names is composed. -/
@[simp] theorem composed_objectAs (index : Nat) (name : NameId) (exported : Bool) :
    Composed may (objectAs index name exported) := by
  simp [objectAs]

/-- A reference to an object is composed. -/
@[simp] theorem composed_objectRef (index : Nat) : Composed may (objectRef index) := by
  simp [objectRef]

/-- The comment with a position is composed. -/
@[simp] theorem composed_positionComment (position : Position) :
    Composed may (positionComment position) := by
  simp [positionComment]

@[simp] theorem composed_localName (l : Local) : Composed may (localName l) := by simp [localName]

/-! ## Constants -/

/-- An integer constant is composed. -/
@[simp] theorem composed_integer (type : TypeId) (k : Kind) (value : Int) (position : Position) :
    Composed may (integer type k value position) := by
  unfold integer
  split <;> simp

/-- The bits of a pointer are composed. -/
@[simp] theorem composed_pointerBits (value : Int) : Composed may (pointerBits value) := by
  simp [pointerBits]

/-- An integer as a pointer is composed. -/
@[simp] theorem composed_integerPointer (type : TypeId) (value : Int) (position : Position) :
    Composed may (integerPointer type value position) := by
  unfold integerPointer
  refine composed_bind (composed_pointerBits value) fun bits =>
    composed_ite (.pure _) (composed_ite (.pure _) ?_)
  refine composed_bind composed_types fun table =>
    composed_bind (.lift (by simp)) fun isFunction => ?_
  split_ifs <;> simp

/-- A constant of any type is composed. -/
@[simp] theorem composed_constant (type : TypeId) (value : Int) (single : UInt32) (double : UInt64)
    (position : Position) : Composed may (constant type value single double position) := by
  unfold constant
  refine composed_bind (composed_kind type) fun k => ?_
  split <;> simp

/-- A pointer into the string table is composed. -/
@[simp] theorem composed_stringPointer (type : TypeId) (id : StringId) (offset : Int)
    (position : Position) : Composed may (stringPointer type id offset position) := by
  unfold stringPointer
  refine composed_bind (.stringOffset id) fun start => composed_ite (.pure _) ?_
  refine composed_bind composed_types fun table => composed_bind (.lift (by simp)) fun t => ?_
  split
  · refine composed_ite (.pure _) (composed_bind (.lift (by simp)) fun isFunction => ?_)
    split_ifs <;> simp
  · simp

/-! ## Expressions -/

/-- The type of a tree is composed. -/
@[simp] theorem composed_resultType (type : Option TypeId) (position : Position) :
    Composed may (resultType type position) := by
  unfold resultType
  split <;> simp

/-- The check of an operator is composed. -/
@[simp] theorem composed_checkBinary (op : BinaryOp) (type : TypeId) (position : Position) :
    Composed may (checkBinary op type position) := by
  unfold checkBinary
  refine composed_bind (composed_kind type) fun k => ?_
  split <;> simp

/-- The zero that a value is compared with is composed. -/
@[simp] theorem composed_zeroOf (type : TypeId) (position : Position) :
    Composed may (zeroOf type position) := by
  unfold zeroOf
  refine composed_bind (composed_kind type) fun k => ?_
  split <;> simp

/-- The test of a value is composed. -/
@[simp] theorem composed_truthOf {x : Emit Go.Expr} (hx : Composed may x) (t : Tree)
    (zero : Bool) : Composed may (truthOf t x zero) := by
  unfold truthOf
  refine composed_bind (.lift (by simp)) fun type => composed_bind hx fun x => ?_
  simp

/-- The address in a pointer is composed. -/
@[simp] theorem composed_addressBits (type : TypeId) (x : Go.Expr) (position : Position) :
    Composed may (addressBits type x position) := by
  unfold addressBits
  refine composed_ite (.pure x) (composed_bind composed_types fun table => ?_)
  refine composed_bind (.lift (by simp)) fun isFunction => ?_
  split_ifs <;> simp

/-- A comparison is composed. -/
@[simp] theorem composed_compareExpr (op : CompareOp) (type : TypeId) (l r : Go.Expr)
    (position : Position) : Composed may (compareExpr op type l r position) := by
  unfold compareExpr
  refine composed_bind composed_types fun table =>
    composed_bind (.lift (by simp)) fun isFunction => composed_ite ?_ ?_
  · split <;> simp
  · refine composed_bind (.lift (by simp)) fun isData => composed_ite (.pure _) ?_
    simp

/-- A conversion is composed. -/
@[simp] theorem composed_convertExpr (src dst : TypeId) (x : Go.Expr) (position : Position) :
    Composed may (convertExpr src dst x position) := by
  unfold convertExpr
  refine composed_ite (.pure x) (composed_bind composed_types fun table => ?_)
  refine composed_bind (.lift (by simp)) fun sk => composed_bind (.lift (by simp)) fun dk =>
    composed_bind (.lift (by simp)) fun fromFunction => composed_bind (.goType dst) fun t => ?_
  have hrefuse :
      Composed may (do unsupported position (.conversion (← goType src) t) : Emit Go.Expr) :=
    by simp
  dsimp only
  split
  · refine composed_ite ?_ (composed_bind (.lift (by simp)) fun toFunction => ?_) <;> split_ifs <;>
      first | exact .pure _ | exact hrefuse
  · split_ifs <;> first | exact .pure _ | exact hrefuse
  · exact hrefuse

/-- What an increment adds is composed. -/
@[simp] theorem composed_incrementDelta (type : TypeId) (delta : Int) (position : Position) :
    Composed may (incrementDelta type delta position) := by
  unfold incrementDelta
  refine composed_bind composed_types fun table => ?_
  refine composed_bind (.lift (by simp)) fun isData => composed_ite (.pure _) ?_
  refine composed_bind (composed_kind type) fun k => ?_
  split_ifs <;> simp

/-- An argument as its parameter takes it is composed. -/
@[simp] theorem composed_passArgument (param : Option TypeId) (variadic : Bool) (type : TypeId)
    (x : Go.Expr) : Composed may (passArgument param variadic type x) := by
  unfold passArgument
  refine composed_bind composed_types fun table => ?_
  split
  · refine composed_ite (.pure x) (composed_bind (.lift (by simp)) fun isPointer =>
      composed_ite (.pure x) ?_)
    simp
  · refine composed_bind (.lift (by simp)) fun toData => ?_
    split_ifs <;> simp

/-- The parameters of a function type are composed. -/
@[simp] theorem composed_parametersOf (type : TypeId) : Composed may (parametersOf type) := by
  unfold parametersOf
  refine composed_bind composed_types fun table => composed_bind (.lift (by simp)) fun t => ?_
  split <;> simp

/-- A reference to an argument is composed. -/
@[simp] theorem composed_argumentRef (f : Frame) (index : Nat) (address : Bool)
    (position : Position) : Composed may (argumentRef f index address position) := by
  unfold argumentRef
  split <;> simp

/-- A reference to a local is composed. -/
@[simp] theorem composed_localRef (f : Frame) (usage : Use) (index : Nat) (address : Bool) :
    Composed may (localRef f usage index address) := by
  unfold localRef
  refine composed_bind (.lift (by simp)) fun l =>
    composed_bind (composed_localName l) fun name => ?_
  refine composed_ite (composed_bind (composed_kind _) fun k => ?_) (.pure _)
  simp

/-- A reference to a result is composed. -/
@[simp] theorem composed_resultRef (f : Frame) (index : Nat) (address : Bool) :
    Composed may (resultRef f index address) := by
  simp [resultRef]

/-- A reference to a global is composed. -/
@[simp] theorem composed_globalRef (usage : Use) (index : Nat) (name : NameId) (linkage : Linkage)
    (address : Bool) : Composed may (globalRef usage index name linkage address) := by
  unfold globalRef
  refine composed_bind (composed_object index) fun o =>
    composed_bind (composed_objectAs index name _) fun x => ?_
  refine composed_bind (composed_kind _) fun k => ?_
  split_ifs <;> simp

/-- The type of the items behind a pointer is composed. -/
@[simp] theorem composed_itemType (pointer : TypeId) (position : Position) :
    Composed may (itemType pointer position) := by
  unfold itemType
  refine composed_ite (composed_unsupported _ _) (composed_bind composed_types fun table => ?_)
  refine composed_bind (.lift (by simp)) fun pointee => composed_bind (.lift (by simp)) fun t => ?_
  split <;> simp

/-- The kind of a field behind a pointer is composed. -/
@[simp] theorem composed_fieldKind (pointer : TypeId) (index : Nat) (position : Position) :
    Composed may (fieldKind pointer index position) := by
  unfold fieldKind
  refine composed_bind composed_types fun table => composed_bind (.lift (by simp)) fun aggregate =>
    composed_bind (.lift (by simp)) fun t => ?_
  split
  · split <;> simp
  · simp
  · simp

mutual
/-- Expressions of trees are composed. -/
theorem composed_expr (f : Frame) (usage : Use) : ∀ t, Composed may (expr f usage t)
  | .mk shape type position [] => by
    rw [expr]
    exact composed_core f usage type position shape
  | .mk shape type position (first :: rest) => by
    rw [expr]
    refine composed_bind (composed_statement f first) fun effects => ?_
    refine composed_bind (composed_statements f rest) fun more => ?_
    have hcore (type : Option TypeId) := composed_core f usage type position shape
    split
    · have hinvoke (id : TypeId) : Composed may (do
          let t ← goType id
          let x ← core f usage (some id) position shape
          return Go.Expr.invoke [t] (effects ++ more) (.ret [x])) :=
        composed_bind (.goType id) fun t => composed_bind (hcore _) fun x => .pure _
      refine composed_ite (composed_bind (composed_kind _) fun k => ?_) (hinvoke _)
      split_ifs
      · exact composed_bind (composed_unsupported _ _) fun _ => hinvoke _
      · exact hinvoke _
    · exact composed_bind (hcore _) fun x => .pure _

/-- The statements of a tree are composed. -/
theorem composed_statement (f : Frame) : ∀ t, Composed may (statement f t)
  | .mk shape type position comma => by
    rw [statement]
    refine composed_bind (composed_statements f comma) fun before => ?_
    exact composed_bind (composed_core f .value type position shape) fun x => .pure _

/-- The statements of trees are composed. -/
theorem composed_statements (f : Frame) : ∀ ts, Composed may (statements f ts)
  | [] => by
    rw [statements]
    exact .pure _
  | t :: rest => by
    rw [statements]
    refine composed_bind (composed_statement f t) fun first => ?_
    exact composed_bind (composed_statements f rest) fun _ => .pure _

/-- The arguments of a call are composed. -/
theorem composed_arguments (f : Frame) (variadic : Bool) (params : List TypeId) :
    ∀ ts, Composed may (arguments f variadic params ts)
  | [] => by
    rw [arguments]
    exact .pure _
  | t :: rest => by
    rw [arguments]
    refine composed_bind (composed_expr f .callArgument t) fun x =>
      composed_bind (.lift (by simp)) fun type => ?_
    refine composed_bind (composed_passArgument _ _ _ _) fun x => ?_
    exact composed_bind (composed_arguments f variadic params.tail rest) fun _ => .pure _

/-- Expressions of trees without their comma lists are composed. -/
theorem composed_core (f : Frame) (usage : Use) (type : Option TypeId) (position : Position) :
    ∀ shape, Composed may (core f usage type position shape)
  | .argument index address => by rw [core]; exact composed_argumentRef f index address position
  | .localVar index address => by rw [core]; exact composed_localRef f usage index address
  | .result index address => by rw [core]; exact composed_resultRef f index address
  | .global index name linkage address =>
    by rw [core]; exact composed_globalRef usage index name linkage address
  | .const32 value => by simp [core, constant32]
  | .const64 value => by simp [core, constant64]
  | .stringConst id => by simp [core]
  | .null => by simp [core]
  | .binary op lhs rhs => by
    rw [core]
    refine composed_bind (composed_resultType _ _) fun t =>
      composed_bind (composed_checkBinary _ _ _) fun _ => ?_
    refine composed_bind (composed_expr f .value lhs) fun l => ?_
    exact composed_bind (composed_expr f .value rhs) fun r => .pure _
  | .compare op operandType lhs rhs => by
    rw [core]
    refine composed_bind (composed_expr f .operand lhs) fun l => ?_
    refine composed_bind (composed_expr f .operand rhs) fun r => ?_
    exact composed_compareExpr op operandType l r position
  | .unary op operandType operand => by
    have hx := composed_expr f .value operand
    rw [core]
    refine composed_bind (composed_kind _) fun k => ?_
    cases op
    · refine composed_ite (composed_bind hx fun x => .pure _) ?_
      simp
    · refine composed_ite (composed_bind hx fun x => .pure _) ?_
      simp
    · exact composed_bind (composed_truthOf hx operand true) fun x => .pure _
    · exact composed_bind (composed_truthOf hx operand false) fun x => .pure _
  | .convert source operand => by
    have hx := composed_expr f .value operand
    rw [core]
    have hconvert (isEntry : Bool) : Composed may (if isEntry then expr f .value operand else do
        let dst ← resultType type position
        let x ← expr f .value operand
        convertExpr source dst x position) :=
      composed_ite hx (composed_bind (composed_resultType _ _) fun dst =>
        composed_bind hx fun x => composed_convertExpr source dst x position)
    split
    · exact composed_bind (composed_isMain _) hconvert
    · exact composed_bind (.pure _) hconvert
  | .load pointerType pointer => by
    rw [core]
    refine composed_ite (composed_unsupported _ _) (composed_bind composed_types fun table => ?_)
    refine composed_bind (.lift (by simp)) fun isFunction =>
      composed_ite (composed_unsupported _ _) ?_
    exact composed_bind (composed_expr f .value pointer) fun x => .pure _
  | .store bits bitOffset address value => by
    have hv := composed_expr f .operand value
    by_cases hdup : ∃ target t p comma, address = .mk (.dup target) t p comma
    · obtain ⟨target, t, p, comma, rfl⟩ := hdup
      have ha := composed_expr f .operand target
      rw [core]
      refine composed_bind (composed_resultType _ _) fun stored =>
        .bind (.goType stored) fun t => ?_
      refine composed_ite (composed_unsupported _ _) (composed_bind .get fun s => ?_)
      refine composed_ite (composed_unsupported _ _) ?_
      refine composed_bind (.require (.inl (.inr (clears_goType stored t .store)))) fun name => ?_
      refine composed_bind (ha.mono fun _ _ => .inl) fun p => ?_
      exact composed_bind (.inCompound (hv.mono fun _ _ => .inl)) fun v => .pure _
    · have ha := composed_expr f .operand address
      rw [core]
      · refine composed_bind (composed_resultType _ _) fun stored =>
          .bind (.goType stored) fun t => composed_ite ?_ ?_
        · refine composed_bind (.require (.inl (.inr (clears_goType stored t .store))))
            fun name => ?_
          refine composed_bind (ha.mono fun _ _ => .inl) fun a => ?_
          exact composed_bind (hv.mono fun _ _ => .inl) fun v => .pure _
        · refine composed_bind (composed_kind _) fun k => ?_
          split
          · refine composed_bind (.require (.inl (.inr (clears_goType stored t .storeBits))))
              fun name => ?_
            refine composed_bind (ha.mono fun _ _ => .inl) fun a => ?_
            exact composed_bind (hv.mono fun _ _ => .inl) fun v => .pure _
          · exact composed_unsupported _ _
      · exact fun target t p comma h => hdup ⟨target, t, p, comma, h⟩
  | .copy copied dst src => by
    rw [core]
    refine composed_bind (.require (.inr fun env => .inl trivial)) fun name => ?_
    refine composed_bind (composed_expr f .value dst) fun d => ?_
    exact composed_bind (composed_expr f .value src) fun s => .pure _
  | .element address neg base index => by
    have hindex := composed_expr f .value index
    rw [core]
    refine composed_bind (.lift (by simp)) fun pointer =>
      composed_bind (composed_itemType _ _) fun item => ?_
    refine composed_bind (.sizeOf _) fun size => composed_bind (.goType _) fun t => ?_
    refine composed_bind (composed_expr f .value base) fun b =>
      composed_bind (composed_addressBits _ _ _) fun b => ?_
    dsimp only
    split
    · exact composed_bind (.pure _) fun place => .pure _
    · exact composed_bind (composed_map _ hindex) fun place => .pure _
  | .field index address base => by
    rw [core]
    refine composed_bind (.lift (by simp)) fun type =>
      composed_bind (composed_fieldKind _ _ _) fun k => ?_
    exact composed_bind (composed_expr f .value base) fun b => .pure _
  | .increment pre delta bits operand => by
    rw [core]
    refine composed_ite (composed_unsupported _ _)
      (composed_bind (composed_resultType _ _) fun stored => ?_)
    refine .bind (composed_incrementDelta stored _ position) fun d => ?_
    refine composed_bind (.require (.inl (.inr (clears_incrementDelta pre _ _ _ d))))
      fun name => ?_
    exact composed_bind ((composed_expr f .value operand).mono fun _ _ => .inl) fun x => .pure _
  | .ptrDiff pointerType lhs rhs => by
    rw [core]
    refine composed_bind (composed_resultType _ _) fun type =>
      composed_bind (.goType _) fun t => ?_
    refine composed_bind composed_types fun table =>
      composed_bind (.lift (by simp)) fun element => ?_
    refine composed_bind (.sizeOf _) fun size => composed_ite (composed_unsupported _ _) ?_
    refine composed_bind (composed_expr f .value lhs) fun l =>
      composed_bind (composed_addressBits _ _ _) fun l => ?_
    refine composed_bind (composed_expr f .value rhs) fun r =>
      composed_bind (composed_addressBits _ _ _) fun r => ?_
    exact composed_bind .read fun env => .pure _
  | .call index functionType args => by
    rw [core]
    refine composed_bind (composed_object index) fun o => ?_
    split
    · exact composed_breach _
    · refine composed_bind (composed_objectRef index) fun callee => ?_
      refine composed_bind (composed_parametersOf _) fun parameters => ?_
      exact composed_bind (composed_arguments f parameters.2 parameters.1 args) fun xs => .pure _
  | .callPointer pointerType callee args => by
    rw [core]
    refine composed_bind composed_types fun table =>
      composed_bind (.lift (by simp)) fun function => ?_
    refine composed_bind (composed_expr f .value callee) fun c => ?_
    refine composed_bind (composed_parametersOf _) fun parameters => ?_
    exact composed_bind (composed_arguments f parameters.2 parameters.1 args) fun xs => .pure _
  | .logical isAnd lhs rhs => by
    rw [core]
    refine composed_bind (composed_truthOf (composed_expr f .value lhs) lhs false) fun l => ?_
    exact composed_bind (composed_truthOf (composed_expr f .value rhs) rhs false) fun r => .pure _
  | .conditional cond whenTrue whenFalse => by
    rw [core]
    refine composed_bind (composed_resultType _ _) fun type =>
      composed_bind (.goType _) fun t => ?_
    refine composed_bind (composed_truthOf (composed_expr f .value cond) cond false) fun c => ?_
    refine composed_bind (composed_expr f .value whenTrue) fun a => ?_
    exact composed_bind (composed_expr f .value whenFalse) fun b => .pure _
  | .dup _ => by rw [core]; exact composed_unsupported _ _
  | .dupRef => by simp [core]
end

@[simp] theorem composed_truth (f : Frame) (t : Tree) (zero : Bool) :
    Composed may (truth f t zero) :=
  composed_truthOf (composed_expr f .value t) t zero

/-! ## Initial values -/

/-- An integer as an initial value is composed. -/
@[simp] theorem composed_scalarValue (type : TypeId) (k : Kind) (value : Int)
    (position : Position) : Composed may (scalarValue type k value position) := by
  unfold scalarValue
  split <;> simp

/-- A float as an initial value is composed. -/
@[simp] theorem composed_floatValue (type : TypeId) (k : Kind) (single : UInt32) (double : UInt64)
    (position : Position) : Composed may (floatValue type k single double position) := by
  unfold floatValue
  split <;> simp

/-- A string as an initial value is composed. -/
@[simp] theorem composed_stringValue (type : TypeId) (id : StringId) (offset : Int)
    (position : Position) : Composed may (stringValue type id offset position) := by
  unfold stringValue
  refine composed_bind composed_types fun table => composed_bind (.lift (by simp)) fun t => ?_
  split
  · refine composed_bind (.lift (by simp)) fun k =>
      composed_ite ?_ (composed_stringPointer _ _ _ _)
    refine composed_bind .read fun env => composed_bind (.lift (by simp)) fun bytes => ?_
    simp
  · simp

/-- An address as an initial value is composed. -/
@[simp] theorem composed_addressValue (type : TypeId) (index : Nat) (name : NameId)
    (exported : Bool) (offset : Int) (position : Position) :
    Composed may (addressValue type index name exported offset position) := by
  unfold addressValue
  refine composed_bind (composed_object index) fun o => ?_
  refine composed_bind (composed_objectAs index name exported) fun x => ?_
  refine composed_bind composed_types fun table => ?_
  have hrefuse (cause : Go.Ty → Unsupported) :
      Composed may (do unsupported position (cause (← goType type)) : Emit Go.Expr) := by
    simp
  split
  · refine composed_ite (hrefuse _) (composed_bind (.lift (by simp)) fun isFunction => ?_)
    exact composed_ite (.pure _) (hrefuse _)
  · refine composed_ite (.pure _) (composed_bind (.lift (by simp)) fun isData =>
      composed_ite ?_ (hrefuse _))
    refine composed_bind (.goType type) fun t => ?_
    simp

/-- The bytes of a union are composed. -/
@[simp] theorem composed_unionValue (member : TypeId) (v : Value) (size : Nat)
    (position : Position) : Composed may (unionValue member v size position) := by
  unfold unionValue
  refine composed_bind (composed_kind _) fun k => composed_bind (.sizeOf _) fun width => ?_
  split <;> simp

/-- The literal of a union is composed. -/
@[simp] theorem composed_unionLiteral (type : TypeId) (t : Go.Ty) (members : List TypeId)
    (entries : List (Option Value)) (position : Position) :
    Composed may (unionLiteral type t members entries position) := by
  unfold unionLiteral
  split
  · simp
  · split <;> simp

mutual
/-- Initial values are composed. -/
theorem composed_value (type : TypeId) (position : Position) :
    ∀ v, Composed may (value type position v)
  | .int32 v => by simp [value]
  | .int64 v => by simp [value]
  | .float32 bits => by simp [value]
  | .float64 bits => by simp [value]
  | .complex64 re im => by
    rw [value]
    refine composed_bind (composed_kind type) fun k => composed_ite (.pure _) ?_
    simp
  | .complex128 re im => by
    rw [value]
    refine composed_bind (composed_kind type) fun k => composed_ite (.pure _) ?_
    simp
  | .string id offset => by simp [value]
  | .address index name linkage offset => by simp [value]
  | .composite entries => by
    rw [value]
    refine composed_bind (.goType type) fun t => composed_bind composed_types fun table => ?_
    refine composed_bind (.lift (by simp)) fun aggregate => ?_
    split
    · refine composed_ite (composed_breach _) ?_
      exact composed_bind (composed_arrayElements _ position 0 entries) fun _ => .pure _
    · refine composed_ite (composed_breach _) ?_
      exact composed_bind (composed_structElements position 0 _ entries) fun _ => .pure _
    · exact composed_unionLiteral _ _ _ _ _
    · exact composed_unsupported _ _

/-- The items of an array are composed. -/
theorem composed_arrayElements (item : TypeId) (position : Position) (place : Nat) :
    ∀ entries, Composed may (arrayElements item position place entries)
  | [] => by simp [arrayElements]
  | none :: rest => by
    rw [arrayElements]
    exact composed_arrayElements item position (place + 1) rest
  | some v :: rest => by
    have hrest := composed_arrayElements item position (place + 1) rest
    rw [arrayElements]
    refine composed_ite hrest (composed_bind (composed_value item position v) fun x => ?_)
    exact composed_bind hrest fun _ => .pure _

/-- The fields of a struct are composed. -/
theorem composed_structElements (position : Position) (place : Nat) (fields : List TypeId) :
    ∀ entries, Composed may (structElements position place fields entries)
  | [] => by simp [structElements]
  | none :: rest => by
    rw [structElements]
    exact composed_structElements position (place + 1) fields.tail rest
  | some v :: rest => by
    cases fields with
    | nil => simp [structElements]
    | cons field fields =>
      have hrest := composed_structElements position (place + 1) fields rest
      rw [structElements]
      exact composed_ite hrest
        (composed_bind (composed_value field position v) fun x =>
          composed_bind hrest fun _ => .pure _)
end

/-! ## Definitions -/

/-- The result of a function is composed. -/
@[simp] theorem composed_resultOf (f : Frame) : Composed may (resultOf f) := by
  unfold resultOf
  split <;> simp

/-- The parameters of a function are composed. -/
@[simp] theorem composed_parameters (names : List NameId) (types : List TypeId) :
    Composed may (parameters names types) := by
  induction types generalizing names with
  | nil => simp [parameters]
  | cons type rest ih =>
    rw [parameters]
    refine composed_bind (.goType type) fun t => ?_
    have hrest (name : String) :
        Composed may (do return ⟨some name, t⟩ :: (← parameters names.tail rest)) :=
      composed_bind (ih _) fun _ => .pure _
    split
    · exact composed_ite (composed_bind (.pure _) hrest) (composed_bind (.identifier _ _ _) hrest)
    · exact composed_bind (.pure _) hrest

/-- The header of a function is composed. -/
@[simp] theorem composed_header (f : Frame) (name : String) : Composed may (header f name) := by
  unfold header
  refine composed_bind (composed_resultOf f) fun result =>
    composed_bind (composed_isMain _) fun isEntry => ?_
  refine composed_ite ?_ (composed_bind (composed_parameters _ _) fun _ => .pure _)
  split <;> simp

/-- The lines that declare locals are composed. -/
@[simp] theorem composed_localLines (locals : List Local) : Composed may (localLines locals) := by
  induction locals with
  | nil => simp [localLines]
  | cons l rest ih =>
    rw [localLines]
    refine composed_bind (composed_localName l) fun name => composed_bind (.goType _) fun t => ?_
    exact composed_bind (composed_positionComment _) fun _ => composed_bind ih fun _ => .pure _

/-- The text of a label is composed. -/
@[simp] theorem composed_labelText (l : Label) : Composed may (labelText l) := by
  unfold labelText
  split <;> simp

/-- The copy of a string into a buffer is composed. -/
@[simp] theorem composed_copyString (name : String) (k : Kind) (items : Nat) (id : StringId)
    (offset : Int) (position : Position) :
    Composed may (copyString name k items id offset position) := by
  unfold copyString
  refine composed_ite (composed_unsupported _ _) (composed_bind (.stringOffset id) fun start => ?_)
  simp

/-- The statement that sets a variable to its initial value is composed. -/
@[simp] theorem composed_initializer (name : String) (type : TypeId) (v : Value)
    (position : Position) : Composed may (initializer name type v position) := by
  unfold initializer
  refine composed_bind composed_types fun table => composed_bind (.lift (by simp)) fun t => ?_
  have hassign (v : Value) :
      Composed may (do return Go.Stmt.assign name (← value type position v)) :=
    composed_bind (composed_value type position v) fun _ => .pure _
  split
  · refine composed_bind (.lift (by simp)) fun k =>
      composed_ite (composed_copyString _ _ _ _ _ _) (hassign _)
  · exact hassign _

/-- The statements of a node are composed. -/
@[simp] theorem composed_nodeStatements (f : Frame) (list : List Flow.Statement) :
    Composed may (nodeStatements f list) := by
  induction list with
  | nil => simp [nodeStatements]
  | cons first rest ih =>
    cases first with
    | eval t =>
      rw [nodeStatements]
      exact composed_bind (composed_statement f t) fun _ => composed_bind ih fun _ => .pure _
    | init index position =>
      rw [nodeStatements]
      refine composed_bind (.lift (by simp)) fun l => ?_
      split
      · exact ih
      · refine composed_bind (composed_localName l) fun name => ?_
        refine composed_bind (composed_initializer _ _ _ _) fun first => ?_
        exact composed_bind ih fun _ => .pure _

/-- The key of a case is composed. -/
@[simp] theorem composed_caseKey (k : Kind) (position : Position) (v : Value) :
    Composed may (caseKey k position v) := by
  unfold caseKey
  split
  · unfold wrapCase
    split <;> simp
  · unfold wrapCase
    split <;> simp
  · simp

/-- The keys of all cases are composed. -/
@[simp] theorem composed_caseKeys (k : Kind) (position : Position) (cases : List (Value × Label)) :
    Composed may (caseKeys k position cases) := by
  induction cases with
  | nil => simp [caseKeys]
  | cons first rest ih =>
    rw [caseKeys]
    exact composed_bind (composed_caseKey _ _ _) fun _ => composed_bind ih fun _ => .pure _

/-- The targets of all cases are composed. -/
@[simp] theorem composed_caseTargets (cases : List (Int × Label)) :
    Composed may (caseTargets cases) := by
  induction cases with
  | nil => simp [caseTargets]
  | cons first rest ih =>
    rw [caseTargets]
    exact composed_bind (composed_labelText _) fun _ => composed_bind ih fun _ => .pure _

/-- The exit of a node is composed. -/
@[simp] theorem composed_nodeExit (f : Frame) (exit : Flow.Exit) :
    Composed may (nodeExit f exit) := by
  cases exit with
  | fallThrough => simp [nodeExit]
  | jump target => simp [nodeExit]
  | branch cond target onZero => simp [nodeExit]
  | switch v type cases default =>
    rw [nodeExit]
    refine composed_bind (composed_kind _) fun k =>
      composed_bind (composed_caseKeys _ _ _) fun keys => ?_
    refine composed_bind (composed_expr f .value v) fun x =>
      composed_bind (composed_caseTargets _) fun cases => ?_
    simp
  | ret => simp [nodeExit]
  | abort => simp [nodeExit]

/-- The block of a node is composed. -/
@[simp] theorem composed_block (f : Frame) (node : Flow.Node) : Composed may (block f node) := by
  unfold block
  have hrest (label : Option String) : Composed may (do
      let statements ← nodeStatements f node.statements
      return (⟨label, statements, ← nodeExit f node.exit⟩ : Go.Block Go.Stmt Go.Expr)) :=
    composed_bind (composed_nodeStatements f _) fun _ =>
      composed_bind (composed_nodeExit f _) fun _ => .pure _
  dsimp only
  split
  · exact composed_bind (composed_map _ (composed_labelText _)) hrest
  · exact composed_bind (.pure _) hrest

/-- The definition of a function is composed. -/
@[simp] theorem composed_functionDefinition (index : Nat) (definition : FunctionDef) :
    Composed may (functionDefinition index definition) := by
  unfold functionDefinition
  refine composed_bind (.package? index) fun package => composed_ite (.note _) ?_
  refine composed_bind composed_types fun table => composed_bind (.lift (by simp)) fun f => ?_
  refine composed_bind (.lift (by simp)) fun nodes => composed_bind (.note _) fun _ => ?_
  refine composed_bind (.identifier _ _ _) fun name =>
    composed_bind (composed_header f name) fun head => ?_
  refine composed_bind (composed_positionComment _) fun comment => ?_
  refine composed_bind (composed_localLines _) fun locals => ?_
  exact composed_bind (composed_mapM (composed_block f) nodes) fun blocks => .addItem _

/-- The definition of a variable is composed. -/
@[simp] theorem composed_dataDefinition (definition : DataDef) :
    Composed may (dataDefinition definition) := by
  unfold dataDefinition
  refine composed_bind (.identifier _ _ _) fun name => composed_bind (.goType _) fun t => ?_
  refine composed_bind (composed_positionComment _) fun comment =>
    composed_bind (.addItem _) fun _ => ?_
  split
  · exact .pure _
  · exact composed_ite (.pure _) (composed_bind (composed_initializer _ _ _ _) fun _ => .addItem _)

end StackToGo.Emit
