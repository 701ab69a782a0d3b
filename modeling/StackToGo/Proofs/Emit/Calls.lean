import StackToGo.Proofs.Compound
import StackToGo.Proofs.Emit.Supply

/-!
# What written code calls

Every piece of Go code that is written for a tree or for an initial value supplies its calls: what
is asked for on the way is just what the code calls. No operand whose code asks for something is
left out of the code of the whole.
-/

namespace StackToGo.Emit

open StackToGo.Go

variable {P : StringId → Int → Prop}

/-! ## Constants -/

/-- A float makes no calls. -/
@[simp] theorem calls_floatExpr (f : Number.Format) (t : Scalar) (fromBits : String) (bits : Nat) :
    (floatExpr f t fromBits bits).calls = [] := by
  unfold floatExpr
  split <;> simp

@[simp] theorem calls_float32 (bits : UInt32) : (float32 bits).calls = [] :=
  calls_floatExpr _ _ _ _

@[simp] theorem calls_float64 (bits : UInt64) : (float64 bits).calls = [] :=
  calls_floatExpr _ _ _ _

/-- A complex number calls the support functions that its parts do. -/
@[simp] theorem supports_complex (re im : Expr) :
    supports (complex re im).calls = supports re.calls ++ supports im.calls := by
  simp [complex]

/-- A complex number without imaginary part calls those that its real part does. -/
@[simp] theorem supports_realOnly (re : Expr) :
    supports (realOnly re).calls = supports re.calls := by
  simp [realOnly]

/-- An integer constant makes no calls. -/
theorem wraps_integer (type : TypeId) (k : Kind) (value : Int) (position : Position) :
    Wraps [] (integer type k value position) Expr.calls := by
  unfold integer
  split
  · exact wraps_skip (quiet_goType type) fun t => wraps_pure (by simp)
  · exact wraps_skip (quiet_goType type) fun t => wraps_unsupported _ _

/-- An integer as a pointer makes no calls. -/
theorem wraps_integerPointer (type : TypeId) (value : Int) (position : Position) :
    Wraps [] (integerPointer type value position) Expr.calls := by
  unfold integerPointer
  refine wraps_skip (quiet_pointerBits value) fun bits => wraps_ite (wraps_pure (by simp)) ?_
  refine wraps_ite (wraps_pure (by simp)) (wraps_skip quiet_types fun table => ?_)
  refine wraps_skip (quiet_lift _) fun isFunction => ?_
  exact wraps_ite (wraps_unsupported _ _)
    (wraps_skip (quiet_goType type) fun t => wraps_pure (by simp))

/-- A constant makes no calls. -/
theorem wraps_constant (type : TypeId) (value : Int) (single : UInt32) (double : UInt64)
    (position : Position) : Wraps [] (constant type value single double position) Expr.calls := by
  unfold constant
  refine wraps_skip (quiet_kind type) fun k => ?_
  split
  · exact wraps_integerPointer type value position
  · exact wraps_pure (by simp)
  · exact wraps_pure (by simp)
  · exact wraps_pure (by simp)
  · exact wraps_pure (by simp)
  · exact wraps_integer type _ value position

/-- A pointer into the string table accesses an allowed place. -/
theorem supplies_stringPointer {id : StringId} {offset : Int} (hP : P id offset) (type : TypeId)
    (position : Position) : Supplies P [] (stringPointer type id offset position) Expr.calls := by
  unfold stringPointer
  refine supplies_bind (supplies_stringOffset hP) fun start =>
    supplies_ite (supplies_pure (by simp)) ?_
  refine supplies_skip quiet_types fun table => supplies_skip (quiet_lift _) fun t => ?_
  have hrefuse : Supplies P ([] ++ [⟨"str", some (start + offset)⟩])
      (do unsupported position (.stringAs (← goType type))) Expr.calls :=
    supplies_skip (quiet_goType type) fun t => supplies_unsupported _ _
  split
  · refine supplies_ite (supplies_pure (by simp))
      (supplies_skip (quiet_lift _) fun isFunction => ?_)
    exact supplies_ite hrefuse (supplies_skip (quiet_goType type) fun t => supplies_pure (by simp))
  · exact hrefuse

/-! ## Single operators -/

/-- The zero that a value is compared with makes no calls. -/
theorem wraps_zeroOf (type : TypeId) (position : Position) :
    Wraps [] (zeroOf type position) Expr.calls := by
  unfold zeroOf
  refine wraps_skip (quiet_kind type) fun k => ?_
  split
  · refine wraps_pure ?_
    split <;> simp
  · exact wraps_pure (by simp)
  · exact wraps_unsupported _ _

/-- The test of a value makes the calls of the value. -/
theorem supplies_truthOf {x : Emit Expr} (hx : Supplies P [] x Expr.calls) (t : Tree)
    (zero : Bool) : Supplies P [] (truthOf t x zero) Expr.calls := by
  unfold truthOf
  refine supplies_skip (quiet_lift _) fun type => supplies_bind hx fun x => ?_
  exact supplies_wraps (wraps_zeroOf type _) fun z hz => supplies_pure (by simp [hz])

/-- The address in a pointer makes the calls of the pointer. -/
theorem wraps_addressBits (type : TypeId) (x : Expr) (position : Position) :
    Wraps x.calls (addressBits type x position) Expr.calls := by
  unfold addressBits
  refine wraps_ite (wraps_pure rfl) (wraps_skip quiet_types fun table =>
    wraps_skip (quiet_lift _) fun isFunction => ?_)
  exact wraps_ite (wraps_unsupported _ _) (wraps_pure (by simp))

/-- A comparison makes the calls of both sides. -/
theorem wraps_compareExpr (op : CompareOp) (type : TypeId) (l r : Expr) (position : Position) :
    Wraps (l.calls ++ r.calls) (compareExpr op type l r position) Expr.calls := by
  unfold compareExpr
  refine wraps_skip quiet_types fun table =>
    wraps_skip (quiet_lift _) fun isFunction => wraps_ite ?_ ?_
  · split
    · exact wraps_pure (by simp)
    · exact wraps_pure (by simp)
    · exact wraps_unsupported _ _
  · refine wraps_skip (quiet_lift _) fun isData => wraps_ite (wraps_pure (by simp)) ?_
    exact wraps_skip (quiet_kind type) fun k =>
      wraps_ite (wraps_pure (by simp)) (wraps_unsupported _ _)

/-- A conversion makes the calls of its operand. -/
theorem wraps_convertExpr (src dst : TypeId) (x : Expr) (position : Position) :
    Wraps x.calls (convertExpr src dst x position) Expr.calls := by
  unfold convertExpr
  refine wraps_ite (wraps_pure rfl) (wraps_skip quiet_types fun table => ?_)
  refine wraps_skip (quiet_lift _) fun sk => wraps_skip (quiet_lift _) fun dk =>
    wraps_skip (quiet_lift _) fun fromFunction => wraps_skip (quiet_goType dst) fun t => ?_
  have hrefuse :
      Wraps x.calls (do unsupported position (.conversion (← goType src) t) :
        Emit Expr) Expr.calls :=
    wraps_skip (quiet_goType src) fun _ => wraps_unsupported _ _
  dsimp only
  split
  · refine wraps_ite ?_ (wraps_skip (quiet_lift _) fun toFunction => ?_) <;> split_ifs <;>
      first | exact hrefuse | exact wraps_pure (by simp)
  · split_ifs <;> first | exact hrefuse | exact wraps_pure (by simp)
  · exact hrefuse

/-- What an increment adds makes no calls. -/
theorem wraps_incrementDelta (type : TypeId) (delta : Int) (position : Position) :
    Wraps [] (incrementDelta type delta position) Expr.calls := by
  unfold incrementDelta
  refine wraps_skip quiet_types fun table => wraps_skip (quiet_lift _) fun isData =>
    wraps_ite (wraps_pure (by simp)) ?_
  refine wraps_skip (quiet_kind type) fun k => ?_
  refine wraps_ite (wraps_skip (quiet_pointerBits delta) fun bits => wraps_pure (by simp)) ?_
  refine wraps_ite (wraps_integer type k delta position) (wraps_ite ?_ ?_)
  · exact wraps_skip (quiet_goType type) fun t => wraps_pure (by simp)
  · exact wraps_skip (quiet_goType type) fun t => wraps_unsupported _ _

/-- An argument of a call makes the calls of its value. -/
theorem wraps_passArgument (param : Option TypeId) (variadic : Bool) (type : TypeId) (x : Expr) :
    Wraps x.calls (passArgument param variadic type x) Expr.calls := by
  unfold passArgument
  refine wraps_skip quiet_types fun table => ?_
  split
  · refine wraps_ite (wraps_pure rfl) (wraps_skip (quiet_lift _) fun isPointer =>
      wraps_ite (wraps_pure rfl) ?_)
    exact wraps_skip (quiet_lift _) fun isFunction =>
      wraps_ite (wraps_pure rfl) (wraps_pure (by simp))
  · rename_i param
    refine wraps_skip (quiet_lift _) fun toData => wraps_ite ?_ (wraps_ite (wraps_pure rfl) ?_)
    · exact wraps_skip (quiet_goType param) fun t => wraps_pure (by simp)
    · exact wraps_skip (quiet_lift _) fun isData =>
        wraps_ite (wraps_pure (by simp)) (wraps_pure rfl)

/-! ## Variables and functions -/

/-- A place, or its address, makes no calls. -/
@[simp] theorem calls_placeOf (address : Bool) (name : String) :
    (placeOf address name).calls = [] := by
  unfold placeOf
  split <;> rfl

/-- A reference to an argument makes no calls. -/
theorem wraps_argumentRef (f : Frame) (index : Nat) (address : Bool) (position : Position) :
    Wraps [] (argumentRef f index address position) Expr.calls := by
  unfold argumentRef
  split
  · exact wraps_ite (wraps_unsupported _ _)
      (wraps_skip (quiet_identifier _ _ _) fun text => wraps_pure (by simp))
  · exact wraps_ite (wraps_unsupported _ _) (wraps_breach _)

/-- A reference to a local makes no calls. -/
theorem wraps_localRef (f : Frame) (usage : Use) (index : Nat) (address : Bool) :
    Wraps [] (localRef f usage index address) Expr.calls := by
  unfold localRef
  refine wraps_skip (quiet_lift _) fun l => wraps_skip (quiet_localName l) fun name =>
    wraps_ite ?_ (wraps_pure (by simp))
  exact wraps_skip (quiet_kind _) fun k => wraps_ite (wraps_pure (by simp)) (wraps_pure (by simp))

/-- A reference to a result makes no calls. -/
theorem wraps_resultRef (f : Frame) (index : Nat) (address : Bool) :
    Wraps [] (resultRef f index address) Expr.calls :=
  wraps_ite (wraps_breach _) (wraps_pure (by simp))

/-- An object makes no calls. -/
theorem wraps_objectAs (index : Nat) (name : NameId) (exported : Bool) :
    Wraps [] (objectAs index name exported) Expr.calls :=
  wraps_skip (quiet_identifier _ _ _) fun text =>
    wraps_skip (quiet_package? index) fun package => wraps_pure (by simp)

/-- A reference to an object makes no calls. -/
theorem wraps_objectRef (index : Nat) : Wraps [] (objectRef index) Expr.calls :=
  wraps_skip (quiet_object index) fun o => wraps_objectAs index o.name _

/-- A reference to a global makes no calls. -/
theorem wraps_globalRef (usage : Use) (index : Nat) (name : NameId) (linkage : Linkage)
    (address : Bool) : Wraps [] (globalRef usage index name linkage address) Expr.calls := by
  unfold globalRef
  refine wraps_skip (quiet_object index) fun o =>
    wraps_bind (wraps_objectAs index name _) fun x => ?_
  refine wraps_skip (quiet_kind _) fun k => wraps_ite (wraps_pure (by simp)) ?_
  exact wraps_ite (wraps_pure (by simp)) (wraps_pure rfl)

/-- Names of the program are not those of support functions. -/
theorem isSupportName_of_spelling {dict : Dictionary} {key : Identifier.Key} {text : String}
    (h : Identifier.spelling dict key = .ok text) : isSupportName text = false := by
  obtain ⟨first, rest, hlist, hfirst, -, -⟩ := Identifier.isLegal_of_spelling h
  have hne : text ≠ "str" := by
    rintro rfl
    rcases hfirst with rfl | rfl <;> simp at hlist
  rw [isSupportName, hlist]
  rcases hfirst with rfl | rfl <;> simp [hne]

/-- The call of a function of the program is none of a support function. -/
theorem supports_callOf_objectRef {env : Env} {s s' : State} {index : Nat} {callee : Expr}
    (hs : s.identifiers.Sound env.dict) (h : Yields env (objectRef index) s callee s')
    (arguments : List Expr) : supports (callOf callee arguments) = [] := by
  obtain ⟨o, s₁, ho, h⟩ := yields_bind.1 h
  have hs₁ := ((steady_object index).evolves ho).sound hs
  obtain ⟨text, s₂, htext, h⟩ := yields_bind.1 h
  obtain ⟨package, s₃, -, h⟩ := yields_bind.1 h
  obtain ⟨rfl, -⟩ := yields_pure.1 h
  have hspelling : Identifier.spelling env.dict ⟨o.name, o.linkage.isExported, none⟩ =
      .ok text := by
    rw [← (hs₁.identifier _).2]
    exact congrArg Prod.fst htext
  unfold Expr.qualified
  split
  · simp [Call.support_eq_nil (isSupportName_of_spelling hspelling)]
  · simp [Call.support_eq_nil (isSupportName_of_spelling hspelling)]
  · simp

/-! ## Trees -/

/-- The code of the tree supplies its calls, wherever it stands. -/
structure Supplied (P : StringId → Int → Prop) (f : Frame) (t : Tree) : Prop where
  expr : ∀ usage, Supplies P [] (expr f usage t) Expr.calls
  statement : Supplies P [] (statement f t) Stmt.callsAll

/-- The code of a tree of the shape supplies its calls, apart from those of its comma list. -/
def Renders (P : StringId → Int → Prop) (f : Frame) (shape : Shape) : Prop :=
  ∀ usage type position, Supplies P [] (core f usage type position shape) Expr.calls

section

variable {f : Frame}

/-- The arguments of a call supply the calls of all of them. -/
theorem supplies_arguments {ts : List Tree} (h : ∀ t ∈ ts, Supplied P f t) (variadic : Bool)
    (params : List TypeId) : Supplies P [] (arguments f variadic params ts) Expr.callsAll := by
  induction ts generalizing params with
  | nil =>
    rw [arguments]
    exact supplies_pure rfl
  | cons t rest ih =>
    rw [arguments]
    refine supplies_bind ((h t List.mem_cons_self).expr .callArgument) fun x =>
      supplies_skip (quiet_lift _) fun type => ?_
    refine supplies_wraps (wraps_passArgument _ _ type x) fun y hy => ?_
    refine supplies_bind (ih (fun t ht => h t (List.mem_cons_of_mem _ ht)) params.tail) fun xs =>
      supplies_pure ?_
    simp [hy]

/-- A binary operator supplies its calls if its operands do. -/
theorem renders_binary {lhs rhs : Tree} (hl : Supplied P f lhs) (hr : Supplied P f rhs)
    (op : BinaryOp) : Renders P f (.binary op lhs rhs) := by
  intro usage type position
  rw [core]
  refine supplies_skip (quiet_resultType _ _) fun t =>
    supplies_skip (quiet_checkBinary _ _ _) fun _ => ?_
  refine supplies_bind (hl.expr .value) fun l =>
    supplies_bind (hr.expr .value) fun r => supplies_pure ?_
  cases op <;> simp [binaryExpr]

/-- A comparison supplies its calls if its operands do. -/
theorem renders_compare {lhs rhs : Tree} (hl : Supplied P f lhs) (hr : Supplied P f rhs)
    (op : CompareOp) (operandType : TypeId) : Renders P f (.compare op operandType lhs rhs) := by
  intro usage type position
  rw [core]
  refine supplies_bind (hl.expr .operand) fun l => supplies_bind (hr.expr .operand) fun r => ?_
  exact (wraps_compareExpr op operandType l r position).supplies

/-- A unary operator supplies its calls if its operand does. -/
theorem renders_unary {operand : Tree} (h : Supplied P f operand) (op : UnaryOp)
    (operandType : TypeId) : Renders P f (.unary op operandType operand) := by
  intro usage type position
  have hx := h.expr .value
  rw [core]
  refine supplies_skip (quiet_kind _) fun k => ?_
  cases op
  · refine supplies_ite (supplies_bind hx fun x => supplies_pure (by simp)) ?_
    exact supplies_skip (quiet_goType _) fun t => supplies_unsupported _ _
  · refine supplies_ite (supplies_bind hx fun x => supplies_pure (by simp)) ?_
    exact supplies_skip (quiet_goType _) fun t => supplies_unsupported _ _
  · exact supplies_bind (supplies_truthOf hx operand true) fun x => supplies_pure (by simp)
  · exact supplies_bind (supplies_truthOf hx operand false) fun x => supplies_pure (by simp)

/-- A conversion supplies its calls if its operand does. -/
theorem renders_convert {operand : Tree} (h : Supplied P f operand) (source : TypeId) :
    Renders P f (.convert source operand) := by
  intro usage type position
  have hx := h.expr .value
  rw [core]
  have hconvert (isEntry : Bool) : Supplies P [] (if isEntry then expr f .value operand else do
      let dst ← resultType type position
      let x ← expr f .value operand
      convertExpr source dst x position) Expr.calls := by
    refine supplies_ite hx (supplies_skip (quiet_resultType _ _) fun dst =>
      supplies_bind hx fun x => ?_)
    exact (wraps_convertExpr source dst x position).supplies
  split
  · exact supplies_skip (quiet_isMain _) hconvert
  · exact supplies_skip (quiet_pure _) hconvert

/-- A load supplies its calls if its pointer does. -/
theorem renders_load {pointer : Tree} (h : Supplied P f pointer) (pointerType : TypeId) :
    Renders P f (.load pointerType pointer) := by
  intro usage type position
  rw [core]
  refine supplies_ite (supplies_unsupported _ _) (supplies_skip quiet_types fun table => ?_)
  refine supplies_skip (quiet_lift _) fun isFunction => supplies_ite (supplies_unsupported _ _) ?_
  exact supplies_bind (h.expr .value) fun x => supplies_pure (by simp)

/-- A store that does not compute its address once. -/
theorem renders_store {address value : Tree} (ha : Supplied P f address) (hv : Supplied P f value)
    (bits bitOffset : Nat)
    (hplain : (Shape.store bits bitOffset address value).isCompound = false) :
    Renders P f (.store bits bitOffset address value) := by
  intro usage type position
  have hdup : ∀ target type origin comma, address = .mk (.dup target) type origin comma →
      False := by
    rintro target type origin comma rfl
    cases hplain
  rw [core]
  · refine supplies_skip (quiet_resultType _ _) fun stored =>
      supplies_skip (quiet_goType _) fun t => ?_
    refine supplies_ite ?_ (supplies_skip (quiet_kind _) fun k => ?_)
    · refine supplies_bind (supplies_require _ _) fun name =>
        supplies_bind (ha.expr .operand) fun a => ?_
      exact supplies_bind (hv.expr .operand) fun v => supplies_pure (by simp)
    · split
      · refine supplies_bind (supplies_require _ _) fun name =>
          supplies_bind (ha.expr .operand) fun a => ?_
        exact supplies_bind (hv.expr .operand) fun v => supplies_pure (by simp)
      · exact supplies_unsupported _ _
  · exact hdup

/-- A store that computes its address once. -/
theorem renders_compound {target value : Tree} (ht : Supplied P f target) (hv : Supplied P f value)
    (bits bitOffset : Nat) (type : Option TypeId) (origin : Position) (inner : List Tree) :
    Renders P f (.store bits bitOffset (.mk (.dup target) type origin inner) value) := by
  intro usage stored position
  rw [core]
  refine supplies_skip (quiet_resultType _ _) fun stored =>
    supplies_skip (quiet_goType _) fun t => ?_
  refine supplies_ite (supplies_unsupported _ _) (supplies_skip quiet_get fun s => ?_)
  refine supplies_ite (supplies_unsupported _ _)
    (supplies_bind (supplies_require _ _) fun name => ?_)
  refine supplies_bind (ht.expr .operand) fun p =>
    supplies_bind (supplies_inCompound (hv.expr .operand)) fun v => ?_
  exact supplies_pure (by simp [argument?])

/-- A copy asks for its routine, and supplies its calls if both of its addresses do. -/
theorem renders_copy {dst src : Tree} (hd : Supplied P f dst) (hs : Supplied P f src)
    (copied : TypeId) : Renders P f (.copy copied dst src) := by
  intro usage type position
  rw [core]
  refine supplies_bind (supplies_require _ _) fun name =>
    supplies_bind (hd.expr .value) fun d => ?_
  exact supplies_bind (hs.expr .value) fun s => supplies_pure (by simp)

/-- A moved pointer makes the calls of the pointer. -/
@[simp] theorem calls_displaced (base : Expr) (offset : Int) :
    (displaced base offset).calls = base.calls := by
  unfold displaced
  split_ifs <;> simp

/-- What a pointer points to, or its address, makes the calls of the pointer. -/
@[simp] theorem calls_pointed (address : Bool) (pointer : Expr) :
    (pointed address pointer).calls = pointer.calls := by
  unfold pointed
  split <;> simp

/-- An element supplies its calls if its base and its index do. -/
theorem renders_element {base index : Tree} (hb : Supplied P f base) (hi : Supplied P f index)
    (address neg : Bool) : Renders P f (.element address neg base index) := by
  intro usage type position
  rw [core]
  refine supplies_skip (quiet_lift _) fun pointer =>
    supplies_skip (quiet_itemType _ _) fun item => ?_
  refine supplies_skip (quiet_sizeOf _) fun size => supplies_skip (quiet_goType _) fun t => ?_
  refine supplies_bind (hb.expr .value) fun b =>
    supplies_wraps (wraps_addressBits _ b _) fun b' hb' => ?_
  dsimp only
  -- A constant index is not written, and nothing was asked for it either.
  split
  · exact supplies_chain (supplies_pure (g := Expr.calls) (by simp [hb'])) fun place =>
      supplies_pure (by simp)
  · have hplace : Supplies P ([] ++ b.calls) (expr f .value index) fun i =>
        (displacedBy b' neg size i).calls :=
      ((hi.expr .value).frame ([] ++ b.calls)).congr fun i => by simp [displacedBy, hb']
    exact supplies_chain (supplies_map hplace) fun place => supplies_pure (by simp)

/-- A field supplies its calls if its base does. -/
theorem renders_field {base : Tree} (h : Supplied P f base) (index : Nat) (address : Bool) :
    Renders P f (.field index address base) := by
  intro usage type position
  rw [core]
  refine supplies_skip (quiet_lift _) fun pointer =>
    supplies_skip (quiet_fieldKind _ _ _) fun k => ?_
  refine supplies_bind (h.expr .value) fun b => supplies_pure ?_
  cases k <;> cases address <;> simp [fieldExpr]

/-- An increment asks for its routine, and supplies its calls if its operand does. -/
theorem renders_increment {operand : Tree} (h : Supplied P f operand) (pre : Bool) (delta : Int64)
    (bits : Nat) : Renders P f (.increment pre delta bits operand) := by
  intro usage type position
  rw [core]
  refine supplies_ite (supplies_unsupported _ _)
    (supplies_skip (quiet_resultType _ _) fun stored => ?_)
  refine supplies_wraps (wraps_incrementDelta stored _ _) fun d hd =>
    supplies_bind (supplies_require _ _) fun name => ?_
  exact supplies_bind (h.expr .value) fun x => supplies_pure (by simp [hd])

/-- A difference of pointers supplies its calls if its operands do. -/
theorem renders_ptrDiff {lhs rhs : Tree} (hl : Supplied P f lhs) (hr : Supplied P f rhs)
    (pointerType : TypeId) : Renders P f (.ptrDiff pointerType lhs rhs) := by
  intro usage type position
  rw [core]
  refine supplies_skip (quiet_resultType _ _) fun result =>
    supplies_skip (quiet_goType _) fun t => ?_
  refine supplies_skip quiet_types fun table => supplies_skip (quiet_lift _) fun element => ?_
  refine supplies_skip (quiet_sizeOf _) fun size => supplies_ite (supplies_unsupported _ _) ?_
  refine supplies_bind (hl.expr .value) fun l =>
    supplies_wraps (wraps_addressBits _ l _) fun l' hl' => ?_
  refine supplies_bind (hr.expr .value) fun r =>
    supplies_wraps (wraps_addressBits _ r _) fun r' hr' => ?_
  exact supplies_skip quiet_read fun env => supplies_pure (by simp [hl', hr'])

/-- A call of an object supplies its calls if its arguments do. -/
theorem renders_call {args : List Tree} (h : ∀ t ∈ args, Supplied P f t) (index : Nat)
    (functionType : TypeId) : Renders P f (.call index functionType args) := by
  intro usage type position
  rw [core]
  refine supplies_skip (quiet_object index) fun o => ?_
  split
  · exact supplies_breach _
  · refine supplies_after (wraps_objectRef index).quiet
      (Q := fun callee => supports callee.calls = [] ∧
        ∀ arguments, supports (callOf callee arguments) = []) ?_ ?_
    · intro env s callee s' hs hcallee
      exact ⟨(wraps_objectRef index).supports_eq env s callee s' hcallee,
        supports_callOf_objectRef hs hcallee⟩
    · intro callee hcallee
      refine supplies_skip (quiet_parametersOf _) fun parameters => ?_
      refine supplies_bind (supplies_arguments h parameters.2 parameters.1) fun xs =>
        supplies_pure ?_
      simp [hcallee]

/-- A call through a pointer supplies its calls if its callee and its arguments do. -/
theorem renders_callPointer {callee : Tree} {args : List Tree} (hcallee : Supplied P f callee)
    (h : ∀ t ∈ args, Supplied P f t) (pointerType : TypeId) :
    Renders P f (.callPointer pointerType callee args) := by
  intro usage type position
  rw [core]
  refine supplies_skip quiet_types fun table => supplies_skip (quiet_lift _) fun function => ?_
  refine supplies_bind (hcallee.expr .value) fun c =>
    supplies_skip (quiet_parametersOf _) fun parameters => ?_
  exact supplies_bind (supplies_arguments h parameters.2 parameters.1) fun xs =>
    supplies_pure (by simp)

/-- The operators `&&` and `||` supply their calls if their operands do. -/
theorem renders_logical {lhs rhs : Tree} (hl : Supplied P f lhs) (hr : Supplied P f rhs)
    (isAnd : Bool) : Renders P f (.logical isAnd lhs rhs) := by
  intro usage type position
  rw [core]
  refine supplies_bind (supplies_truthOf (hl.expr .value) lhs false) fun l => ?_
  exact supplies_bind (supplies_truthOf (hr.expr .value) rhs false) fun r =>
    supplies_pure (by simp)

/-- The operator `?:` supplies its calls if its operands do. -/
theorem renders_conditional {cond whenTrue whenFalse : Tree} (hc : Supplied P f cond)
    (ha : Supplied P f whenTrue) (hb : Supplied P f whenFalse) :
    Renders P f (.conditional cond whenTrue whenFalse) := by
  intro usage type position
  rw [core]
  refine supplies_skip (quiet_resultType _ _) fun result =>
    supplies_skip (quiet_goType _) fun t => ?_
  refine supplies_bind (supplies_truthOf (hc.expr .value) cond false) fun c =>
    supplies_bind (ha.expr .value) fun a => ?_
  exact supplies_bind (hb.expr .value) fun b => supplies_pure (by simp)

/-- What stands for no value makes no calls. -/
theorem wraps_null (usage : Use) (type : Option TypeId) (position : Position) :
    Wraps [] (core f usage type position .null) Expr.calls := by
  rw [core]
  exact wraps_skip (quiet_resultType _ _) fun t =>
    wraps_ite (wraps_pure (by simp)) (wraps_pure (by simp))

/-- Every shape but that of a store that computes its address once. -/
theorem renders_plain (hP : ∀ id, P id 0) {shape : Shape} (hplain : shape.isCompound = false)
    (h : ∀ t ∈ shape.operands, Supplied P f t) : Renders P f shape := by
  cases shape with
  | argument index address =>
    intro usage type position
    rw [core]
    exact (wraps_argumentRef f index address position).supplies
  | localVar index address =>
    intro usage type position
    rw [core]
    exact (wraps_localRef f usage index address).supplies
  | result index address =>
    intro usage type position
    rw [core]
    exact (wraps_resultRef f index address).supplies
  | global index name linkage address =>
    intro usage type position
    rw [core]
    exact (wraps_globalRef usage index name linkage address).supplies
  | const32 value =>
    intro usage type position
    rw [core]
    exact supplies_skip (quiet_resultType _ _) fun t => (wraps_constant t _ _ _ position).supplies
  | const64 value =>
    intro usage type position
    rw [core]
    exact supplies_skip (quiet_resultType _ _) fun t => (wraps_constant t _ _ _ position).supplies
  | stringConst id =>
    intro usage type position
    rw [core]
    exact supplies_skip (quiet_resultType _ _) fun t => supplies_stringPointer (hP id) t position
  | null => exact fun usage type position => (wraps_null usage type position).supplies
  | binary op lhs rhs =>
    exact renders_binary (h lhs (by simp [Shape.operands])) (h rhs (by simp [Shape.operands])) op
  | compare op operandType lhs rhs =>
    exact renders_compare (h lhs (by simp [Shape.operands])) (h rhs (by simp [Shape.operands]))
      op operandType
  | unary op operandType operand =>
    exact renders_unary (h operand (by simp [Shape.operands])) op operandType
  | convert source operand => exact renders_convert (h operand (by simp [Shape.operands])) source
  | load pointerType pointer =>
    exact renders_load (h pointer (by simp [Shape.operands])) pointerType
  | store bits bitOffset address value =>
    exact renders_store (h address (by simp [Shape.operands])) (h value (by simp [Shape.operands]))
      bits bitOffset hplain
  | copy copied dst src =>
    exact renders_copy (h dst (by simp [Shape.operands])) (h src (by simp [Shape.operands])) copied
  | element address neg base index =>
    exact renders_element (h base (by simp [Shape.operands]))
      (h index (by simp [Shape.operands])) address neg
  | field index address base =>
    exact renders_field (h base (by simp [Shape.operands])) index address
  | increment pre delta bits operand =>
    exact renders_increment (h operand (by simp [Shape.operands])) pre delta bits
  | ptrDiff pointerType lhs rhs =>
    exact renders_ptrDiff (h lhs (by simp [Shape.operands]))
      (h rhs (by simp [Shape.operands])) pointerType
  | call index functionType args =>
    exact renders_call (fun t ht => h t (by simpa [Shape.operands] using ht)) index functionType
  | callPointer pointerType callee args =>
    exact renders_callPointer (h callee (by simp [Shape.operands]))
      (fun t ht => h t (by simp [Shape.operands, ht])) pointerType
  | logical isAnd lhs rhs =>
    exact renders_logical (h lhs (by simp [Shape.operands]))
      (h rhs (by simp [Shape.operands])) isAnd
  | conditional cond whenTrue whenFalse =>
    exact renders_conditional (h cond (by simp [Shape.operands]))
      (h whenTrue (by simp [Shape.operands])) (h whenFalse (by simp [Shape.operands]))
  | dup target =>
    intro usage type position
    rw [core]
    exact supplies_unsupported _ _
  | dupRef =>
    intro usage type position
    rw [core]
    exact supplies_skip quiet_get fun s =>
      supplies_ite (supplies_unsupported _ _) (supplies_pure (by simp))

/-- Statements supply the calls of all of them. -/
theorem supplies_statements {ts : List Tree} (h : ∀ t ∈ ts, Supplied P f t) :
    Supplies P [] (statements f ts) Stmt.callsAll := by
  induction ts with
  | nil =>
    rw [statements]
    exact supplies_pure rfl
  | cons t rest ih =>
    rw [statements]
    refine supplies_bind (h t List.mem_cons_self).statement fun first => ?_
    exact supplies_bind (ih fun t ht => h t (List.mem_cons_of_mem _ ht)) fun more =>
      supplies_pure (by simp)

/-- A statement makes the calls in front of it and those of its expression. -/
theorem callsAll_effect {shape : Shape} (h : shape ≠ .null) (before : List Stmt) (x : Expr) :
    Stmt.callsAll (effect shape before x) = Stmt.callsAll before ++ x.calls := by
  unfold effect
  split
  · exact absurd rfl h
  · split <;> simp

/-- The side effects before a tree are run in front of it. -/
theorem supplied_mk {shape : Shape} {comma : List Tree} (hshape : Renders P f shape)
    (hcomma : ∀ t ∈ comma, Supplied P f t) (type : Option TypeId) (position : Position) :
    Supplied P f (.mk shape type position comma) := by
  constructor
  · intro usage
    cases comma with
    | nil =>
      rw [expr]
      exact hshape usage type position
    | cons first rest =>
      rw [expr]
      refine supplies_bind (hcomma first List.mem_cons_self).statement fun effects => ?_
      refine supplies_bind (supplies_statements fun t ht => hcomma t (List.mem_cons_of_mem _ ht))
        fun more => ?_
      cases type with
      | none => exact supplies_bind (hshape usage none position) fun x => supplies_pure (by simp)
      | some id =>
        have hinvoke : Supplies P ([] ++ Stmt.callsAll effects ++ Stmt.callsAll more) (do
            let t ← goType id
            let x ← core f usage (some id) position shape
            return Expr.invoke [t] (effects ++ more) (.ret [x])) Expr.calls :=
          supplies_skip (quiet_goType id) fun t =>
            supplies_bind (hshape usage (some id) position) fun x => supplies_pure (by simp)
        dsimp only
        refine supplies_ite (supplies_skip (quiet_kind _) fun k => ?_) hinvoke
        split_ifs
        · exact supplies_skip (quiet_unsupported _ _) fun _ => hinvoke
        · exact hinvoke
  · rw [statement]
    refine supplies_bind (supplies_statements hcomma) fun before => ?_
    by_cases hnull : shape = .null
    · -- The code of a null pointer is no statement, but it calls nothing.
      subst hnull
      exact supplies_wraps (wraps_null .value type position) fun x _ =>
        supplies_pure (by simp [effect])
    · refine supplies_bind (hshape .value type position) fun x => supplies_pure ?_
      rw [callsAll_effect hnull, List.nil_append]

/-- The code of every tree supplies its calls. -/
theorem supplied (hP : ∀ id, P id 0) (f : Frame) (t : Tree) : Supplied P f t := by
  induction t using Tree.compoundInduction with
  | plain shape type position comma hplain hcomma hoperands =>
    exact supplied_mk (renders_plain hP hplain hoperands) hcomma type position
  | compound bits bitOffset target type origin inner value stored position comma hcomma hinner
      htarget hvalue =>
    exact supplied_mk (renders_compound htarget hvalue bits bitOffset type origin inner) hcomma
      stored position

end

end StackToGo.Emit
