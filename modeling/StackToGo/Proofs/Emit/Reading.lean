import StackToGo.Proofs.Compound
import StackToGo.Proofs.Emit.Scene

/-!
# What the code of a tree refers to

The Go code of a tree refers to the same things as the tree, in the same order: for each variable
and function of the tree there is a name in the code, for each store that computes its address once
there is one definition of `p`, and each second use of the address is a `p` in the scope of that
definition. A store inside the value of another one is refused, so there is at most one definition
around.

What is proved about trees and the marks of their code is a `Reading`: a property that holds of a
tree if it holds of its comma list and its operands. A reading then holds of all trees that are
written (`Reading.reads_and_runs`).
-/

namespace StackToGo.Emit

/-! ## Readings -/

/-- A property of a tree and of the marks of its code, at a place. It holds of a tree if it holds
of its comma list and its operands, whose marks follow each other in the code. -/
structure Reading where
  holds : Scene → Tree → List Go.Mark → Prop
  plain {σ : Scene} {shape : Shape} {type : Option TypeId} {position : Position}
    {comma : List Tree} {effects parts : List (List Go.Mark)} {own : List Go.Mark}
      (hplain : shape.isCompound = false) (hcomma : List.Forall₂ (holds σ) comma effects)
        (hown : σ.OwnMarks shape position own)
    (hoperands : List.Forall₂ (holds σ) shape.operands parts) :
    holds σ (.mk shape type position comma) (effects.flatten ++ (own ++ parts.flatten))
  compound {env : Env} {f : Frame} {bits bitOffset : Nat} {target value : Tree}
    {type stored : Option TypeId} {origin position : Position} {comma : List Tree}
      {effects : List (List Go.Mark)} {p : Go.Expr} {marks : List Go.Mark}
        (hcomma : List.Forall₂ (holds ⟨env, f, [], none⟩) comma effects)
    (hgives : Gives env (expr f .operand target) p)
      (htarget : holds ⟨env, f, [], none⟩ target (p.marks none))
    (hvalue : holds ⟨env, f, [⟨origin, target⟩], some p⟩ value marks) :
    holds ⟨env, f, [], none⟩
      (.mk (.store bits bitOffset (.mk (.dup target) type origin []) value) stored position comma)
      (effects.flatten ++ (p.marks none ++ .bind p :: .use (some p) :: marks))

namespace Reading

open Scene

variable {R : Reading} {σ : Scene}

/-- The reading holds of the tree wherever its Go expression is used. -/
def Reads (R : Reading) (σ : Scene) (t : Tree) : Prop :=
  ∀ usage, σ.Ensures (expr σ.frame usage t) fun x => R.holds σ t (x.marks σ.bound)

/-- The reading holds of the tree when it is a statement. -/
def Runs (R : Reading) (σ : Scene) (t : Tree) : Prop :=
  σ.Ensures (statement σ.frame t) fun list =>
    DefinesNothing list ∧ R.holds σ t (Go.Stmt.marksAll list σ.bound)

/-- With these marks of its own code, the reading holds of a tree of the shape, whatever comes
before it. -/
def Fits (R : Reading) (σ : Scene) (shape : Shape) (position : Position) (marks : List Go.Mark) :
    Prop :=
  ∀ type comma effects, List.Forall₂ (R.holds σ) comma effects →
    R.holds σ (.mk shape type position comma) (effects.flatten ++ marks)

/-- The reading fits the code of the shape. -/
def Renders (R : Reading) (σ : Scene) (shape : Shape) : Prop :=
  ∀ usage type position, σ.Ensures (core σ.frame usage type position shape) fun x =>
    R.Fits σ shape position (x.marks σ.bound)

/-- A shape without operands has only marks of its own. -/
theorem fits_own {shape : Shape} {position : Position} {own : List Go.Mark}
    (hplain : shape.isCompound = false) (hown : σ.OwnMarks shape position own)
    (hoperands : shape.operands = []) : R.Fits σ shape position own := by
  intro type comma effects hcomma
  have hparts : List.Forall₂ (R.holds σ) shape.operands [] := hoperands ▸ .nil
  simpa using R.plain hplain hcomma hown hparts

/-- The code of most shapes has the marks of their operands only. -/
theorem fits_operands {shape : Shape} {position : Position} {parts : List (List Go.Mark)}
    {marks : List Go.Mark} (hplain : shape.isCompound = false)
    (hown : shape.ownMarks position σ.within = [])
    (hparts : List.Forall₂ (R.holds σ) shape.operands parts) (h : marks = parts.flatten) :
    R.Fits σ shape position marks := by
  intro type comma effects hcomma
  have hnone : σ.OwnMarks shape position [] := by
    refine ⟨?_, ?_⟩
    · rw [hown]
      exact .nil
    · rintro index address rfl
      cases hown
  rw [h]
  simpa using R.plain hplain hcomma hnone hparts

/-- A constant has no marks, and every reading holds of it. -/
theorem holds_of_constant? {t : Tree} {i : Int} (h : t.constant? = some i) : R.holds σ t [] := by
  unfold Tree.constant? at h
  split at h
  case h_1 value type position =>
    have hfits : R.Fits σ (.const32 value) position [] := fits_operands rfl rfl .nil rfl
    exact hfits type [] [] .nil
  case h_2 value type position =>
    have hfits : R.Fits σ (.const64 value) position [] := fits_operands rfl rfl .nil rfl
    exact hfits type [] [] .nil
  case h_3 => cases h

/-- The code of a shape without operands, other than an argument, has a reading. -/
theorem ensures_leaf {m : Emit Go.Expr} {shape : Shape} {position : Position}
    (hplain : shape.isCompound = false) (hoperands : shape.operands = [])
    (hargument : ∀ index address, shape ≠ .argument index address)
    (hm : σ.Prints m (shape.ownMarks position σ.within)) :
    σ.Ensures m fun x => R.Fits σ shape position (x.marks σ.bound) :=
  hm.mono fun _ hx =>
    fits_own hplain ⟨hx, fun index address h => absurd h (hargument index address)⟩ hoperands

/-- The arguments of a call have a reading each, one after the other. -/
theorem ensures_arguments {ts : List Tree} (h : ∀ t ∈ ts, R.Reads σ t) (variadic : Bool)
    (params : List TypeId) :
    σ.Ensures (arguments σ.frame variadic params ts) fun xs =>
      ∃ parts, List.Forall₂ (R.holds σ) ts parts ∧
        Go.Expr.marksAll xs σ.bound = parts.flatten := by
  induction ts generalizing params with
  | nil =>
    rw [arguments]
    exact ensures_pure ⟨[], .nil, rfl⟩
  | cons t rest ih =>
    rw [arguments]
    refine ensures_bind (steady_expr _ _ t) (h t List.mem_cons_self .callArgument) fun x hx => ?_
    refine ensures_skip (steady_lift _) fun type => ?_
    refine ensures_bind (steady_passArgument _ _ _ _) (σ.ensures_passArgument _ _ _ x)
      fun y hy => ?_
    have hrest := ih (fun t ht => h t (List.mem_cons_of_mem _ ht)) params.tail
    refine ensures_bind (steady_arguments _ _ _ rest) hrest fun more ⟨parts, hparts, hmore⟩ => ?_
    refine ensures_pure ⟨x.marks σ.bound :: parts, .cons hx hparts, ?_⟩
    rw [Go.Expr.marksAll_cons, hy, hmore, List.flatten_cons]

/-! ## Shapes -/

/-- A reference to an argument has a reading. -/
theorem renders_argument (index : Nat) (address : Bool) :
    R.Renders σ (.argument index address) := by
  intro usage type position
  rw [core]
  refine (σ.ensures_argumentRef index address position).mono fun x ⟨text, hspells, hx⟩ =>
    fits_own rfl ⟨?_, ?_⟩ rfl
  · rw [hx]
    exact .cons (.name text) .nil
  · rintro index' address' ⟨⟩
    exact ⟨text, hspells, hx⟩

/-- A binary operator has a reading if its operands have. -/
theorem renders_binary {lhs rhs : Tree} (hl : R.Reads σ lhs) (hr : R.Reads σ rhs) (op : BinaryOp) :
    R.Renders σ (.binary op lhs rhs) := by
  intro usage type position
  rw [core]
  refine ensures_skip (steady_resultType _ _) fun t =>
    ensures_skip (steady_checkBinary _ _ _) fun _ => ?_
  refine ensures_bind (steady_expr _ _ lhs) (hl .value) fun l hl => ?_
  refine ensures_bind (steady_expr _ _ rhs) (hr .value) fun r hr => ensures_pure ?_
  have hname : Go.nameMarks "uint" σ.bound = [] := rfl
  refine fits_operands rfl rfl (.cons hl (.cons hr .nil)) ?_
  cases op <;> simp [binaryExpr, Go.Expr.callName, hname]

/-- A comparison has a reading if its operands have. -/
theorem renders_compare {lhs rhs : Tree} (hl : R.Reads σ lhs) (hr : R.Reads σ rhs) (op : CompareOp)
    (operandType : TypeId) :
    R.Renders σ (.compare op operandType lhs rhs) := by
  intro usage type position
  rw [core]
  refine ensures_bind (steady_expr _ _ lhs) (hl .operand) fun l hl => ?_
  refine ensures_bind (steady_expr _ _ rhs) (hr .operand) fun r hr => ?_
  refine (σ.ensures_compareExpr op operandType l r position).mono fun x hx => ?_
  exact fits_operands rfl rfl (.cons hl (.cons hr .nil)) (by simp [hx])

/-- A unary operator has a reading if its operand has. -/
theorem renders_unary {operand : Tree} (h : R.Reads σ operand) (op : UnaryOp)
    (operandType : TypeId) : R.Renders σ (.unary op operandType operand) := by
  intro usage type position
  have hsteady := steady_expr σ.frame .value operand
  have hx : σ.Ensures (expr σ.frame .value operand) fun x =>
      R.Fits σ (.unary op operandType operand) position (x.marks σ.bound) :=
    (h .value).mono fun x hx => fits_operands rfl rfl (.cons hx .nil) (by simp)
  rw [core]
  refine ensures_skip (steady_kind _) fun k => ?_
  cases op
  · refine ensures_ite (ensures_bind hsteady hx fun x hx => ensures_pure (by simpa using hx)) ?_
    exact ensures_skip (steady_goType _) fun t => ensures_unsupported _ _ _
  · refine ensures_ite (ensures_bind hsteady hx fun x hx => ensures_pure (by simpa using hx)) ?_
    exact ensures_skip (steady_goType _) fun t => ensures_unsupported _ _ _
  · exact ensures_bind (steady_truthOf hsteady operand true)
      (σ.ensures_truthOf hsteady hx operand true) fun x hx =>
      ensures_pure (by simpa using hx)
  · exact ensures_bind (steady_truthOf hsteady operand false)
      (σ.ensures_truthOf hsteady hx operand false) fun x hx =>
      ensures_pure (by simpa using hx)

/-- A conversion has a reading if its operand has. -/
theorem renders_convert {operand : Tree} (h : R.Reads σ operand) (source : TypeId) :
    R.Renders σ (.convert source operand) := by
  intro usage type position
  have hsteady := steady_expr σ.frame .value operand
  have hx : σ.Ensures (expr σ.frame .value operand) fun x =>
      R.Fits σ (.convert source operand) position (x.marks σ.bound) :=
    (h .value).mono fun x hx => fits_operands rfl rfl (.cons hx .nil) (by simp)
  rw [core]
  have hconvert (isEntry : Bool) : σ.Ensures (if isEntry then expr σ.frame .value operand else do
      let dst ← resultType type position
      let x ← expr σ.frame .value operand
      convertExpr source dst x position)
      fun x => R.Fits σ (.convert source operand) position (x.marks σ.bound) := by
    refine ensures_ite hx (ensures_skip (steady_resultType _ _) fun dst =>
      ensures_bind hsteady hx fun x hx => ?_)
    refine (σ.ensures_convertExpr source dst x position).mono fun y hy => ?_
    rwa [hy]
  split
  · exact ensures_skip (steady_isMain _) hconvert
  · exact ensures_skip (steady_pure _) hconvert

/-- A load has a reading if its pointer has. -/
theorem renders_load {pointer : Tree} (h : R.Reads σ pointer) (pointerType : TypeId) :
    R.Renders σ (.load pointerType pointer) := by
  intro usage type position
  rw [core]
  refine ensures_ite (ensures_unsupported _ _ _) (ensures_skip steady_types fun table => ?_)
  refine ensures_skip (steady_lift _) fun isFunction => ensures_ite (ensures_unsupported _ _ _) ?_
  refine ensures_bind (steady_expr _ _ pointer) (h .value) fun x hx => ensures_pure ?_
  exact fits_operands rfl rfl (.cons hx .nil) (by simp)

/-- A store that does not compute its address once. -/
theorem renders_store {address value : Tree} (ha : R.Reads σ address) (hv : R.Reads σ value)
    (bits bitOffset : Nat)
    (hplain : (Shape.store bits bitOffset address value).isCompound = false) :
    R.Renders σ (.store bits bitOffset address value) := by
  intro usage type position
  have hdup : ∀ target type origin comma, address = .mk (.dup target) type origin comma →
      False := by
    rintro target type origin comma rfl
    cases hplain
  rw [core]
  · refine ensures_skip (steady_resultType _ _) fun stored =>
      ensures_skip (steady_goType _) fun t => ?_
    refine ensures_ite ?_ (ensures_skip (steady_kind _) fun k => ?_)
    · refine ensures_bind (steady_require _ _) (σ.ensures_require _ _) fun name hname => ?_
      refine ensures_bind (steady_expr _ _ address) (ha .operand) fun a ha => ?_
      refine ensures_bind (steady_expr _ _ value) (hv .operand) fun v hv => ensures_pure ?_
      exact fits_operands hplain rfl (.cons ha (.cons hv .nil)) (by simp [Go.Expr.callName, hname])
    · split
      · refine ensures_bind (steady_require _ _) (σ.ensures_require _ _) fun name hname => ?_
        refine ensures_bind (steady_expr _ _ address) (ha .operand) fun a ha => ?_
        refine ensures_bind (steady_expr _ _ value) (hv .operand) fun v hv => ensures_pure ?_
        exact fits_operands hplain rfl (.cons ha (.cons hv .nil))
          (by simp [Go.Expr.callName, hname])
      · exact ensures_unsupported _ _ _
  · exact hdup

/-- A copy has a reading if both of its addresses have. -/
theorem renders_copy {dst src : Tree} (hd : R.Reads σ dst) (hs : R.Reads σ src) (copied : TypeId) :
    R.Renders σ (.copy copied dst src) := by
  intro usage type position
  rw [core]
  refine ensures_bind (steady_require _ _) (σ.ensures_require _ _) fun name hname => ?_
  refine ensures_bind (steady_expr _ _ dst) (hd .value) fun d hd => ?_
  refine ensures_bind (steady_expr _ _ src) (hs .value) fun s hs => ensures_pure ?_
  exact fits_operands rfl rfl (.cons hd (.cons hs .nil)) (by simp [Go.Expr.callName, hname])

/-- An element has a reading if its base and its index have. -/
theorem renders_element {base index : Tree} (hb : R.Reads σ base) (hi : R.Reads σ index)
    (address neg : Bool) : R.Renders σ (.element address neg base index) := by
  intro usage type position
  rw [core]
  refine ensures_skip (steady_lift _) fun pointer =>
    ensures_skip (steady_itemType _ _) fun item => ?_
  refine ensures_skip (steady_sizeOf _) fun size => ensures_skip (steady_goType _) fun t => ?_
  refine ensures_bind (steady_expr _ _ base) (hb .value) fun b hb => ?_
  refine ensures_bind (steady_addressBits _ _ _) (σ.ensures_addressBits _ b _) fun b' hb' => ?_
  dsimp only
  have hplace {place : Emit Go.Expr} (hsteady : Steady place) (hplace : σ.Ensures place fun x =>
      R.Fits σ (.element address neg base index) position (x.marks σ.bound)) :
      σ.Ensures (do return pointed address (.reinterpret (.pointer t) (← place)))
        fun x => R.Fits σ (.element address neg base index) position (x.marks σ.bound) :=
    ensures_bind hsteady hplace fun x hx => ensures_pure (by simpa [marks_pointed] using hx)
  split
  · rename_i i hconstant
    refine hplace (steady_pure _) (ensures_pure ?_)
    have hnone : R.holds σ index [] := holds_of_constant? hconstant
    exact fits_operands rfl rfl (.cons hb (.cons hnone .nil)) (by simp [marks_displaced, hb'])
  · refine hplace (steady_map _ (steady_expr _ _ index))
      (ensures_map ((hi .value).mono fun i hi => ?_))
    exact fits_operands rfl rfl (.cons hb (.cons hi .nil)) (by simp [displacedBy, hb'])

/-- A field has a reading if its base has. -/
theorem renders_field {base : Tree} (h : R.Reads σ base) (index : Nat) (address : Bool) :
    R.Renders σ (.field index address base) := by
  intro usage type position
  rw [core]
  refine ensures_skip (steady_lift _) fun pointer =>
    ensures_skip (steady_fieldKind _ _ _) fun k => ?_
  refine ensures_bind (steady_expr _ _ base) (h .value) fun b hb => ensures_pure ?_
  refine fits_operands rfl rfl (.cons hb .nil) ?_
  cases k <;> cases address <;> simp [fieldExpr, pointed]

/-- An increment has a reading if its operand has. -/
theorem renders_increment {operand : Tree} (h : R.Reads σ operand) (pre : Bool) (delta : Int64)
    (bits : Nat) : R.Renders σ (.increment pre delta bits operand) := by
  intro usage type position
  rw [core]
  refine ensures_ite (ensures_unsupported _ _ _)
    (ensures_skip (steady_resultType _ _) fun stored => ?_)
  refine ensures_bind (steady_incrementDelta _ _ _) (σ.prints_incrementDelta _ _ _) fun d hd => ?_
  refine ensures_bind (steady_require _ _) (σ.ensures_require _ _) fun name hname => ?_
  refine ensures_bind (steady_expr _ _ operand) (h .value) fun x hx => ensures_pure ?_
  exact fits_operands rfl rfl (.cons hx .nil)
    (by simp [Go.Expr.callName, hname, List.forall₂_nil_left_iff.1 hd])

/-- A difference of pointers has a reading if its operands have. -/
theorem renders_ptrDiff {lhs rhs : Tree} (hl : R.Reads σ lhs) (hr : R.Reads σ rhs)
    (pointerType : TypeId) : R.Renders σ (.ptrDiff pointerType lhs rhs) := by
  intro usage type position
  rw [core]
  refine ensures_skip (steady_resultType _ _) fun result =>
    ensures_skip (steady_goType _) fun t => ?_
  refine ensures_skip steady_types fun table => ensures_skip (steady_lift _) fun element => ?_
  refine ensures_skip (steady_sizeOf _) fun size => ensures_ite (ensures_unsupported _ _ _) ?_
  refine ensures_bind (steady_expr _ _ lhs) (hl .value) fun l hl => ?_
  refine ensures_bind (steady_addressBits _ _ _) (σ.ensures_addressBits _ l _) fun l' hl' => ?_
  refine ensures_bind (steady_expr _ _ rhs) (hr .value) fun r hr => ?_
  refine ensures_bind (steady_addressBits _ _ _) (σ.ensures_addressBits _ r _) fun r' hr' => ?_
  refine ensures_skip steady_read fun env => ensures_pure ?_
  exact fits_operands rfl rfl (.cons hl (.cons hr .nil)) (by simp [hl', hr'])

/-- A call of an object has a reading if its arguments have. -/
theorem renders_call {args : List Tree} (h : ∀ t ∈ args, R.Reads σ t) (index : Nat)
    (functionType : TypeId) : R.Renders σ (.call index functionType args) := by
  intro usage type position
  rw [core]
  refine ensures_skip (steady_object index) fun o => ?_
  split
  · exact ensures_breach _ _
  · refine ensures_bind (steady_objectRef index) (σ.prints_objectRef index)
      fun callee hcallee => ?_
    refine ensures_skip (steady_parametersOf _) fun parameters => ?_
    have hargs := ensures_arguments h parameters.2 parameters.1
    refine ensures_bind (steady_arguments _ _ _ args) hargs fun xs hargs => ensures_pure ?_
    obtain ⟨parts, hparts, hxs⟩ := hargs
    intro type comma effects hcomma
    have hown : σ.OwnMarks (.call index functionType args) position (callee.marks σ.bound) :=
      ⟨hcallee, fun index' address heq => by cases heq⟩
    rw [Go.Expr.marks_call, hxs]
    exact R.plain rfl hcomma hown hparts

/-- A call through a pointer has a reading if its callee and its arguments have. -/
theorem renders_callPointer {callee : Tree} {args : List Tree} (hcallee : R.Reads σ callee)
    (h : ∀ t ∈ args, R.Reads σ t) (pointerType : TypeId) :
    R.Renders σ (.callPointer pointerType callee args) := by
  intro usage type position
  rw [core]
  refine ensures_skip steady_types fun table => ensures_skip (steady_lift _) fun function => ?_
  refine ensures_bind (steady_expr _ _ callee) (hcallee .value) fun c hc => ?_
  refine ensures_skip (steady_parametersOf _) fun parameters => ?_
  have hargs := ensures_arguments h parameters.2 parameters.1
  refine ensures_bind (steady_arguments _ _ _ args) hargs fun xs ⟨parts, hparts, hxs⟩ =>
    ensures_pure ?_
  refine fits_operands rfl rfl (.cons hc hparts) ?_
  rw [Go.Expr.marks_call, Go.Expr.marks_paren, hxs, List.flatten_cons]

/-- The operators `&&` and `||` have a reading if their operands have. -/
theorem renders_logical {lhs rhs : Tree} (hl : R.Reads σ lhs) (hr : R.Reads σ rhs) (isAnd : Bool) :
    R.Renders σ (.logical isAnd lhs rhs) := by
  intro usage type position
  have hl := σ.ensures_truthOf (P := R.holds σ lhs) (steady_expr _ _ lhs) (hl .value) lhs false
  have hr := σ.ensures_truthOf (P := R.holds σ rhs) (steady_expr _ _ rhs) (hr .value) rhs false
  rw [core]
  refine ensures_bind (steady_truthOf (steady_expr _ _ lhs) lhs false) hl fun l hl => ?_
  refine ensures_bind (steady_truthOf (steady_expr _ _ rhs) rhs false) hr fun r hr =>
    ensures_pure ?_
  exact fits_operands rfl rfl (.cons hl (.cons hr .nil)) (by simp)

/-- The operator `?:` has a reading if its operands have. -/
theorem renders_conditional {cond whenTrue whenFalse : Tree} (hc : R.Reads σ cond)
    (ha : R.Reads σ whenTrue) (hb : R.Reads σ whenFalse) :
    R.Renders σ (.conditional cond whenTrue whenFalse) := by
  intro usage type position
  have hc := σ.ensures_truthOf (P := R.holds σ cond) (steady_expr _ _ cond) (hc .value) cond false
  rw [core]
  refine ensures_skip (steady_resultType _ _) fun result =>
    ensures_skip (steady_goType _) fun t => ?_
  refine ensures_bind (steady_truthOf (steady_expr _ _ cond) cond false) hc fun c hc => ?_
  refine ensures_bind (steady_expr _ _ whenTrue) (ha .value) fun a ha => ?_
  refine ensures_bind (steady_expr _ _ whenFalse) (hb .value) fun b hb => ensures_pure ?_
  exact fits_operands rfl rfl (.cons hc (.cons ha (.cons hb .nil)))
    (by simp [Go.Stmt.rebindAll, Go.Stmt.rebind])

/-- A second use of the address is a `p` that is bound to it, and is refused where there is
none. -/
theorem renders_dupRef : R.Renders σ .dupRef := by
  intro usage type position
  rw [core]
  intro s x s' hs h
  obtain ⟨s₀, s₁, hget, h⟩ := yields_bind.1 h
  obtain ⟨rfl, rfl⟩ := yields_get.1 hget
  split at h
  · exact absurd h not_yields_unsupported
  · rename_i hopen
    obtain ⟨rfl, -⟩ := yields_pure.1 h
    cases hs with
    | outside hs => exact absurd hs.compoundDepth_eq hopen
    | inside hsound hdepth hx => exact fits_own rfl ⟨.cons (.use hx) .nil, nofun⟩ rfl

/-- Every shape but a compound assignment has a reading if its operands have. -/
theorem renders_plain {shape : Shape} (hplain : shape.isCompound = false)
    (h : ∀ t ∈ shape.operands, R.Reads σ t) : R.Renders σ shape := by
  have hfirst {t : Tree} {rest : List Tree} (ht : shape.operands = t :: rest) : R.Reads σ t :=
    h t (ht ▸ List.mem_cons_self)
  have hsecond {t t' : Tree} {rest : List Tree} (ht : shape.operands = t :: t' :: rest) :
      R.Reads σ t' :=
    h t' (ht ▸ List.mem_cons_of_mem _ List.mem_cons_self)
  cases shape with
  | argument index address => exact renders_argument index address
  | localVar index address =>
    intro usage type position
    rw [core]
    exact ensures_leaf rfl rfl nofun (σ.prints_localRef usage index address)
  | result index address =>
    intro usage type position
    rw [core]
    exact ensures_leaf rfl rfl nofun (σ.prints_resultRef index address)
  | global index name linkage address =>
    intro usage type position
    rw [core]
    exact ensures_leaf rfl rfl nofun (σ.prints_globalRef usage index name linkage address)
  | const32 value =>
    intro usage type position
    rw [core]
    exact ensures_skip (steady_resultType _ _) fun t =>
      ensures_leaf rfl rfl nofun (σ.prints_constant _ _ _ _ _)
  | const64 value =>
    intro usage type position
    rw [core]
    exact ensures_skip (steady_resultType _ _) fun t =>
      ensures_leaf rfl rfl nofun (σ.prints_constant _ _ _ _ _)
  | stringConst id =>
    intro usage type position
    rw [core]
    exact ensures_skip (steady_resultType _ _) fun t =>
      ensures_leaf rfl rfl nofun (σ.prints_stringPointer _ _ _ _)
  | null =>
    intro usage type position
    rw [core]
    refine ensures_skip (steady_resultType _ _) fun t => ensures_leaf rfl rfl nofun ?_
    exact ensures_ite (σ.prints_nil (by simp)) (σ.prints_nil (by simp))
  | binary op lhs rhs => exact renders_binary (hfirst rfl) (hsecond rfl) op
  | compare op operandType lhs rhs =>
    exact renders_compare (hfirst rfl) (hsecond rfl) op operandType
  | unary op operandType operand => exact renders_unary (hfirst rfl) op operandType
  | convert source operand => exact renders_convert (hfirst rfl) source
  | load pointerType pointer => exact renders_load (hfirst rfl) pointerType
  | store bits bitOffset address value =>
    exact renders_store (hfirst rfl) (hsecond rfl) bits bitOffset hplain
  | copy copied dst src => exact renders_copy (hfirst rfl) (hsecond rfl) copied
  | element address neg base index => exact renders_element (hfirst rfl) (hsecond rfl) address neg
  | field index address base => exact renders_field (hfirst rfl) index address
  | increment pre delta bits operand => exact renders_increment (hfirst rfl) pre delta bits
  | ptrDiff pointerType lhs rhs => exact renders_ptrDiff (hfirst rfl) (hsecond rfl) pointerType
  | call index functionType args => exact renders_call h index functionType
  | callPointer pointerType callee args =>
    exact renders_callPointer (hfirst rfl) (fun t ht => h t (List.mem_cons_of_mem _ ht))
      pointerType
  | logical isAnd lhs rhs => exact renders_logical (hfirst rfl) (hsecond rfl) isAnd
  | conditional cond whenTrue whenFalse =>
    exact renders_conditional (hfirst rfl) (hsecond rfl) (h whenFalse (by simp [Shape.operands]))
  | dup _ =>
    intro usage type position
    rw [core]
    exact ensures_unsupported _ _ _
  | dupRef => exact renders_dupRef

/-- The code of a store that computes its address once defines `p` as the address, and returns `p`
and the value. -/
theorem marks_compound {name : String} (hname : Go.nameMarks name none = []) (t : Go.Ty)
    (p v : Go.Expr) :
    (Go.Expr.callName name [.invoke [.pointer t, t] [.define "p" p] (.ret [.name "p", v])]).marks
      none = p.marks none ++ .bind p :: .use (some p) :: v.marks (some p) := by
  have huse : Go.nameMarks "p" (some p) = [.use (some p)] := rfl
  simp [Go.Expr.callName, hname, Go.Stmt.rebindAll, Go.Stmt.rebind, huse]

/-- A compound assignment has a reading: its address is read once, where `p` is defined. -/
theorem renders_compound (σ : Scene) {target value : Tree} (htarget : ∀ σ, R.Reads σ target)
    (hvalue : ∀ σ, R.Reads σ value) (bits bitOffset : Nat) (addressType : Option TypeId)
    (origin : Position) (inner : List Tree) :
    R.Renders σ (.store bits bitOffset (.mk (.dup target) addressType origin inner) value) := by
  intro usage type position
  rw [core]
  refine ensures_skip (steady_resultType _ _) fun stored =>
    ensures_skip (steady_goType _) fun t => ?_
  refine ensures_ite (ensures_unsupported _ _ _) ?_
  intro s x s' hs h
  obtain ⟨s₀, s₁, hget, hrest⟩ := yields_bind.1 h
  obtain ⟨rfl, rfl⟩ := yields_get.1 hget
  by_cases hopen : s.compoundDepth = 0 ∧ inner = []
  · obtain ⟨hdepth, rfl⟩ := hopen
    rw [if_neg (by simp [hdepth])] at hrest
    obtain ⟨name, s₂, hrequire, hrest⟩ := yields_bind.1 hrest
    obtain ⟨p, s₃, hp, hrest⟩ := yields_bind.1 hrest
    obtain ⟨v, s₄, hv, hrest⟩ := yields_bind.1 hrest
    obtain ⟨rfl, -⟩ := yields_pure.1 hrest
    obtain ⟨s₅, hv⟩ := exists_yields_of_inCompound hv
    have hname := σ.ensures_require _ _ s name s₂ hs hrequire
    cases hs with
    | inside hsound hone hx => exact absurd hone (by simp [hdepth])
    | @outside env f s hs =>
      have hs₂ := hs.evolves ((steady_require _ _).evolves hrequire)
      have hs₃ := hs₂.evolves ((steady_expr _ _ target).evolves hp)
      have hgives : Gives env (expr f .operand target) p := ⟨s₂, s₃, hs₂, hp⟩
      have hinside :
          Admits ⟨env, f, [⟨origin, target⟩], some p⟩
            { s₃ with compoundDepth := s₃.compoundDepth + 1 } :=
        .inside hs₃.sound (congrArg (· + 1) hs₃.compoundDepth_eq) hgives
      have hmarks := hvalue ⟨env, f, [⟨origin, target⟩], some p⟩ .operand _ v s₅ hinside hv
      intro type comma effects hcomma
      rw [marks_compound hname]
      exact R.compound hcomma hgives (htarget ⟨env, f, [], none⟩ .operand s₂ p s₃
        (.outside hs₂) hp) hmarks
  · rw [if_pos (by simpa [imp_iff_not_or] using hopen)] at hrest
    exact absurd hrest not_yields_unsupported

/-- Statements have a reading each, one after the other, and define nothing. -/
theorem ensures_statements {ts : List Tree} (h : ∀ t ∈ ts, R.Runs σ t) :
    σ.Ensures (statements σ.frame ts) fun list => DefinesNothing list ∧
      ∃ effects, List.Forall₂ (R.holds σ) ts effects ∧
      Go.Stmt.marksAll list σ.bound = effects.flatten := by
  induction ts with
  | nil =>
    rw [statements]
    exact ensures_pure ⟨nofun, [], .nil, rfl⟩
  | cons t rest ih =>
    rw [statements]
    refine ensures_bind (steady_statement _ t) (h t List.mem_cons_self)
      fun first ⟨hnothing, hfirst⟩ => ?_
    have hrest := ih fun t ht => h t (List.mem_cons_of_mem _ ht)
    refine ensures_bind (steady_statements _ rest) hrest
      fun more ⟨hnothing', effects, heffects, hmore⟩ => ?_
    refine ensures_pure ⟨hnothing.append hnothing', _ :: effects, .cons hfirst heffects, ?_⟩
    rw [hnothing.marksAll_append, hmore, List.flatten_cons]

section

variable {shape : Shape} {position : Position} {comma : List Tree}

/-- A tree has a reading as an expression if its shape and its comma list have. -/
theorem reads_mk (type : Option TypeId) (hcore : R.Renders σ shape)
    (hcomma : ∀ t ∈ comma, R.Runs σ t) : R.Reads σ (.mk shape type position comma) := by
  intro usage
  cases comma with
  | nil =>
    rw [expr]
    exact (hcore usage type position).mono fun x hx => hx type [] [] .nil
  | cons first rest =>
    rw [expr]
    refine ensures_bind (steady_statement _ first) (hcomma first List.mem_cons_self)
      fun list ⟨hnothing, hfirst⟩ => ?_
    have hrest := ensures_statements fun t ht => hcomma t (List.mem_cons_of_mem _ ht)
    refine ensures_bind (steady_statements _ rest) hrest
      fun more ⟨hnothing', effects, heffects, hmore⟩ => ?_
    -- The side effects stand in the body of a function, in front of what it returns.
    have hinvoke (results : List Go.Ty) {last : Go.Stmt}
        (hlast : R.Fits σ shape position (last.marks σ.bound)) :
        R.holds σ (.mk shape type position (first :: rest))
          ((Go.Expr.invoke results (list ++ more) last).marks σ.bound) := by
      rw [Go.Expr.marks_invoke, Go.Stmt.rebindAll_of_forall _ (hnothing.append hnothing'),
        hnothing.marksAll_append, hmore]
      exact hlast type (first :: rest) (_ :: effects) (.cons hfirst heffects)
    split
    case h_1 id =>
      have hreturn : σ.Ensures (do
          let t ← goType id
          let x ← core σ.frame usage (some id) position shape
          return Go.Expr.invoke [t] (list ++ more) (.ret [x]))
          fun x => R.holds σ (.mk shape (some id) position (first :: rest)) (x.marks σ.bound) :=
        ensures_skip (steady_goType id) fun t =>
          ensures_bind (steady_core _ _ _ _ _) (hcore _ _ _) fun x hx =>
          ensures_pure (hinvoke [t] (by simpa using hx))
      refine ensures_ite (ensures_skip (steady_kind _) fun k => ?_) hreturn
      split_ifs
      · exact ensures_bind (steady_unsupported _ _) (ensures_unsupported _ _ fun _ => False)
          fun _ h => h.elim
      · exact hreturn
    case h_2 =>
      refine ensures_bind (steady_core _ _ _ _ _) (hcore _ _ _) fun x hx => ?_
      exact ensures_pure (hinvoke [] (by simpa using hx))

/-- A tree has a reading as a statement if its shape and its comma list have. -/
theorem runs_mk (type : Option TypeId) (hcore : R.Renders σ shape)
    (hcomma : ∀ t ∈ comma, R.Runs σ t) : R.Runs σ (.mk shape type position comma) := by
  rw [Runs, statement]
  refine ensures_bind (steady_statements _ comma) (ensures_statements hcomma)
    fun before hbefore => ?_
  obtain ⟨hnothing, effects, heffects, hmarks⟩ := hbefore
  refine ensures_bind (steady_core _ _ _ _ _) (hcore .value type position) fun x hx =>
    ensures_pure ?_
  unfold effect
  split
  · have hnull : R.Fits σ .null position [] := fits_operands rfl rfl .nil rfl
    refine ⟨hnothing, ?_⟩
    rw [hmarks]
    simpa using hnull type comma effects heffects
  · refine ⟨hnothing.append fun s hs bound => ?_, ?_⟩
    · obtain rfl := List.mem_singleton.1 hs
      split <;> rfl
    · have hholds := hx type comma effects heffects
      rw [hnothing.marksAll_append, hmarks]
      split <;> simpa using hholds

end

/-- A reading holds of all trees that are rendered. -/
theorem reads_and_runs (R : Reading) (t : Tree) : ∀ σ, R.Reads σ t ∧ R.Runs σ t := by
  induction t using Tree.compoundInduction with
  | plain shape type position comma hplain hcomma hoperands =>
    intro σ
    have hcore := renders_plain hplain fun t ht => (hoperands t ht σ).1
    exact ⟨reads_mk type hcore fun t ht => (hcomma t ht σ).2,
      runs_mk type hcore fun t ht => (hcomma t ht σ).2⟩
  | compound bits bitOffset target type origin inner value stored position comma hcomma hinner
      htarget hvalue =>
    intro σ
    have hcore :=
      renders_compound σ (fun σ => (htarget σ).1) (fun σ => (hvalue σ).1) bits bitOffset
        type origin inner
    exact ⟨reads_mk stored hcore fun t ht => (hcomma t ht σ).2,
      runs_mk stored hcore fun t ht => (hcomma t ht σ).2⟩

end Reading

end StackToGo.Emit
