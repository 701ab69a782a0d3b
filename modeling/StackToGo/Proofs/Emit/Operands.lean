import StackToGo.Proofs.Emit.ConstantIndex
import StackToGo.Proofs.Emit.Scene
import StackToGo.Proofs.Go.Spelling
import StackToGo.Proofs.Routine

/-!
# Code can stand as an operand

The text of a written expression is that of one operand: a name, an expression between brackets, a
call, a conversion, a selector or an index behind one of these, or the address of one of these. So
it can be put between any other tokens without being read together with parts of them
(`code_is_operand`).

There is one exception. The difference of two pointers is converted to its type without brackets
around the type, which goes wrong if the Go type of the difference is not a name
(`difference_is_no_operand`).
-/

namespace StackToGo

/-- The property holds of the shapes and types of the tree and of all trees in it. -/
def Tree.Everywhere (P : Shape → Option TypeId → Prop) : Tree → Prop :=
  Tree.fold fun shape type _ comma operands => P shape type ∧ (∀ p ∈ comma, p) ∧ ∀ p ∈ operands, p

/-- The property holds of a shape with a type, and of all trees in it. -/
def Shape.Everywhere (P : Shape → Option TypeId → Prop) (shape : Shape) (type : Option TypeId) :
    Prop :=
  P shape type ∧ ∀ t ∈ shape.operands, t.Everywhere P

/-- A property holds everywhere in a tree if it does in its shape and its comma list. -/
theorem Tree.everywhere_mk {P : Shape → Option TypeId → Prop} {shape : Shape}
    {type : Option TypeId} {position : Position} {comma : List Tree} :
    (Tree.mk shape type position comma).Everywhere P ↔
      shape.Everywhere P type ∧ ∀ t ∈ comma, t.Everywhere P := by
  rw [Tree.Everywhere, Tree.fold_mk, List.forall_mem_map, List.forall_mem_map,
    and_comm (a := ∀ t ∈ comma, _), ← and_assoc]
  rfl

namespace Emit

open StackToGo.Go
open StackToGo.TypeText (Expands)

/-! ## Names -/

/-- A legal identifier is a name of Go: none of the keywords has its first characters. -/
theorem isIdentifier_of_isLegal {text : String} (h : Identifier.IsLegal text) :
    isIdentifier text := by
  obtain ⟨first, rest, hlist, hfirst, -, hrest⟩ := h
  have hword : ∀ c ∈ rest, isWordChar c := by
    intro c hc
    rcases hrest c hc with hc | rfl | rfl
    · exact isWordChar_of_isAlphanum hc
    · decide
    · decide
  rcases hfirst with rfl | rfl
  · exact isIdentifier_of hlist (by decide) (by decide) hword List.mem_cons_self (by decide)
  · exact isIdentifier_of hlist (by decide) (by decide) hword List.mem_cons_self (by decide)

/-- The identifiers of locals without a name. -/
theorem isIdentifier_numbered (n : Nat) : isIdentifier ("_" ++ toString n) := by
  have hlist : ("_" ++ toString n).toList = '_' :: Nat.toDigits 10 n := by
    rw [String.toList_append, Ty.toList_toString]
    rfl
  exact isIdentifier_of hlist (by decide) (by decide) (fun c hc => isWordChar_of_mem_toDigits hc)
    List.mem_cons_self (by decide)

/-- A digit is no small letter. -/
theorem isLower_of_isDigit {c : Char} (h : c.isDigit) : c.isLower = false := by
  simp only [Char.isDigit, Bool.and_eq_true, decide_eq_true_eq, UInt32.le_iff_toNat_le] at h
  unfold Char.isLower
  simp only [Bool.and_eq_false_iff, decide_eq_false_iff_not, UInt32.le_iff_toNat_le]
  grind

/-- The identifiers of results. -/
theorem isIdentifier_result (n : Nat) : isIdentifier ("r" ++ toString n) := by
  have hlist : ("r" ++ toString n).toList = 'r' :: Nat.toDigits 10 n := by
    rw [String.toList_append, Ty.toList_toString]
    rfl
  obtain ⟨c, hc⟩ := List.exists_mem_of_ne_nil _ (areDigits_toDigits n).1
  have hlower : c.isLower = false := isLower_of_isDigit ((areDigits_toDigits n).2 c hc)
  exact isIdentifier_of hlist (by decide) (by decide) (fun c hc => isWordChar_of_mem_toDigits hc)
    (List.mem_cons_of_mem _ hc) hlower

/-- The name of a routine is a name of Go. -/
theorem isIdentifier_routine (family : Routine.Family) (id : TypeId) :
    isIdentifier (Routine.name family id) := by
  have hlist := Routine.toList_name family id
  have hdigits : ∀ c ∈ Nat.toDigits 10 id.val, isWordChar c :=
    fun c hc => isWordChar_of_mem_toDigits hc
  have hstem : ∃ first rest, family.stem.toList = first :: rest ∧ first.isDigit = false ∧
      isWordChar first ∧
      rest.all isWordChar := by
    cases family <;> exact ⟨_, _, rfl, by decide, by decide, by decide⟩
  obtain ⟨first, rest, hstem, hdigit, hfirst, hrest⟩ := hstem
  rw [hstem, List.cons_append] at hlist
  refine isIdentifier_of hlist hdigit hfirst ?_ (c := '_') (by simp) (by decide)
  intro c hc
  rcases List.mem_append.1 hc with hc | hc
  · exact List.all_eq_true.1 hrest c hc
  · rcases List.mem_cons.1 hc with rfl | hc
    · decide
    · exact hdigits c hc

section

variable {env : Env}

/-- An identifier is a name. -/
theorem delivers_identifier (name : NameId) (exported : Bool) (scope : Scope) :
    Delivers env (identifier name exported scope) fun text => isIdentifier text :=
  fun _ _ _ hs hyields =>
    isIdentifier_of_isLegal (Identifier.isLegal_of_spelling (hs.yields_identifier.1 ⟨_, hyields⟩))

/-- The name of a local is a name. -/
theorem delivers_localName (l : Local) :
    Delivers env (localName l) fun text => isIdentifier text := by
  unfold localName
  dsimp only
  refine delivers_ite (delivers_pure (isIdentifier_numbered _))
    (delivers_skip steady_read fun env' => ?_)
  exact delivers_identifier _ _ _

/-- The name of a routine that is asked for is a name. -/
theorem delivers_require (family : Routine.Family) (id : TypeId) :
    Delivers env (require family id) fun text => isIdentifier text := by
  intro s text s' _ hyields
  obtain ⟨_, s₁, -, htext⟩ := yields_bind.1 hyields
  obtain ⟨rfl, -⟩ := yields_pure.1 htext
  exact isIdentifier_routine family id

/-! ## Types that are names -/

/-- The Go type of a scalar is a name. -/
theorem isNamed_of_isScalar {id : TypeId} {k : Kind} {t : Go.Ty}
    (ht : Expands env.program.types env.target id t) (hkind : env.program.types.kind id = .ok k)
    (hk : k.isScalar) : t.isNamed := by
  cases hget : env.program.types.get id with
  | error e => rw [TypeTable.kind, hget] at hkind; cases hkind
  | ok type =>
    rw [TypeTable.kind, hget] at hkind
    cases hkind
    cases type with
    | scalar s =>
      rw [ht.eq_scalar hget]
      rfl
    | _ => cases hk

/-- What has the shape of an integer is a scalar. -/
theorem isScalar_of_intShape? {k : Kind} {shape : IntShape} (h : k.intShape? = some shape) :
    k.isScalar := by
  cases k with
  | scalar s => rfl
  | _ => cases h

/-- What integers are wrapped to is a scalar. -/
theorem isScalar_of_wrap? {k : Kind} {v w : Int} (h : k.wrap? v = some w) : k.isScalar := by
  obtain ⟨shape, hshape, -⟩ := Option.map_eq_some_iff.1 h
  exact isScalar_of_intShape? hshape

/-- What has the mask of a bit field is a scalar. -/
theorem isScalar_of_fieldMask? {k : Kind} {bits offset : Nat} {mask : Int}
    (h : k.fieldMask? bits offset = some mask) :
    k.isScalar := by
  obtain ⟨shape, hshape, -⟩ := Option.map_eq_some_iff.1 h
  exact isScalar_of_intShape? (Option.filter_eq_some_iff.1 hshape).1

/-! ## Constants -/

/-- The literal `0`, which is no operand by itself but can stand between brackets. -/
theorem spelt_literal (value : Int) (level : Nat) :
    Spelt (.expression level) (Expr.int value).text :=
  (spelt_int value).term level

/-- A conversion to `uintptr` is an operand. -/
theorem operand_uintptr {x : Expr} (h : Spelt (.expression 1) x.text) :
    OperandText (Expr.convert .uintptr x).text :=
  .plain (primary_convert rfl h)

/-- A conversion to an unsafe pointer is a primary phrase. -/
theorem primary_unsafePointer {x : Expr} (h : Spelt (.expression 1) x.text) :
    PrimaryText (Expr.unsafePointer x).text :=
  primary_call (primary_qualified (by decide) (by decide)) (by simpa using h)

/-- The bits of an address are an operand. -/
theorem operand_addressBits {x : Expr} (h : Spelt (.expression 1) x.text) :
    OperandText (Expr.addressBits x).text :=
  operand_uintptr ((primary_unsafePointer h).expression 1)

/-- A reinterpreted value is a primary phrase. -/
theorem primary_reinterpret (t : Go.Ty) {x : Expr} (h : Spelt (.expression 1) x.text) :
    PrimaryText (Expr.reinterpret t x).text :=
  primary_cast t ((primary_unsafePointer h).expression 1)

/-- An integer made of a truth value is an operand. -/
theorem operand_ofBool {x : Expr} (h : Spelt (.expression 1) x.text) :
    OperandText (Expr.ofBool x).text :=
  .plain (primary_callName (by decide) (by simpa using h))

/-- A float, as a decimal number or by its bits, is a primary phrase. -/
theorem primary_floatExpr (f : Number.Format) (t : Scalar) {fromBits : String}
    (hname : isIdentifier fromBits) (hwidth : 0 < (f.fraction + f.exponent + 1) / 4) (bits : Nat) :
    PrimaryText (floatExpr f t fromBits bits).text := by
  unfold floatExpr
  split
  case isTrue h => exact primary_convert rfl ((spelt_float (Bool.and_eq_true_iff.1 h).1).term 1)
  case isFalse =>
    exact primary_call (primary_qualified (by decide) hname)
      (by simpa using (spelt_hex hwidth bits).term 1)

/-- A single is a primary phrase. -/
theorem primary_float32 (bits : UInt32) : PrimaryText (float32 bits).text :=
  primary_floatExpr _ _ (by decide) (by decide) _

/-- A double is a primary phrase. -/
theorem primary_float64 (bits : UInt64) : PrimaryText (float64 bits).text :=
  primary_floatExpr _ _ (by decide) (by decide) _

/-- A complex number without imaginary part is an operand. -/
theorem operand_realOnly {x : Expr} (h : PrimaryText x.text) : OperandText (realOnly x).text :=
  .plain (primary_callName (by decide) (by simpa using ⟨h.expression 1, spelt_literal 0 1⟩))

/-- An integer constant is an operand. -/
theorem delivers_integer {type : TypeId} {k : Kind} (hkind : env.program.types.kind type = .ok k)
    (value : Int) (position : Position) :
    Delivers env (integer type k value position) fun x => OperandText x.text := by
  unfold integer
  split
  case h_1 hwrap =>
    refine delivers_bind (delivers_goType type) (steady_goType type) fun t ht =>
      delivers_pure (.plain ?_)
    exact primary_convert (isNamed_of_isScalar ht hkind (isScalar_of_wrap? hwrap))
      (spelt_literal _ 1)
  case h_2 => exact delivers_skip (steady_goType type) fun t => delivers_unsupported _ _

/-- An integer as a pointer is an operand. -/
theorem delivers_integerPointer (type : TypeId) (value : Int) (position : Position) :
    Delivers env (integerPointer type value position) fun x => OperandText x.text := by
  unfold integerPointer
  refine delivers_skip (steady_pointerBits value) fun bits =>
    delivers_ite (delivers_pure (operand_uintptr (spelt_literal _ 1))) ?_
  refine delivers_ite (delivers_pure (.plain primary_nil))
    (delivers_skip steady_types fun table => ?_)
  refine delivers_skip (steady_lift _) fun isFunction => delivers_ite (delivers_unsupported _ _) ?_
  refine delivers_skip (steady_goType type) fun t => delivers_pure (.plain ?_)
  exact primary_reinterpret t ((operand_uintptr (spelt_literal _ 1)).expression 1)

/-- A constant is an operand. -/
theorem delivers_constant (type : TypeId) (value : Int) (single : UInt32) (double : UInt64)
    (position : Position) :
    Delivers env (constant type value single double position) fun x => OperandText x.text := by
  unfold constant
  refine delivers_bind (delivers_kind type) (steady_kind type) fun k hk => ?_
  split
  · exact delivers_integerPointer type value position
  · exact delivers_pure (.plain (primary_float32 _))
  · exact delivers_pure (.plain (primary_float64 _))
  · exact delivers_pure (operand_realOnly (primary_float32 _))
  · exact delivers_pure (operand_realOnly (primary_float64 _))
  · exact delivers_integer hk value position

/-- A pointer into the string table is an operand. -/
theorem delivers_stringPointer (type : TypeId) (id : StringId) (offset : Int)
    (position : Position) :
    Delivers env (stringPointer type id offset position) fun x => OperandText x.text := by
  unfold stringPointer
  refine delivers_skip (steady_stringOffset id) fun start => ?_
  have hplace : PrimaryText (Expr.stringAt (start + offset)).text :=
    primary_callName (by decide) (by simpa using spelt_literal _ 1)
  have hrefuse : Delivers env (do unsupported position (.stringAs (← goType type))) fun x : Expr =>
      OperandText x.text :=
    delivers_skip (steady_goType type) fun t => delivers_unsupported _ _
  refine delivers_ite (delivers_pure (operand_addressBits (hplace.expression 1))) ?_
  refine delivers_skip steady_types fun table => delivers_skip (steady_lift _) fun t => ?_
  split
  · refine delivers_ite (delivers_pure (.plain hplace))
      (delivers_skip (steady_lift _) fun isFunction => delivers_ite hrefuse ?_)
    exact delivers_skip (steady_goType type) fun t =>
      delivers_pure (.plain (primary_reinterpret t (hplace.expression 1)))
  · exact hrefuse

/-! ## Single operators -/

/-- The zero that a value is compared with is an expression of every level. -/
theorem delivers_zeroOf (type : TypeId) (position : Position) :
    Delivers env (zeroOf type position) fun x => ∀ level, Spelt (.expression level) x.text := by
  unfold zeroOf
  refine delivers_skip (steady_kind type) fun k => ?_
  split
  · refine delivers_pure fun level => ?_
    split
    · exact spelt_literal 0 level
    · exact primary_nil.expression level
  · exact delivers_pure (spelt_literal 0)
  · exact delivers_unsupported _ _

/-- A test binds like a comparison. -/
theorem delivers_truthOf {x : Emit Expr} (hx : Delivers env x fun x => OperandText x.text)
    (hsteady : Steady x) (t : Tree) (zero : Bool) :
    Delivers env (truthOf t x zero) fun c => ∀ level ≤ 3, Spelt (.expression level) c.text := by
  unfold truthOf
  refine delivers_skip (steady_lift _) fun type => delivers_bind hx hsteady fun x hx => ?_
  refine delivers_bind (delivers_zeroOf type _) (steady_zeroOf type _) fun z hz =>
    delivers_pure fun level hlevel => ?_
  cases zero
  · exact spelt_binary (by decide) hlevel (hx.expression _) (hz _)
  · exact spelt_binary (by decide) hlevel (hx.expression _) (hz _)

/-- The address in a pointer that is an operand is one. -/
theorem delivers_addressBits (type : TypeId) {x : Expr} (hx : OperandText x.text)
    (position : Position) :
    Delivers env (addressBits type x position) fun y => OperandText y.text := by
  unfold addressBits
  refine delivers_ite (delivers_pure hx) (delivers_skip steady_types fun table => ?_)
  refine delivers_skip (steady_lift _) fun isFunction => delivers_ite (delivers_unsupported _ _) ?_
  exact delivers_pure (operand_addressBits (hx.expression 1))

/-- A comparison as an integer is an operand. -/
theorem operand_compare (op : CompareOp) {l r : Expr} (hl : OperandText l.text)
    (hr : OperandText r.text) :
    OperandText (Expr.ofBool (.binary (compareOperator op) l r)).text := by
  refine operand_ofBool (spelt_binary ?_ ?_ (hl.expression _) (hr.expression _))
  · cases op <;> decide
  · cases op <;> decide

/-- A comparison of operands is an operand. -/
theorem delivers_compareExpr (op : CompareOp) (type : TypeId) {l r : Expr}
    (hl : OperandText l.text) (hr : OperandText r.text) (position : Position) :
    Delivers env (compareExpr op type l r position) fun x => OperandText x.text := by
  unfold compareExpr
  have hnil : OperandText Expr.nil.text := .plain primary_nil
  refine delivers_skip steady_types fun table =>
    delivers_skip (steady_lift _) fun isFunction => delivers_ite ?_ ?_
  · split
    · exact delivers_pure (operand_compare op hl hnil)
    · exact delivers_pure (operand_compare op hr hnil)
    · exact delivers_unsupported _ _
  · refine delivers_skip (steady_lift _) fun isData => delivers_ite (delivers_pure ?_) ?_
    · exact operand_compare op (operand_addressBits (hl.expression 1))
        (operand_addressBits (hr.expression 1))
    · refine delivers_skip (steady_kind type) fun k =>
        delivers_ite (delivers_pure ?_) (delivers_unsupported _ _)
      exact operand_compare op hl hr

/-- A conversion of an operand is an operand. -/
theorem delivers_convertExpr (src dst : TypeId) {x : Expr} (hx : OperandText x.text)
    (position : Position) :
    Delivers env (convertExpr src dst x position) fun y => OperandText y.text := by
  unfold convertExpr
  refine delivers_ite (delivers_pure hx) (delivers_bind delivers_types steady_types ?_)
  rintro table rfl
  refine delivers_skip (steady_lift _) fun sk =>
    delivers_bind (delivers_lift _) (steady_lift _) fun dk hdk => ?_
  refine delivers_skip (steady_lift _) fun fromFunction => ?_
  refine delivers_bind (delivers_goType dst) (steady_goType dst) fun t ht => ?_
  have hrefuse : Delivers env (do unsupported position (.conversion (← goType src) t) : Emit Expr)
      fun y => OperandText y.text :=
    delivers_skip (steady_goType src) fun _ => delivers_unsupported _ _
  have hbits : OperandText (Expr.addressBits x).text := operand_addressBits (hx.expression 1)
  have hplace : OperandText (Expr.convert .uintptr x).text := operand_uintptr (hx.expression 1)
  dsimp only
  split
  · refine delivers_ite ?_ (delivers_skip (steady_lift _) fun toFunction => ?_)
    · split_ifs
      · exact delivers_pure hx
      · exact delivers_pure hbits
      · exact delivers_pure hplace
      · exact hrefuse
    · split_ifs
      · exact hrefuse
      · exact delivers_pure (.plain (primary_reinterpret t (hx.expression 1)))
      · exact delivers_pure (.plain (primary_reinterpret t (hplace.expression 1)))
      · exact hrefuse
  · -- A conversion to a scalar is written with the name of the scalar.
    have hconvert {y : Expr} (hy : OperandText y.text) : OperandText (Expr.convert t y).text :=
      .plain (primary_convert (isNamed_of_isScalar ht hdk rfl) (hy.expression 1))
    have hreal : OperandText (Expr.callName "real" [x]).text :=
      .plain (primary_callName (by decide) (by simpa using hx.expression 1))
    refine delivers_ite (delivers_pure (hconvert hx))
      (delivers_ite (delivers_pure (hconvert hbits)) ?_)
    refine delivers_ite (delivers_pure (operand_realOnly (primary_convert rfl (hx.expression 1))))
      ?_
    refine delivers_ite (delivers_pure (hconvert hx))
      (delivers_ite (delivers_pure (hconvert hx)) ?_)
    exact delivers_ite (delivers_pure (hconvert hreal)) hrefuse
  · exact hrefuse

/-- What an increment adds is an expression. -/
theorem delivers_incrementDelta (type : TypeId) (delta : Int) (position : Position) :
    Delivers env (incrementDelta type delta position) fun x => Spelt (.expression 1) x.text := by
  unfold incrementDelta
  refine delivers_skip steady_types fun table => delivers_skip (steady_lift _) fun isData =>
    delivers_ite (delivers_pure (spelt_literal _ 1)) ?_
  refine delivers_bind (delivers_kind type) (steady_kind type) fun k hk => ?_
  split_ifs with hpointer hinteger hfloat
  · exact delivers_skip (steady_pointerBits delta) fun bits =>
      delivers_pure ((operand_uintptr (spelt_literal _ 1)).expression 1)
  · exact fun s x s' hs hyields =>
      (delivers_integer hk delta position s x s' hs hyields).expression 1
  · refine delivers_bind (delivers_goType type) (steady_goType type) fun t ht => delivers_pure ?_
    have hscalar : k.isScalar := by
      cases k with
      | scalar s => rfl
      | _ => simp [Kind.isFloat, Kind.isComplex] at hfloat
    exact (primary_convert (isNamed_of_isScalar ht hk hscalar) (spelt_literal _ 1)).expression 1
  · exact delivers_skip (steady_goType type) fun t => delivers_unsupported _ _

/-- An operand that is passed as an argument is an operand. -/
theorem delivers_passArgument (param : Option TypeId) (variadic : Bool) (type : TypeId) {x : Expr}
    (hx : OperandText x.text) :
    Delivers env (passArgument param variadic type x) fun y => OperandText y.text := by
  have hsame : Delivers env (pure x : Emit Expr) fun y => OperandText y.text := delivers_pure hx
  unfold passArgument
  refine delivers_skip steady_types fun table => ?_
  split
  · refine delivers_ite hsame (delivers_skip (steady_lift _)
      fun isPointer => delivers_ite hsame ?_)
    refine delivers_skip (steady_lift _) fun isFunction => delivers_ite hsame (delivers_pure ?_)
    exact .plain (primary_unsafePointer (hx.expression 1))
  · rename_i param
    refine delivers_skip (steady_lift _) fun toData => delivers_ite ?_ (delivers_ite hsame ?_)
    · exact delivers_skip (steady_goType param) fun t =>
        delivers_pure (.plain (primary_reinterpret t (hx.expression 1)))
    · refine delivers_skip (steady_lift _) fun isData => delivers_ite (delivers_pure ?_) hsame
      exact operand_addressBits (hx.expression 1)

/-! ## Variables and functions -/

/-- The packages that stubs are given are names, in letters of any script, or nothing. -/
def LegalQualifier (q : Qualifier) : Prop :=
  ∀ asked stub, q asked stub = "" ∨ isIdentifier (q asked stub)

/-- A place, or its address, is an operand. -/
theorem operand_placeOf (address : Bool) {name : String} (h : isIdentifier name) :
    OperandText (placeOf address name).text := by
  unfold placeOf
  split
  · exact .address (primary_name h)
  · exact .plain (primary_name h)

/-- A reference to an argument is an operand. -/
theorem delivers_argumentRef (f : Frame) (index : Nat) (address : Bool) (position : Position) :
    Delivers env (argumentRef f index address position) fun x => OperandText x.text := by
  unfold argumentRef
  split
  · refine delivers_ite (delivers_unsupported _ _) ?_
    exact delivers_bind (delivers_identifier _ _ _) (steady_identifier _ _ _) fun name hname =>
      delivers_pure (operand_placeOf address hname)
  · exact delivers_ite (delivers_unsupported _ _) (delivers_breach _)

/-- A reference to a local is an operand. -/
theorem delivers_localRef (f : Frame) (usage : Use) (index : Nat) (address : Bool) :
    Delivers env (localRef f usage index address) fun x => OperandText x.text := by
  unfold localRef
  refine delivers_skip (steady_lift _) fun l =>
    delivers_bind (delivers_localName l) (steady_localName l) fun name hname => ?_
  have hplace : Delivers env (pure (placeOf address name) : Emit Expr) fun x =>
      OperandText x.text :=
    delivers_pure (operand_placeOf address hname)
  refine delivers_ite (delivers_skip (steady_kind _) fun k =>
    delivers_ite (delivers_pure ?_) hplace) hplace
  exact .address (primary_index (primary_name hname) 0)

/-- A reference to a result is an operand. -/
theorem delivers_resultRef (f : Frame) (index : Nat) (address : Bool) :
    Delivers env (resultRef f index address) fun x => OperandText x.text :=
  delivers_ite (delivers_breach _)
    (delivers_pure (operand_placeOf address (isIdentifier_result index)))

/-- A package is one that the qualifier gave. -/
theorem delivers_package? (index : Nat) : Delivers env (package? index) fun package =>
    ∀ q ∈ package, ∃ asked stub, q = env.qualifier asked stub := by
  rintro s package s' hs hyields q rfl
  rw [Yields, perform_package?] at hyields
  split at hyields
  · rename_i known hknown
    cases hyields
    exact hs.packages index q hknown
  · cases hyields
  · exact exists_qualifier_of_packageOf (Except.ok.inj (congrArg Prod.fst hyields))

variable (hq : LegalQualifier env.qualifier)

include hq

/-- An object is a primary phrase, with its package or without. -/
theorem delivers_objectAs (index : Nat) (name : NameId) (exported : Bool) :
    Delivers env (objectAs index name exported) fun x => PrimaryText x.text := by
  refine delivers_bind (delivers_identifier _ _ _) (steady_identifier _ _ _) fun text htext => ?_
  refine delivers_bind (delivers_package? index) (steady_package? index) fun package hpackage =>
    delivers_pure ?_
  unfold Expr.qualified
  split
  · exact primary_name htext
  · exact primary_name htext
  · rename_i q hne
    obtain ⟨asked, stub, rfl⟩ := hpackage q rfl
    rcases hq asked stub with hnone | hlegal
    · exact absurd hnone hne
    · exact primary_qualified hlegal htext

/-- A reference to an object is a primary phrase. -/
theorem delivers_objectRef (index : Nat) :
    Delivers env (objectRef index) fun x => PrimaryText x.text :=
  delivers_skip (steady_object index) fun o => delivers_objectAs hq index o.name _

/-- A reference to a global is an operand. -/
theorem delivers_globalRef (usage : Use) (index : Nat) (name : NameId) (linkage : Linkage)
    (address : Bool) :
    Delivers env (globalRef usage index name linkage address) fun x => OperandText x.text := by
  unfold globalRef
  refine delivers_skip (steady_object index) fun o => ?_
  refine delivers_bind (delivers_objectAs hq index name _) (steady_objectAs index name _)
    fun x hx => ?_
  refine delivers_skip (steady_kind _) fun k =>
    delivers_ite (delivers_pure (.address (primary_index hx 0))) ?_
  exact delivers_ite (delivers_pure (.address hx)) (delivers_pure (.plain hx))

omit hq

end

/-! ## Trees -/

/-- What is written inside of a compound assignment is as it would be outside. -/
theorem delivers_inCompound {α : Type} {env : Env} {m : Emit α} {P : α → Prop}
    (hm : Delivers env m P) : Delivers env (inCompound m) P := by
  intro s a s' hs hyields
  obtain ⟨s₁, hyields⟩ := Scene.exists_yields_of_inCompound hyields
  exact hm _ a s₁ (hs.atDepth _) hyields

/-- A difference of pointers has a Go type that is a name. -/
def NamesDifference (env : Env) (shape : Shape) (type : Option TypeId) : Prop :=
  ∀ pointerType lhs rhs id t, shape = .ptrDiff pointerType lhs rhs → type = some id →
    Expands env.program.types env.target id t → t.isNamed

/-- The code of the tree is an operand, and its statements are statements, wherever it stands. -/
structure Fits (env : Env) (f : Frame) (t : Tree) : Prop where
  expr : ∀ usage, Delivers env (expr f usage t) fun x => OperandText x.text
  statement : Delivers env (statement f t) fun ss => ∀ s ∈ ss, Spelt .statement s.text

/-- The code of a tree of the shape and type is an operand, apart from its comma list. -/
def CoreFits (env : Env) (f : Frame) (shape : Shape) (type : Option TypeId) : Prop :=
  ∀ usage position, Delivers env (core f usage type position shape) fun x => OperandText x.text

section

variable {env : Env} {f : Frame} {type : Option TypeId}

/-- An operand of a tree, and then the rest. -/
theorem delivers_operand {β : Type} {t : Tree} (h : Fits env f t) (usage : Use) {k : Expr → Emit β}
    {Q : β → Prop} (hk : ∀ x, OperandText x.text → Delivers env (k x) Q) :
    Delivers env (StackToGo.Emit.expr f usage t >>= k) Q :=
  delivers_bind (h.expr usage) (steady_expr f usage t) hk

/-- The test of a tree is an expression that may stand beside `&&` and `||`. -/
theorem delivers_test {β : Type} {t : Tree} (h : Fits env f t) (zero : Bool) {k : Expr → Emit β}
    {Q : β → Prop}
    (hk : ∀ x : Expr, (∀ level ≤ 3, Spelt (.expression level) x.text) → Delivers env (k x) Q) :
    Delivers env (truthOf t (StackToGo.Emit.expr f .value t) zero >>= k) Q :=
  delivers_bind (delivers_truthOf (h.expr .value) (steady_expr f .value t) t zero)
    (steady_truthOf (steady_expr f .value t) t zero) hk

/-- The arguments of a call are expressions. -/
theorem delivers_arguments {ts : List Tree} (h : ∀ t ∈ ts, Fits env f t) (variadic : Bool)
    (params : List TypeId) :
    Delivers env (arguments f variadic params ts) fun xs =>
      ∀ x ∈ xs, Spelt (.expression 1) x.text := by
  induction ts generalizing params with
  | nil =>
    rw [arguments]
    exact delivers_pure (List.forall_mem_nil _)
  | cons t rest ih =>
    rw [arguments]
    refine delivers_operand (h t List.mem_cons_self) .callArgument fun x hx =>
      delivers_skip (steady_lift _) fun type => ?_
    refine delivers_bind (delivers_passArgument _ _ type hx) (steady_passArgument _ _ _ _)
      fun y hy => ?_
    refine delivers_bind (ih (fun t ht => h t (List.mem_cons_of_mem _ ht)) params.tail)
      (steady_arguments _ _ _ _) fun xs hxs => delivers_pure ?_
    exact List.forall_mem_cons.2 ⟨hy.expression 1, hxs⟩

/-- A binary operator fits if its operands do. -/
theorem coreFits_binary {lhs rhs : Tree} (hl : Fits env f lhs) (hr : Fits env f rhs)
    (op : BinaryOp) : CoreFits env f (.binary op lhs rhs) type := by
  intro usage position
  rw [core]
  refine delivers_skip (steady_resultType _ _) fun t =>
    delivers_skip (steady_checkBinary _ _ _) fun _ => ?_
  refine delivers_operand hl .value fun l hl => delivers_operand hr .value fun r hr =>
    delivers_pure (.plain ?_)
  have hplain (op : Operator) (hop : op ≠ .scale) (hlevel : 1 ≤ op.level) :
      PrimaryText (Expr.paren (.binary op l r)).text :=
    primary_paren (spelt_binary hop hlevel (hl.expression _) (hr.expression _))
  have hshift (op : Operator) (hop : op ≠ .scale) (hlevel : 1 ≤ op.level) :
      PrimaryText (Expr.paren (.binary op l (.callName "uint" [r]))).text := by
    have hplaces : PrimaryText (Expr.callName "uint" [r]).text :=
      primary_callName (by decide) (by simpa using hr.expression 1)
    exact primary_paren (spelt_binary hop hlevel (hl.expression _) (hplaces.expression _))
  cases op with
  | lsh => exact hshift .lsh (by decide) (by decide)
  | rsh => exact hshift .rsh (by decide) (by decide)
  | _ => exact hplain _ (by decide) (by decide)

/-- A comparison fits if its operands do. -/
theorem coreFits_compare {lhs rhs : Tree} (hl : Fits env f lhs) (hr : Fits env f rhs)
    (op : CompareOp) (operandType : TypeId) :
    CoreFits env f (.compare op operandType lhs rhs) type := by
  intro usage position
  rw [core]
  refine delivers_operand hl .operand fun l hl => delivers_operand hr .operand fun r hr => ?_
  exact delivers_compareExpr op operandType hl hr position

/-- A unary operator fits if its operand does. -/
theorem coreFits_unary {operand : Tree} (h : Fits env f operand) (op : UnaryOp)
    (operandType : TypeId) : CoreFits env f (.unary op operandType operand) type := by
  intro usage position
  rw [core]
  refine delivers_skip (steady_kind _) fun k => ?_
  have hrefuse (name : String) :
      Delivers env (do unsupported position (.unaryOperator name (← goType operandType)))
      fun x : Expr => OperandText x.text :=
    delivers_skip (steady_goType _) fun t => delivers_unsupported _ _
  cases op
  · refine delivers_ite (delivers_operand h .value fun x hx => delivers_pure (.plain ?_))
      (hrefuse _)
    exact primary_paren (hx.signed (by decide : '-' ∈ ['-', '^', '*']) 1)
  · refine delivers_ite (delivers_operand h .value fun x hx => delivers_pure (.plain ?_))
      (hrefuse _)
    exact primary_paren (hx.signed (by decide : '^' ∈ ['-', '^', '*']) 1)
  · exact delivers_test h true fun x hx => delivers_pure (operand_ofBool (hx 1 (by decide)))
  · exact delivers_test h false fun x hx => delivers_pure (operand_ofBool (hx 1 (by decide)))

/-- A conversion fits if its operand does. -/
theorem coreFits_convert {operand : Tree} (h : Fits env f operand) (source : TypeId) :
    CoreFits env f (.convert source operand) type := by
  intro usage position
  rw [core]
  have hconvert (isEntry : Bool) : Delivers env (if isEntry then expr f .value operand else do
      let dst ← resultType type position
      let x ← expr f .value operand
      convertExpr source dst x position) fun x => OperandText x.text := by
    refine delivers_ite (h.expr .value) (delivers_skip (steady_resultType _ _) fun dst => ?_)
    exact delivers_operand h .value fun x hx => delivers_convertExpr source dst hx position
  split
  · exact delivers_skip (steady_isMain _) hconvert
  · exact delivers_skip (steady_pure _) hconvert

/-- What a pointer points to, in parentheses, is a primary phrase. -/
theorem primary_deref {x : Expr} (h : OperandText x.text) :
    PrimaryText (Expr.paren (.deref x)).text :=
  primary_paren (h.signed (by decide : '*' ∈ ['-', '^', '*']) 1)

/-- A load fits if its pointer does. -/
theorem coreFits_load {pointer : Tree} (h : Fits env f pointer) (pointerType : TypeId) :
    CoreFits env f (.load pointerType pointer) type := by
  intro usage position
  rw [core]
  refine delivers_ite (delivers_unsupported _ _) (delivers_skip steady_types fun table => ?_)
  refine delivers_skip (steady_lift _) fun isFunction => delivers_ite (delivers_unsupported _ _) ?_
  exact delivers_operand h .value fun x hx => delivers_pure (.plain (primary_deref hx))

/-- A store that does not compute its address once. -/
theorem coreFits_store {address value : Tree} (ha : Fits env f address) (hv : Fits env f value)
    (bits bitOffset : Nat)
    (hplain : (Shape.store bits bitOffset address value).isCompound = false) :
    CoreFits env f (.store bits bitOffset address value) type := by
  intro usage position
  have hdup : ∀ target type origin comma, address = .mk (.dup target) type origin comma →
      False := by
    rintro target type origin comma rfl
    cases hplain
  rw [core]
  · refine delivers_skip (steady_resultType _ _) fun stored => ?_
    refine delivers_bind (delivers_goType stored) (steady_goType stored) fun t ht =>
      delivers_ite ?_ ?_
    · refine delivers_bind (delivers_require _ _) (steady_require _ _) fun name hname => ?_
      refine delivers_operand ha .operand fun a ha => delivers_operand hv .operand fun v hv =>
        delivers_pure (.plain ?_)
      exact primary_callName hname (by simpa using ⟨ha.expression 1, hv.expression 1⟩)
    · refine delivers_bind (delivers_kind stored) (steady_kind stored) fun k hk => ?_
      split
      · rename_i mask left right hmask _
        refine delivers_bind (delivers_require _ _) (steady_require _ _) fun name hname => ?_
        refine delivers_operand ha .operand fun a ha => delivers_operand hv .operand fun v hv =>
          delivers_pure (.plain ?_)
        have hvalue : PrimaryText (Expr.paren (.binary .lsh v (.int bitOffset))).text :=
          primary_paren (spelt_binary (by decide) (by decide) (hv.expression _)
            (spelt_literal _ _))
        have hconstant : PrimaryText (Expr.convert t (.int mask)).text :=
          primary_convert (isNamed_of_isScalar ht hk (isScalar_of_fieldMask? hmask))
            (spelt_literal _ 1)
        exact primary_callName hname (by simpa using ⟨ha.expression 1, hvalue.expression 1,
          hconstant.expression 1, spelt_literal _ 1, spelt_literal _ 1⟩)
      · exact delivers_unsupported _ _
  · exact hdup

/-- A store that computes its address once. -/
theorem coreFits_compound {target value : Tree} (ht : Fits env f target) (hv : Fits env f value)
    (bits bitOffset : Nat) (addressType : Option TypeId) (origin : Position) (inner : List Tree) :
    CoreFits env f (.store bits bitOffset (.mk (.dup target) addressType origin inner) value)
      type := by
  intro usage position
  rw [core]
  refine delivers_skip (steady_resultType _ _) fun stored =>
    delivers_skip (steady_goType _) fun t => ?_
  refine delivers_ite (delivers_unsupported _ _) (delivers_skip steady_get fun s => ?_)
  refine delivers_ite (delivers_unsupported _ _) ?_
  refine delivers_bind (delivers_require _ _) (steady_require _ _) fun name hname => ?_
  refine delivers_operand ht .operand fun p hp => ?_
  refine delivers_bind (delivers_inCompound (hv.expr .operand))
    (steady_inCompound (steady_expr _ _ _)) fun v hv => ?_
  refine delivers_pure (.plain (primary_callName hname ?_))
  have hinvoke :
      PrimaryText (Expr.invoke [.pointer t, t] [.define "p" p] (.ret [.name "p", v])).text := by
    refine primary_invoke _ ?_ (spelt_ret ?_)
    · simpa using spelt_define (by decide) (hp.expression 1)
    · simpa using ⟨(primary_name (by decide)).expression 1, hv.expression 1⟩
  simpa using hinvoke.expression 1

/-- A copy fits if both of its addresses do. -/
theorem coreFits_copy {dst src : Tree} (hd : Fits env f dst) (hs : Fits env f src)
    (copied : TypeId) : CoreFits env f (.copy copied dst src) type := by
  intro usage position
  rw [core]
  refine delivers_bind (delivers_require _ _) (steady_require _ _) fun name hname => ?_
  refine delivers_operand hd .value fun d hd => delivers_operand hs .value fun s hs =>
    delivers_pure (.plain ?_)
  exact primary_callName hname (by simpa using ⟨hd.expression 1, hs.expression 1⟩)

/-- What a pointer points to, or its address, is an operand. -/
theorem operand_pointed (address : Bool) {x : Expr} (h : PrimaryText x.text) :
    OperandText (pointed address x).text := by
  unfold pointed
  split
  · exact .plain h
  · exact .plain (primary_deref (.plain h))

/-- A pointer moved by bytes is an expression. -/
theorem spelt_displaced {base : Expr} (h : OperandText base.text) (offset : Int) :
    Spelt (.expression 1) (displaced base offset).text := by
  unfold displaced
  split_ifs
  · exact h.expression 1
  · exact spelt_binary (by decide) (by decide) (h.expression _) (spelt_literal _ _)
  · exact spelt_binary (by decide) (by decide) (h.expression _) (spelt_literal _ _)

/-- A pointer moved by elements is an expression. -/
theorem spelt_displacedBy {base index : Expr} (h : OperandText base.text) (neg : Bool) (size : Nat)
    (hi : OperandText index.text) :
    Spelt (.expression 1) (displacedBy base neg size index).text := by
  have hitems :
      Spelt (.expression 5) (Expr.binary .scale (.int size) (.convert .uintptr index)).text :=
    spelt_scale (spelt_int size) (primary_convert rfl (hi.expression 1)) (by decide)
  cases neg
  · exact spelt_binary (by decide) (by decide) (h.expression _) hitems
  · exact spelt_binary (by decide) (by decide) (h.expression _) hitems

/-- An element fits if its base and its index do. -/
theorem coreFits_element {base index : Tree} (hb : Fits env f base) (hi : Fits env f index)
    (address neg : Bool) : CoreFits env f (.element address neg base index) type := by
  intro usage position
  rw [core]
  refine delivers_skip (steady_lift _) fun pointer =>
    delivers_skip (steady_itemType _ _) fun item => ?_
  refine delivers_skip (steady_sizeOf _) fun size => delivers_skip (steady_goType _) fun t => ?_
  refine delivers_operand hb .value fun b hb => ?_
  refine delivers_bind (delivers_addressBits pointer hb position) (steady_addressBits _ _ _)
    fun b hb => ?_
  have hplace (place : Expr) (h : Spelt (.expression 1) place.text) :
      Delivers env (pure (pointed address (.reinterpret (.pointer t) place))) fun x =>
        OperandText x.text :=
    delivers_pure (operand_pointed address (primary_reinterpret _ h))
  dsimp only
  split
  · exact delivers_bind (delivers_pure (spelt_displaced hb _)) (steady_pure _) hplace
  · have hindex : Delivers env (displacedBy b neg size <$> expr f .value index) fun x =>
        Spelt (.expression 1) x.text :=
      delivers_map (hi.expr .value) fun i hi => spelt_displacedBy hb neg size hi
    exact delivers_bind hindex (steady_map _ (steady_expr _ _ _)) hplace

/-- A field fits if its base does. -/
theorem coreFits_field {base : Tree} (h : Fits env f base) (index : Nat) (address : Bool) :
    CoreFits env f (.field index address base) type := by
  intro usage position
  rw [core]
  refine delivers_skip (steady_lift _) fun pointer =>
    delivers_skip (steady_fieldKind _ _ _) fun k => ?_
  refine delivers_operand h .value fun b hb => delivers_pure ?_
  cases k with
  | member t => exact operand_pointed address (primary_reinterpret _ (hb.expression 1))
  | field =>
    have hplace : PrimaryText (Expr.select (.paren b) (fieldName index)).text :=
      primary_selectParen (hb.expression 1) (isIdentifier_fieldName index)
    cases address
    · exact .plain hplace
    · exact .address hplace

/-- An increment fits if its operand does. -/
theorem coreFits_increment {operand : Tree} (h : Fits env f operand) (pre : Bool) (delta : Int64)
    (bits : Nat) : CoreFits env f (.increment pre delta bits operand) type := by
  intro usage position
  rw [core]
  refine delivers_ite (delivers_unsupported _ _)
    (delivers_skip (steady_resultType _ _) fun stored => ?_)
  refine delivers_bind (delivers_incrementDelta stored _ _) (steady_incrementDelta _ _ _)
    fun d hd => ?_
  refine delivers_bind (delivers_require _ _) (steady_require _ _) fun name hname => ?_
  refine delivers_operand h .value fun x hx => delivers_pure (.plain ?_)
  exact primary_callName hname (by simpa using ⟨hx.expression 1, hd⟩)

/-- A difference of pointers fits if its operands do and its Go type is a name. -/
theorem coreFits_ptrDiff {lhs rhs : Tree} (hl : Fits env f lhs) (hr : Fits env f rhs)
    {pointerType : TypeId} (hnamed : NamesDifference env (.ptrDiff pointerType lhs rhs) type) :
    CoreFits env f (.ptrDiff pointerType lhs rhs) type := by
  intro usage position
  rw [core]
  cases type with
  | none =>
    exact delivers_bind (P := fun _ => False) (delivers_unsupported _ _)
      (steady_unsupported _ _) (by simp)
  | some id =>
    refine delivers_bind (P := (· = id)) (delivers_pure rfl) (steady_pure _) ?_
    rintro _ rfl
    refine delivers_bind (delivers_goType _) (steady_goType _) fun t ht =>
      delivers_skip steady_types fun table => ?_
    refine delivers_skip (steady_lift _) fun element =>
      delivers_skip (steady_sizeOf _) fun size => ?_
    refine delivers_ite (delivers_unsupported _ _) (delivers_operand hl .value fun l hl => ?_)
    refine delivers_bind (delivers_addressBits _ hl _) (steady_addressBits _ _ _) fun l hl => ?_
    refine delivers_operand hr .value fun r hr => ?_
    refine delivers_bind (delivers_addressBits _ hr _) (steady_addressBits _ _ _) fun r hr => ?_
    refine delivers_skip steady_read fun _ => delivers_pure (.plain ?_)
    refine primary_convert (hnamed _ _ _ _ t rfl rfl ht)
      (spelt_binary (by decide) (by decide) ?_ (spelt_literal _ _))
    exact (primary_convert rfl (spelt_binary (by decide) (by decide) (hl.expression _)
      (hr.expression _))).expression _

/-- A call of an object fits if its arguments do and packages are names. -/
theorem coreFits_call (hq : LegalQualifier env.qualifier) {args : List Tree}
    (h : ∀ t ∈ args, Fits env f t) (index : Nat) (functionType : TypeId) :
    CoreFits env f (.call index functionType args) type := by
  intro usage position
  rw [core]
  refine delivers_skip (steady_object index) fun o => ?_
  split
  · exact delivers_breach _
  · refine delivers_bind (delivers_objectRef hq index) (steady_objectRef index)
      fun callee hcallee => ?_
    refine delivers_skip (steady_parametersOf _) fun parameters => ?_
    refine delivers_bind (delivers_arguments h parameters.2 parameters.1)
      (steady_arguments _ _ _ _) fun xs hxs => ?_
    exact delivers_pure (.plain (primary_call hcallee hxs))

/-- A call through a pointer fits if its callee and its arguments do. -/
theorem coreFits_callPointer {callee : Tree} {args : List Tree} (hcallee : Fits env f callee)
    (h : ∀ t ∈ args, Fits env f t) (pointerType : TypeId) :
    CoreFits env f (.callPointer pointerType callee args) type := by
  intro usage position
  rw [core]
  refine delivers_skip steady_types fun table => delivers_skip (steady_lift _) fun function => ?_
  refine delivers_operand hcallee .value fun c hc =>
    delivers_skip (steady_parametersOf _) fun parameters => ?_
  refine delivers_bind (delivers_arguments h parameters.2 parameters.1) (steady_arguments _ _ _ _)
    fun xs hxs => ?_
  exact delivers_pure (.plain (primary_call (primary_paren (hc.expression 1)) hxs))

/-- The operators `&&` and `||` fit if their operands do. -/
theorem coreFits_logical {lhs rhs : Tree} (hl : Fits env f lhs) (hr : Fits env f rhs)
    (isAnd : Bool) : CoreFits env f (.logical isAnd lhs rhs) type := by
  intro usage position
  rw [core]
  refine delivers_test hl false fun l hl => delivers_test hr false fun r hr =>
    delivers_pure (operand_ofBool ?_)
  -- Tests bind tighter than the operators between them.
  cases isAnd
  · exact spelt_binary (by decide) (by decide) (hl _ (by decide)) (hr _ (by decide))
  · exact spelt_binary (by decide) (by decide) (hl _ (by decide)) (hr _ (by decide))

/-- The operator `?:` fits if its operands do. -/
theorem coreFits_conditional {cond whenTrue whenFalse : Tree} (hc : Fits env f cond)
    (ha : Fits env f whenTrue) (hb : Fits env f whenFalse) :
    CoreFits env f (.conditional cond whenTrue whenFalse) type := by
  intro usage position
  rw [core]
  refine delivers_skip (steady_resultType _ _) fun result =>
    delivers_skip (steady_goType _) fun t => ?_
  refine delivers_test hc false fun c hc => delivers_operand ha .value fun a ha => ?_
  refine delivers_operand hb .value fun b hb =>
    delivers_pure (.plain (primary_invoke _ ?_ (spelt_ret ?_)))
  · simpa using spelt_returnIf (hc 1 (by decide)) (ha.expression 1)
  · simpa using hb.expression 1

/-- Every shape but that of a store that computes its address once. -/
theorem coreFits_plain (hq : LegalQualifier env.qualifier) {shape : Shape}
    (hplain : shape.isCompound = false) (hnamed : NamesDifference env shape type)
    (h : ∀ t ∈ shape.operands, Fits env f t) : CoreFits env f shape type := by
  cases shape with
  | argument index address =>
    intro usage position
    rw [core]
    exact delivers_argumentRef f index address position
  | localVar index address =>
    intro usage position
    rw [core]
    exact delivers_localRef f usage index address
  | result index address =>
    intro usage position
    rw [core]
    exact delivers_resultRef f index address
  | global index name linkage address =>
    intro usage position
    rw [core]
    exact delivers_globalRef hq usage index name linkage address
  | const32 value =>
    intro usage position
    rw [core]
    exact delivers_skip (steady_resultType _ _) fun t => delivers_constant t _ _ _ position
  | const64 value =>
    intro usage position
    rw [core]
    exact delivers_skip (steady_resultType _ _) fun t => delivers_constant t _ _ _ position
  | stringConst id =>
    intro usage position
    rw [core]
    exact delivers_skip (steady_resultType _ _) fun t => delivers_stringPointer t id 0 position
  | null =>
    intro usage position
    rw [core]
    refine delivers_skip (steady_resultType _ _) fun t =>
      delivers_ite (delivers_pure ?_) (delivers_pure ?_)
    · exact operand_uintptr (spelt_literal 0 1)
    · exact .plain primary_nil
  | binary op lhs rhs =>
    exact coreFits_binary (h lhs (by simp [Shape.operands])) (h rhs (by simp [Shape.operands])) op
  | compare op operandType lhs rhs =>
    exact coreFits_compare (h lhs (by simp [Shape.operands])) (h rhs (by simp [Shape.operands]))
      op operandType
  | unary op operandType operand =>
    exact coreFits_unary (h operand (by simp [Shape.operands])) op operandType
  | convert source operand => exact coreFits_convert (h operand (by simp [Shape.operands])) source
  | load pointerType pointer =>
    exact coreFits_load (h pointer (by simp [Shape.operands])) pointerType
  | store bits bitOffset address value =>
    exact coreFits_store (h address (by simp [Shape.operands]))
      (h value (by simp [Shape.operands])) bits bitOffset hplain
  | copy copied dst src =>
    exact coreFits_copy (h dst (by simp [Shape.operands]))
      (h src (by simp [Shape.operands])) copied
  | element address neg base index =>
    exact coreFits_element (h base (by simp [Shape.operands]))
      (h index (by simp [Shape.operands])) address neg
  | field index address base =>
    exact coreFits_field (h base (by simp [Shape.operands])) index address
  | increment pre delta bits operand =>
    exact coreFits_increment (h operand (by simp [Shape.operands])) pre delta bits
  | ptrDiff pointerType lhs rhs =>
    exact coreFits_ptrDiff (h lhs (by simp [Shape.operands]))
      (h rhs (by simp [Shape.operands])) hnamed
  | call index functionType args =>
    exact coreFits_call hq (fun t ht => h t (by simpa [Shape.operands] using ht))
      index functionType
  | callPointer pointerType callee args =>
    exact coreFits_callPointer (h callee (by simp [Shape.operands]))
      (fun t ht => h t (by simp [Shape.operands, ht])) pointerType
  | logical isAnd lhs rhs =>
    exact coreFits_logical (h lhs (by simp [Shape.operands]))
      (h rhs (by simp [Shape.operands])) isAnd
  | conditional cond whenTrue whenFalse =>
    exact coreFits_conditional (h cond (by simp [Shape.operands]))
      (h whenTrue (by simp [Shape.operands])) (h whenFalse (by simp [Shape.operands]))
  | dup target =>
    intro usage position
    rw [core]
    exact delivers_unsupported _ _
  | dupRef =>
    intro usage position
    rw [core]
    exact delivers_skip steady_get fun s =>
      delivers_ite (delivers_unsupported _ _) (delivers_pure (.plain (primary_name (by decide))))

/-- The statements of trees are statements. -/
theorem delivers_statements {ts : List Tree} (h : ∀ t ∈ ts, Fits env f t) :
    Delivers env (statements f ts) fun ss => ∀ s ∈ ss, Spelt .statement s.text := by
  induction ts with
  | nil =>
    rw [statements]
    exact delivers_pure (List.forall_mem_nil _)
  | cons t rest ih =>
    rw [statements]
    refine delivers_bind (h t List.mem_cons_self).statement (steady_statement f t)
      fun first hfirst => ?_
    refine delivers_bind (ih fun t ht => h t (List.mem_cons_of_mem _ ht))
      (steady_statements f rest) fun more hmore => ?_
    exact delivers_pure fun s hs => (List.mem_append.1 hs).elim (hfirst s) (hmore s)

/-- What a tree that is a statement adds is a statement. -/
theorem spelt_effect {before : List Stmt} (hbefore : ∀ s ∈ before, Spelt .statement s.text)
    {x : Expr} (hx : OperandText x.text) (shape : Shape) :
    ∀ s ∈ effect shape before x, Spelt .statement s.text := by
  intro s hs
  unfold effect at hs
  split at hs
  · exact hbefore s hs
  · rcases List.mem_append.1 hs with hs | hs
    · exact hbefore s hs
    · rw [List.mem_singleton.1 hs]
      split
      · exact spelt_eval (hx.expression 1)
      · exact spelt_discard (hx.expression 1)

/-- A tree fits if its shape and its comma list do. -/
theorem fits_mk {shape : Shape} {comma : List Tree} (hshape : CoreFits env f shape type)
    (hcomma : ∀ t ∈ comma, Fits env f t) (position : Position) :
    Fits env f (.mk shape type position comma) := by
  constructor
  · intro usage
    cases comma with
    | nil =>
      rw [expr]
      exact hshape usage position
    | cons first rest =>
      rw [expr]
      refine delivers_bind (hcomma first List.mem_cons_self).statement (steady_statement f first)
        fun effects heffects => ?_
      refine delivers_bind (delivers_statements fun t ht => hcomma t (List.mem_cons_of_mem _ ht))
        (steady_statements f rest) fun more hmore => ?_
      have hbody : ∀ s ∈ effects ++ more, Spelt .statement s.text :=
        fun s hs => (List.mem_append.1 hs).elim (heffects s) (hmore s)
      cases type with
      | none =>
        refine delivers_bind (hshape usage position) (steady_core _ _ _ _ _) fun x hx =>
          delivers_pure (.plain ?_)
        exact primary_invoke _ hbody (spelt_eval (hx.expression 1))
      | some id =>
        have hinvoke : Delivers env (do
            let t ← goType id
            let x ← core f usage (some id) position shape
            return Expr.invoke [t] (effects ++ more) (.ret [x])) fun x => OperandText x.text := by
          refine delivers_skip (steady_goType id) fun t => ?_
          refine delivers_bind (hshape usage position) (steady_core _ _ _ _ _) fun x hx =>
            delivers_pure (.plain ?_)
          exact primary_invoke _ hbody (spelt_ret (by simpa using hx.expression 1))
        dsimp only
        refine delivers_ite (delivers_skip (steady_kind _) fun k => ?_) hinvoke
        split_ifs
        · exact delivers_skip (steady_unsupported _ _) fun _ => hinvoke
        · exact hinvoke
  · rw [statement]
    refine delivers_bind (delivers_statements hcomma) (steady_statements f comma)
      fun before hbefore => ?_
    refine delivers_bind (hshape .value position) (steady_core _ _ _ _ _) fun x hx =>
      delivers_pure ?_
    exact spelt_effect hbefore hx shape

/-- Every tree fits whose differences of pointers have a name for their type. -/
theorem fits (hq : LegalQualifier env.qualifier) (f : Frame) (t : Tree)
    (h : t.Everywhere (NamesDifference env)) : Fits env f t := by
  induction t using Tree.compoundInduction with
  | plain shape type position comma hplain hcomma hoperands =>
    obtain ⟨⟨hown, hshape⟩, hall⟩ := Tree.everywhere_mk.1 h
    exact fits_mk (coreFits_plain hq hplain hown fun t ht => hoperands t ht (hshape t ht))
      (fun t ht => hcomma t ht (hall t ht)) position
  | compound bits bitOffset target type origin inner value stored position comma hcomma hinner
      htarget hvalue =>
    obtain ⟨⟨-, hshape⟩, hall⟩ := Tree.everywhere_mk.1 h
    have haddress := hshape _ List.mem_cons_self
    have hstored := hshape value (List.mem_cons_of_mem _ List.mem_cons_self)
    obtain ⟨⟨-, hdup⟩, -⟩ := Tree.everywhere_mk.1 haddress
    exact fits_mk (coreFits_compound (htarget (hdup target List.mem_cons_self))
      (hvalue hstored) bits bitOffset type origin inner) (fun t ht =>
        hcomma t ht (hall t ht)) position

/-- The tree that only wraps a shape. -/
theorem coreFits (hq : LegalQualifier env.qualifier) (f : Frame) {shape : Shape}
    (h : shape.Everywhere (NamesDifference env) type) : CoreFits env f shape type := by
  intro usage position
  have hmk :=
    (fits hq f (.mk shape type position []) (Tree.everywhere_mk.2 ⟨h, List.forall_mem_nil _⟩)).expr
      usage
  rwa [expr] at hmk

end

/-! ## Texts between other texts -/

/-- The text can be put between other texts as an operand. -/
structure SpliceSafe (text : String) : Prop where
  operand : IsOperand (tokens text)
  unary : Derives .unary (tokens text)
  /-- The brackets match, and outside of them nothing separates operands. -/
  unseparated : separators (tokens text) = some []
  /-- The tokens of the text stay apart from those of the texts around it. -/
  apart : ∀ before ts after, Tight before ts → Parts after.toList →
    tokens (before ++ text ++ after) = ts ++ tokens text ++ tokens after
  /-- Where an operand is awaited, no expression ends inside of the text. -/
  whole : ∀ before after a b op level, Awaits before → Derives (.expression level) a →
    isSeparator op →
    before ++ tokens text ++ after = a ++ op :: b → a.length < before.length ∨
    before ++ tokens text <+: a

/-- The text of an operand can be put between other texts. -/
theorem spliceSafe_of_operandText {text : String} (h : OperandText text) : SpliceSafe text where
  operand := h.isOperand
  unary := h.isOperand.unary
  unseparated := h.isOperand.separators_eq
  apart before ts after hbefore hafter := by
    obtain ⟨us, -, hlexed⟩ := h.exists_lexed
    rw [hlexed.tokens_eq]
    show tokensFrom [] (before ++ text ++ after).toList = _
    rw [String.toList_append, String.toList_append, List.append_assoc, hbefore, hlexed _ hafter,
      List.append_assoc]
    rfl
  whole _ _ _ _ _ _ hbefore ha hop hall := not_regrouped h.isOperand.unary hbefore ha hop hall

/-- The code of a tree, with its comma list or without, can be put between other texts as an
operand, if every difference of pointers in the tree has a Go type that is a name. -/
theorem code_is_operand {env : Env} {s s' : State} {x : Expr} (hq : LegalQualifier env.qualifier)
    (hs : Faithful env s) (f : Frame) (usage : Use) :
    (∀ t : Tree, t.Everywhere (NamesDifference env) → Yields env (expr f usage t) s x s' →
      SpliceSafe x.text) ∧
      ∀ (shape : Shape) (type : Option TypeId) (position : Position),
        shape.Everywhere (NamesDifference env) type →
        Yields env (core f usage type position shape) s x s' → SpliceSafe x.text := by
  refine ⟨fun t ht h => spliceSafe_of_operandText ?_,
    fun shape type position hshape h => spliceSafe_of_operandText ?_⟩
  · exact (fits hq f t ht).expr usage s x s' hs h
  · exact coreFits hq f hshape usage position s x s' hs h

/-- A program with pointers to bytes. -/
def bytePointers : Env where
  dict := .ofList []
  program := ⟨TypeTable.empty.internEach [.pointer TypeTable.int8], []⟩
  target := ⟨8, false⟩
  options := {}
  qualifier := fun _ _ => "crt"

/-- The difference of two null pointers, as a value of a type. -/
def nullDifference (type : TypeId) : Tree :=
  .mk (.ptrDiff ⟨14⟩ (.mk .null (some ⟨14⟩) .unknown []) (.mk .null (some ⟨14⟩) .unknown []))
    (some type) .unknown []

/-- The program asks for no packages. -/
theorem legalQualifier_bytePointers : LegalQualifier bytePointers.qualifier :=
  fun _ _ => .inr (by decide : isIdentifier "crt")

/-- A difference with a sign before it, behind a side effect. -/
def negatedDifference : Tree :=
  .mk (.unary .neg TypeTable.int64 (nullDifference TypeTable.int64))
    (some TypeTable.int64) .unknown [.mk (.const32 1) (some TypeTable.int32) .unknown []]

/-- The code of the difference with the sign before it is an operand. -/
theorem code_is_operand_difference :
    negatedDifference.Everywhere (NamesDifference bytePointers) ∧ ∃ x s',
      Yields bytePointers (expr idleFrame .value negatedDifference) (.start ⟨8, false⟩) x s' ∧
      SpliceSafe x.text := by
  have hplain {shape : Shape} {type : Option TypeId}
      (h : ∀ pointerType lhs rhs, shape ≠ .ptrDiff pointerType lhs rhs) :
      NamesDifference bytePointers shape type :=
    fun pointerType lhs rhs _ _ heq => absurd heq (h pointerType lhs rhs)
  have hnull : (Tree.mk .null (some ⟨14⟩) .unknown []).Everywhere (NamesDifference bytePointers) :=
    Tree.everywhere_mk.2 ⟨⟨hplain (by simp), by simp [Shape.operands]⟩, by simp⟩
  have hdifference :
      (nullDifference TypeTable.int64).Everywhere (NamesDifference bytePointers) := by
    refine Tree.everywhere_mk.2 ⟨⟨?_, by simp [Shape.operands, hnull]⟩, by simp⟩
    rintro _ _ _ _ t - ⟨⟩ ht
    exact isNamed_of_isScalar ht (k := .scalar .int64) rfl rfl
  have hall : negatedDifference.Everywhere (NamesDifference bytePointers) := by
    refine Tree.everywhere_mk.2 ⟨⟨hplain (by simp), by simp [Shape.operands, hdifference]⟩, ?_⟩
    simpa using Tree.everywhere_mk.2 ⟨⟨hplain (by simp), by simp [Shape.operands]⟩, by simp⟩
  refine ⟨hall, _, _, rfl, ?_⟩
  exact (code_is_operand legalQualifier_bytePointers (faithful_start _) idleFrame .value).1
    negatedDifference hall rfl

/-- Without brackets around a pointer type, its `*` is read as a sign before a conversion. -/
theorem tokens_convert_pointer {t : Go.Ty} (ht : t.isNamed) {x : Expr}
    (hx : Spelt (.expression 1) x.text) :
    ∃ ts, Derives .primary ts ∧ tokens (Expr.convert (.pointer t) x).text = "*" :: ts := by
  have hconvert := primary_convert ht hx
  obtain ⟨ts, hderives, hlexed⟩ := hconvert.spelt
  refine ⟨ts, hderives,
    (lexed_of_toList (hconvert.sign '*' (by decide) (by decide) hlexed) ?_).tokens_eq⟩
  show ("*" ++ t.text ++ "(" ++ x.text ++ ")").toList =
      (String.ofList ['*'] ++ (t.text ++ "(" ++ x.text ++ ")")).toList
  simp

/-- How far two null pointers are apart. -/
def nullDistance : Expr :=
  .binary .div (.convert (.scalar .int64) (.binary .sub (.addressBits .nil) (.addressBits .nil)))
    (.int 1)

/-- A difference of pointers whose type is itself a pointer is no operand: its text begins with the
`*` of the type, which is then read as a sign. -/
theorem difference_is_no_operand :
    ¬∀ (env : Env) (s s' : State) (f : Frame) (usage : Use) (t : Tree) (x : Expr),
      LegalQualifier env.qualifier → Faithful env s → Yields env (expr f usage t) s x s' →
      SpliceSafe x.text := by
  intro h
  have hnull : OperandText (Expr.addressBits .nil).text :=
    operand_addressBits (primary_nil.expression 1)
  have hdistance : Spelt (.expression 1) nullDistance.text :=
    spelt_binary (by decide) (by decide)
      ((primary_convert rfl (spelt_binary (by decide) (by decide) (hnull.expression _)
        (hnull.expression _))).expression _) (spelt_literal _ _)
  obtain ⟨ts, -, htokens⟩ := tokens_convert_pointer (t := .scalar .int8) rfl hdistance
  have hsafe : SpliceSafe (Expr.convert (.pointer (.scalar .int8)) nullDistance).text :=
    h bytePointers (.start ⟨8, false⟩) _ idleFrame .value
      (nullDifference ⟨14⟩) _ legalQualifier_bytePointers (faithful_start _) rfl
  have hoperand := hsafe.operand
  rw [htokens] at hoperand
  exact absurd (hoperand.sign_eq "*" rfl (by decide)) (by decide)

end Emit
end StackToGo
