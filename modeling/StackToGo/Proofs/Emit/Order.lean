import StackToGo.Proofs.Compound
import StackToGo.Proofs.Emit.ConstantIndex
import StackToGo.Proofs.Emit.Templates

/-!
# Operands are written once and in order

The text of a tree is put together from the texts of its comma list and of its operands, with fixed
texts between them. The fixed texts are the same for all trees that differ in their operands only,
as long as these have the same types: they depend on names, but not on the texts that stand between
them (`code_keeps_order`).

Each operand is written once, and in its order. What is not written at all has no side effects: the
index of an element, if it is a constant, and a null pointer that is a statement by itself. In a
comparison of functions a `nil` on the left changes its place with the other operand.
-/

namespace StackToGo

/-! ## What is written of a shape -/

/-- The address that a tree duplicates. -/
def Tree.target? : Tree → Option Tree
  | .mk (.dup target) _ _ _ => some target
  | _ => none

/-- The name of the object that a shape refers to. -/
def Shape.object? : Shape → Option NameId
  | .global _ name _ _ => some name
  | _ => none

/-- The trees look the same to what is written around them: they have the same type, the same value
if they are constants, refer to the same name if to any, and both or none of them duplicate an
address. -/
structure Tree.Alike (t t' : Tree) : Prop where
  type : t'.type = t.type
  constant : t'.constant? = t.constant?
  object : t'.shape.object? = t.shape.object?
  duplicate : t'.target?.isSome = t.target?.isSome

/-- A tree looks like itself. -/
theorem Tree.Alike.refl (t : Tree) : t.Alike t := ⟨rfl, rfl, rfl, rfl⟩

/-- The operands of a shape that are written, in order, each with its use. A duplicated address
stands for the address itself, and a constant index is not written. -/
def Shape.parts : Shape → List (Emit.Use × Tree)
  | .compare _ _ lhs rhs => [(.operand, lhs), (.operand, rhs)]
  | .store _ _ address value => [(.operand, address.target?.getD address), (.operand, value)]
  | .element _ _ base index =>
    (.value, base) :: if index.constant?.isSome then [] else [(.value, index)]
  | .call _ _ arguments => arguments.map fun t => (.callArgument, t)
  | .callPointer _ callee arguments =>
    (.value, callee) :: arguments.map fun t => (.callArgument, t)
  | shape => shape.operands.map fun t => (.value, t)

/-- How operands of a shape are written, one after the other: an operand is a part of its own, or
stands for the address that it duplicates, or it is a constant index, which is not written. -/
inductive Shape.Writes (shape : Shape) : List Tree → List (Emit.Use × Tree) → Prop
  | nil : Shape.Writes shape [] []
  | part {usage : Emit.Use} {t : Tree} {ts : List Tree} {parts : List (Emit.Use × Tree)}
      (h : Shape.Writes shape ts parts) :
      Shape.Writes shape (t :: ts) ((usage, t) :: parts)
  | duplicate {usage : Emit.Use} {t target : Tree} {ts : List Tree}
      {parts : List (Emit.Use × Tree)} (htarget : t.target? = some target) (hcomma : t.comma = [])
      (h : Shape.Writes shape ts parts) :
      Shape.Writes shape (t :: ts) ((usage, target) :: parts)
  | constant {address neg : Bool} {base t : Tree} {value : Int} {ts : List Tree}
      {parts : List (Emit.Use × Tree)} (hshape : shape = .element address neg base t)
      (hvalue : t.constant? = some value) (h : Shape.Writes shape ts parts) :
      Shape.Writes shape (t :: ts) parts

/-- The operands may all be parts of their own, with the same use. -/
theorem Shape.writes_map (shape : Shape) (usage : Emit.Use) (ts : List Tree) :
    shape.Writes ts (ts.map fun t => (usage, t)) := by
  induction ts with
  | nil => exact .nil
  | cons t ts ih => exact .part ih

namespace Emit

open StackToGo.Go
open StackToGo.TypeText (Expands)

section

variable {env : Env} {final : State} {f : Frame} {C : Type}

/-! ## Shapes -/

variable {usage : Use} {type : Option TypeId} {position : Position}

/-- A binary operator writes its left operand, and then its right one. -/
theorem spells_binary (op : BinaryOp) : Spells env final f Expr.text (fun _ : Tree × Tree => [])
    (fun p => [(.value, p.1), (.value, p.2)]) fun p =>
      core f usage type position (.binary op p.1 p.2) := by
  simp only [core]
  refine spells_skip (determined_resultType _ _) fun t =>
    spells_skip (determined_checkBinary _ _ _) fun _ => ?_
  refine spells_part (spells_part (spells_pure ?_))
  have hplain {D : Type} (op : Operator) (l r : D → Expr) :
      Fills (fun d => (Expr.paren (.binary op (l d) (r d))).text) fun d =>
        [(l d).text] ++ [(r d).text] :=
    around_paren.fills (fills_binary op (fills_hole _) (fills_hole _))
  have hshift {D : Type} (op : Operator) (l r : D → Expr) :
      Fills (fun d => (Expr.paren (.binary op (l d) (.callName "uint" [r d]))).text) fun d =>
        [(l d).text] ++ [(r d).text] :=
    around_paren.fills (fills_binary op (fills_hole _)
      ((around_callName "uint").fills (fills_hole _)))
  cases op with
  | lsh | rsh => exact hshift _ _ _
  | _ => exact hplain _ _ _

/-- A unary operator writes its operand. -/
theorem spells_unary (op : UnaryOp) (operandType : TypeId) (operand : Tree) :
    Spells env final f Expr.text
      (fun _ : { t : Tree // operand.Alike t } => []) (fun t => [(.value, t.1)])
      fun t => core f usage type position (.unary op operandType t.1) := by
  simp only [core]
  refine spells_skip (determined_kind _) fun k => ?_
  cases op with
  | neg =>
    refine spells_ite (spells_part (spells_pure ?_))
      (spells_skip (determined_goType _) fun t => spells_unsupported _ _)
    exact around_paren.fills (around_negate.fills (fills_hole _))
  | cpl =>
    refine spells_ite (spells_part (spells_pure ?_))
      (spells_skip (determined_goType _) fun t => spells_unsupported _ _)
    exact around_paren.fills (around_complement.fills (fills_hole _))
  | not | bool =>
    refine spells_test (fun t => t.2.type) fun tail => spells_pure (around_ofBool.fills ?_)
    exact ((fills_hole _).before tail).congr fun p => p.2

/-- Is it the function that a program starts with? -/
def isEntry (shape : Shape) : Emit Bool :=
  match shape.object? with
  | some name => isMain name
  | none => pure false

/-- The function that a program starts with is not converted. -/
theorem core_convert (source : TypeId) (operand : Tree) :
    core f usage type position (.convert source operand) = (do
      let entry ← isEntry operand.shape
      if entry then expr f .value operand
      else
        let dst ← resultType type position
        let x ← expr f .value operand
        convertExpr source dst x position) := by
  rw [core]
  cases operand with
  | mk shape => cases shape <;> rfl

/-- Trees for the same object alike are the function that a program starts with, or not. -/
theorem determined_isEntry {shape : Shape} {t : C → Tree}
    (h : ∀ c, (t c).shape.object? = shape.object?) :
    Determined env final fun c => isEntry (t c).shape := by
  simp only [isEntry, h]
  cases shape.object? with
  | none => exact determined_pure false
  | some name => exact determined_isMain name

/-- A conversion writes its operand. -/
theorem spells_convert (source : TypeId) (operand : Tree) : Spells env final f Expr.text
    (fun _ : { t : Tree // operand.Alike t } => []) (fun t => [(.value, t.1)])
    fun t => core f usage type position (.convert source t.1) := by
  refine spells_congr (fun t => core_convert source t.1) ?_
  refine spells_skip (determined_isEntry fun t => t.2.object) fun entry =>
    spells_ite spells_single ?_
  refine spells_skip (determined_resultType _ _) fun dst =>
    spells_part (spells_wrapped (surrounds_convertExpr _ _ _) ?_)
  exact fun x => steady_convertExpr _ _ x _

/-- A load writes its pointer. -/
theorem spells_load (pointerType : TypeId) :
    Spells env final f Expr.text (fun _ : Tree => []) (fun t => [(.value, t)])
      fun t => core f usage type position (.load pointerType t) := by
  simp only [core]
  refine spells_ite (spells_unsupported _ _) (spells_skip determined_types fun table => ?_)
  refine spells_skip (determined_lift _) fun isFunction => spells_ite (spells_unsupported _ _) ?_
  exact spells_part (spells_pure (around_paren.fills (around_deref.fills (fills_hole _))))

/-- The call that stores a bit field has the holes of the address and of the value. -/
theorem fills_storeBits {D : Type} (name : String) (t : Go.Ty) (bitOffset left right : Nat)
    (mask : Int) {a v : D → Expr} {done done' : D → List String}
    (ha : Fills (fun d => (a d).text) done) (hv : Fills (fun d => (v d).text) done') :
    Fills (fun d => (Expr.callName name [a d, .paren (.binary .lsh (v d) (.int bitOffset)),
      .convert t (.int mask), .int left, .int right]).text) fun d => done d ++ done' d := by
  have hvalue : Fills (fun d => (Expr.paren (.binary .lsh (v d) (.int bitOffset))).text) done' :=
    around_paren.fills ((hv.before Operator.lsh.text).before (Expr.int bitOffset).text)
  have hfront :=
    ((((ha.before ", ").append hvalue).before ", ").before
      (Expr.convert t (.int mask)).text).before ", "
  have hall := ((hfront.before (Expr.int left).text).before ", ").before (Expr.int right).text
  exact (hall.behind (name ++ "(")).before ")"

/-- A store that does not compute its address once. -/
theorem spells_store (bits bitOffset : Nat) : Spells env final f Expr.text
    (fun _ : { p : Tree × Tree // p.1.target? = none } => [])
    (fun p => [(.operand, p.1.1), (.operand, p.1.2)]) fun p =>
      core f usage type position (.store bits bitOffset p.1.1 p.1.2) := by
  have hplain (p : { p : Tree × Tree // p.1.target? = none }) (target : Tree)
      (type : Option TypeId) (origin : Position) (comma : List Tree) :
      p.1.1 ≠ .mk (.dup target) type origin comma := by
    intro heq
    have hnone := p.2
    rw [heq] at hnone
    cases hnone
  -- The rule for compound stores comes first in `core`, so the equation for the others asks for
  -- `hplain`.
  refine spells_congr (fun p => core.eq_15 f usage type position bits bitOffset p.1.1 p.1.2
    (hplain p)) ?_
  refine spells_skip (determined_resultType _ _) fun stored =>
    spells_skip (determined_goType _) fun t => spells_ite ?_ ?_
  · refine spells_skip (determined_require _ _) fun name =>
      spells_part (spells_part (spells_pure ?_))
    exact fills_callName name (fills_hole _) (fills_hole _)
  · refine spells_skip (determined_kind _) fun k => ?_
    cases k.fieldMask? bits bitOffset with
    | none => exact spells_unsupported _ _
    | some mask =>
      cases k.fieldShifts? bits bitOffset with
      | none => exact spells_unsupported _ _
      | some shifts =>
        refine spells_skip (determined_require _ _) fun name =>
          spells_part (spells_part (spells_pure ?_))
        exact fills_storeBits name t bitOffset shifts.1 shifts.2 mask (fills_hole _) (fills_hole _)

/-- A store that computes its address once. -/
theorem spells_compound (bits bitOffset : Nat) : Spells env final f Expr.text
    (fun _ : (Tree × Tree) × Option TypeId × Position × List Tree => [])
    (fun p => [(.operand, p.1.1), (.operand, p.1.2)]) fun p => core f usage type position
      (.store bits bitOffset (.mk (.dup p.1.1) p.2.1 p.2.2.1 p.2.2.2) p.1.2) := by
  simp only [core]
  refine spells_skip (determined_resultType _ _) fun stored =>
    spells_skip (determined_goType _) fun t => ?_
  refine spells_ite (spells_unsupported _ _)
    (spells_vary (fun _ => steady_get) (spells_guard _ _ ?_))
  refine spells_skip (determined_require _ _) fun name =>
    spells_part (spells_inner (spells_pure ?_))
  have hdefine {D : Type} (p : D → Expr) :
      Fills (fun d => (Stmt.define "p" (p d)).text) fun d => [(p d).text] :=
    (fills_hole _).behind _
  have hret {D : Type} (v : D → Expr) :
      Fills (fun d => (Stmt.ret [.name "p", v d]).text) fun d => [(v d).text] :=
    ((fills_hole _).behind ("p" ++ ", ")).behind "return "
  exact (around_callName name).fills (fills_invoke _ (hdefine _) (hret _))

/-- A copy writes where it copies to, and then where it copies from. -/
theorem spells_copy (copied : TypeId) : Spells env final f Expr.text (fun _ : Tree × Tree => [])
    (fun p => [(.value, p.1), (.value, p.2)]) fun p =>
      core f usage type position (.copy copied p.1 p.2) := by
  simp only [core]
  refine spells_skip (determined_require _ _) fun name =>
    spells_part (spells_part (spells_pure ?_))
  exact fills_callName name (fills_hole _) (fills_hole _)

/-- A field writes its base. -/
theorem spells_field (index : Nat) (address : Bool) (base : Tree) : Spells env final f Expr.text
    (fun _ : { t : Tree // base.Alike t } => []) (fun t => [(.value, t.1)])
    fun t => core f usage type position (.field index address t.1) := by
  simp only [core]
  refine spells_skip (determined_valueType fun t => t.2.type) fun pointer => ?_
  refine spells_skip (determined_fieldKind _ _ _) fun k => spells_part (spells_pure ?_)
  have hfield : Around (fieldExpr k index address) := by
    cases k with
    | member t => exact (around_pointed address).comp (around_reinterpret _)
    | field =>
      have hplace := (around_select (fieldName index)).comp around_paren
      cases address
      · exact hplace
      · exact around_addressOf.comp hplace
  exact hfield.fills (fills_hole _)

/-- An increment writes the address of what it changes. -/
theorem spells_increment (pre : Bool) (delta : Int64) (bits : Nat) :
    Spells env final f Expr.text (fun _ : Tree => [])
      (fun t => [(.value, t)]) fun t =>
        core f usage type position (.increment pre delta bits t) := by
  simp only [core]
  refine spells_ite (spells_unsupported _ _)
    (spells_skip (determined_resultType _ _) fun stored => ?_)
  refine spells_skip (determined_incrementDelta _ _ _) fun d =>
    spells_skip (determined_require _ _) fun name => ?_
  exact spells_part
    (spells_pure (((((fills_hole _).before ", ").before d.text).behind (name ++ "(")).before ")"))

/-- A difference of pointers writes its left operand, and then its right one. -/
theorem spells_ptrDiff (pointerType : TypeId) :
    Spells env final f Expr.text (fun _ : Tree × Tree => [])
      (fun p => [(.value, p.1), (.value, p.2)]) fun p =>
        core f usage type position (.ptrDiff pointerType p.1 p.2) := by
  simp only [core]
  refine spells_skip (determined_resultType _ _) fun result =>
    spells_skip (determined_goType _) fun t => ?_
  refine spells_skip determined_types fun table =>
    spells_skip (determined_lift _) fun element => ?_
  refine spells_skip (determined_sizeOf _) fun size =>
    spells_ite (spells_unsupported _ _) (spells_part ?_)
  refine spells_wrap (surrounds_addressBits _ _) (fun x => steady_addressBits _ x _)
    fun front back => spells_part ?_
  refine spells_wrap (surrounds_addressBits _ _) (fun x => steady_addressBits _ x _)
    fun front' back' => ?_
  refine spells_skip determined_read fun env' => spells_pure ((around_convert t).fills ?_)
  refine Fills.before (((around_convert _).fills (fills_binary .sub ?_ ?_)).before
    Operator.div.text) (Expr.int size).text
  · exact (((fills_hole _).behind front).before back).congr fun p => p.1.1.1.2
  · exact (((fills_hole _).behind front').before back').congr fun p => p.2

/-- Fixed texts move a pointer by bytes. -/
theorem around_displaced (offset : Int) : Around (displaced · offset) := by
  unfold displaced
  split_ifs
  · exact around_id
  · exact ⟨"", Operator.sub.text ++ (Expr.int (-offset)).text, fun x => by
      rw [String.empty_append, ← String.append_assoc]; rfl⟩
  · exact ⟨"", Operator.add.text ++ (Expr.int offset).text, fun x => by
      rw [String.empty_append, ← String.append_assoc]; rfl⟩

/-- An element at a constant index moves the pointer by a fixed number of bytes. -/
theorem core_element_of_some {base index : Tree} {i : Int} (h : index.constant? = some i)
    (address neg : Bool) :
    core f usage type position (.element address neg base index) = (do
      let pointer ← base.valueType
      let item ← itemType pointer position
      let size ← sizeOf item
      let t ← goType item
      let b ← expr f .value base
      let b ← addressBits pointer b position
      return pointed address (.reinterpret (.pointer t)
        (displaced b (if neg then -(i * size) else i * size)))) := by
  rw [core]
  simp only [h, pure_bind]

/-- An element at any other index computes the number of bytes. -/
theorem core_element_of_none {base index : Tree} (h : index.constant? = none)
    (address neg : Bool) :
    core f usage type position (.element address neg base index) = (do
      let pointer ← base.valueType
      let item ← itemType pointer position
      let size ← sizeOf item
      let t ← goType item
      let b ← expr f .value base
      let b ← addressBits pointer b position
      let i ← expr f .value index
      return pointed address (.reinterpret (.pointer t) (displacedBy b neg size i))) := by
  rw [core]
  simp only [h, bind_map_left]

/-- An element at a constant place: the index is not written. -/
theorem spells_element_of_some (base : Tree) (i : Int) (address neg : Bool) :
    Spells env final f Expr.text
      (fun _ : { p : Tree × Tree // base.Alike p.1 ∧ p.2.constant? = some i } => [])
      (fun p => [(.value, p.1.1)]) fun p =>
        core f usage type position (.element address neg p.1.1 p.1.2) := by
  refine spells_congr (fun p => core_element_of_some p.2.2 address neg) ?_
  refine spells_skip (determined_valueType fun p => p.2.1.type) fun pointer => ?_
  refine spells_skip (determined_itemType _ _) fun item =>
    spells_skip (determined_sizeOf _) fun size => ?_
  refine spells_skip (determined_goType _) fun t => spells_part ?_
  refine spells_wrap (surrounds_addressBits _ _) (fun x => steady_addressBits _ x _)
    fun front back => spells_pure ?_
  refine (around_pointed address).fills
    ((around_reinterpret _).fills ((around_displaced _).fills ?_))
  exact (((fills_hole _).behind front).before back).congr fun p => p.2

/-- An element at an index that is not constant writes its base, and then its index. -/
theorem spells_element_of_none (base : Tree) (address neg : Bool) : Spells env final f Expr.text
    (fun _ : { p : Tree × Tree // base.Alike p.1 ∧ p.2.constant? = none } => [])
    (fun p => [(.value, p.1.1), (.value, p.1.2)])
    fun p => core f usage type position (.element address neg p.1.1 p.1.2) := by
  refine spells_congr (fun p => core_element_of_none p.2.2 address neg) ?_
  refine spells_skip (determined_valueType fun p => p.2.1.type) fun pointer => ?_
  refine spells_skip (determined_itemType _ _) fun item =>
    spells_skip (determined_sizeOf _) fun size => ?_
  refine spells_skip (determined_goType _) fun t => spells_part ?_
  refine spells_wrap (surrounds_addressBits _ _) (fun x => steady_addressBits _ x _)
    fun front back => ?_
  refine spells_part
    (spells_pure ((around_pointed address).fills
      ((around_reinterpret _).fills (fills_binary _ ?_ ?_))))
  · exact (((fills_hole _).behind front).before back).congr fun p => p.1.2
  · have hscale : Around (.binary .scale (.int size)) :=
      ⟨(Expr.int size).text ++ Operator.scale.text, "",
        fun x => (String.append_empty (s := _ ++ x.text)).symm⟩
    exact hscale.fills ((around_convert _).fills (fills_hole _))

/-- The arguments behind the first one. -/
def further : List Expr → String
  | [] => ""
  | x :: rest => ", " ++ x.text ++ further rest

/-- The arguments of a call are the first one and those behind it. -/
theorem intercalate_texts (x : Expr) (xs : List Expr) :
    ", ".intercalate (Expr.texts (x :: xs)) = x.text ++ further xs := by
  induction xs generalizing x with
  | nil => exact (String.append_empty (s := x.text)).symm
  | cons y ys ih =>
    show ", ".intercalate (x.text :: y.text :: Expr.texts ys) =
        x.text ++ (", " ++ y.text ++ further ys)
    rw [String.intercalate_cons_cons, String.append_assoc, String.append_assoc]
    exact congrArg (fun t => x.text ++ (", " ++ t)) (ih y)

/-- Without arguments nothing is written. -/
theorem spells_noArguments {g : List Expr → String} (hg : g [] = "") (variadic : Bool)
    (params : List TypeId) :
    Spells env final f g (fun _ : { ts : List Tree // List.Forall₂ Tree.Alike [] ts } => [])
      (fun ts => ts.1.map fun t => (.callArgument, t)) fun ts =>
        arguments f variadic params ts.1 := by
  have hnone : Spells env final f g (fun _ : Unit => []) (fun _ => []) fun _ => pure [] :=
    spells_pure ((fills_text "").congr fun _ => hg)
  refine spells_cover hnone ?_
  rintro ⟨ts, hts⟩
  cases hts
  exact ⟨(), rfl, rfl, by rw [arguments]⟩

/-- One argument, and then the others. -/
theorem spells_argument {first : Tree} {rest : List Tree} {variadic : Bool} {params : List TypeId}
    {g : List Expr → String} (lead : String)
    (hg : ∀ x xs, g (x :: xs) = lead ++ x.text ++ further xs)
    (hrest : ∀ params, Spells env final f further
      (fun _ : { ts : List Tree // List.Forall₂ Tree.Alike rest ts } => [])
      (fun ts => ts.1.map fun t => (.callArgument, t)) fun ts =>
        arguments f variadic params ts.1) :
      Spells env final f g
        (fun _ : { ts : List Tree // List.Forall₂ Tree.Alike (first :: rest) ts } => [])
        (fun ts => ts.1.map fun t => (.callArgument, t)) fun ts =>
          arguments f variadic params ts.1 := by
    have hall : Spells env final f g
        (fun _ : { t : Tree // first.Alike t } ×
          { ts : List Tree // List.Forall₂ Tree.Alike rest ts } => [])
        (fun p => (.callArgument, p.1.1) :: p.2.1.map fun t => (.callArgument, t))
        fun p => arguments f variadic params (p.1.1 :: p.2.1) := by
      simp only [arguments]
      refine spells_part (spells_skip (determined_valueType fun p => p.1.1.2.type) fun type => ?_)
      refine spells_wrap (surrounds_passArgument _ _ _) (fun x => steady_passArgument _ _ _ x)
        fun front back => ?_
      refine spells_between "" (spells_cover (hrest params.tail) fun p =>
        ⟨p.1.1.1.2, rfl, rfl, rfl⟩)
          (Fills.behind ((((fills_hole _).behind front).before back).congr fun p => p.2) lead) ?_
      intro p xs
      rw [hg, String.append_empty]
    refine spells_cover hall ?_
    rintro ⟨ts, hts⟩
    cases hts with
    | cons hfirst hts => exact ⟨(⟨_, hfirst⟩, ⟨_, hts⟩), rfl, rfl, rfl⟩

/-- The arguments behind the first one are written in order. -/
theorem spells_further (rest : List Tree) (variadic : Bool) (params : List TypeId) :
    Spells env final f further
      (fun _ : { ts : List Tree // List.Forall₂ Tree.Alike rest ts } => [])
      (fun ts => ts.1.map fun t => (.callArgument, t)) fun ts =>
        arguments f variadic params ts.1 := by
  induction rest generalizing params with
  | nil => exact spells_noArguments rfl variadic params
  | cons first rest ih => exact spells_argument ", " (fun _ _ => rfl) ih

/-- All arguments of a call. -/
theorem spells_arguments (args : List Tree) (variadic : Bool) (params : List TypeId) :
    Spells env final f
      (fun xs => ", ".intercalate (Expr.texts xs))
        (fun _ : { ts : List Tree // List.Forall₂ Tree.Alike args ts } => [])
        (fun ts => ts.1.map fun t => (.callArgument, t)) fun ts =>
          arguments f variadic params ts.1 := by
  cases args with
  | nil => exact spells_noArguments rfl variadic params
  | cons first rest =>
    refine spells_argument "" (fun x xs => ?_) (spells_further rest variadic)
    rw [intercalate_texts, String.empty_append]

/-- A call writes its arguments in order. -/
theorem spells_call (index : Nat) (functionType : TypeId) (args : List Tree) :
    Spells env final f Expr.text
      (fun _ : { ts : List Tree // List.Forall₂ Tree.Alike args ts } => [])
      (fun ts => ts.1.map fun t => (.callArgument, t)) fun ts =>
        core f usage type position (.call index functionType ts.1) := by
  simp only [core]
  refine spells_skip (determined_object _) fun o => ?_
  cases o with
  | data => exact spells_breach _
  | function =>
    refine spells_skip (determined_objectRef _) fun callee =>
      spells_skip (determined_parametersOf _) fun parameters => ?_
    exact spells_between ")" (spells_arguments args parameters.2 parameters.1)
      (fills_text (callee.text ++ "(")) fun _ _ => rfl

/-- A call through a pointer writes its callee, and then its arguments in order. -/
theorem spells_callPointer (pointerType : TypeId) (args : List Tree) : Spells env final f Expr.text
    (fun _ : Tree × { ts : List Tree // List.Forall₂ Tree.Alike args ts } => [])
    (fun p => (.value, p.1) :: p.2.1.map fun t => (.callArgument, t))
    fun p => core f usage type position (.callPointer pointerType p.1 p.2.1) := by
  simp only [core]
  refine spells_skip determined_types fun table =>
    spells_skip (determined_lift _) fun function => spells_part ?_
  refine spells_skip (determined_parametersOf _) fun parameters => ?_
  have hcallee := (around_paren.fills (fills_hole fun p :
    (Tree × { ts : List Tree // List.Forall₂ Tree.Alike args ts }) × Expr => p.2.text)).before "("
  exact spells_between ")" (spells_cover (spells_arguments args parameters.2 parameters.1)
    fun p => ⟨p.1.2, rfl, rfl, rfl⟩) hcallee fun _ _ => rfl

/-- The operators `&&` and `||` write their left operand, and then their right one. -/
theorem spells_logical (isAnd : Bool) (lhs rhs : Tree) : Spells env final f Expr.text
    (fun _ : { p : Tree × Tree // lhs.Alike p.1 ∧ rhs.Alike p.2 } => [])
    (fun p => [(.value, p.1.1), (.value, p.1.2)]) fun p =>
      core f usage type position (.logical isAnd p.1.1 p.1.2) := by
  simp only [core]
  refine spells_test (fun p => p.2.1.type) fun tail =>
    spells_test (fun p => p.1.1.2.2.type) fun tail' => ?_
  refine spells_pure (around_ofBool.fills (fills_binary _ ?_ ?_))
  · exact ((fills_hole _).before tail).congr fun p => p.1.1.2
  · exact ((fills_hole _).before tail').congr fun p => p.2

/-- The operator `?:` writes its condition, and then both of its arms. -/
theorem spells_conditional (cond : Tree) : Spells env final f Expr.text
    (fun _ : { p : Tree × Tree × Tree // cond.Alike p.1 } => [])
    (fun p => [(.value, p.1.1), (.value, p.1.2.1), (.value, p.1.2.2)])
    fun p => core f usage type position (.conditional p.1.1 p.1.2.1 p.1.2.2) := by
  simp only [core]
  refine spells_skip (determined_resultType _ _) fun result =>
    spells_skip (determined_goType _) fun t => ?_
  refine spells_test (fun p => p.2.type) fun tail => spells_part (spells_part (spells_pure ?_))
  have hreturn {D : Type} {c a : D → Expr} {done : D → List String}
      (hc : Fills (fun d => (c d).text) done) :
      Fills (fun d => (Stmt.returnIf (c d) (a d)).text) fun d => done d ++ [(a d).text] :=
    (((hc.behind "if ").before " \x7b return ").append (fills_hole _)).before " \x7d"
  have hret {D : Type} (b : D → Expr) :
      Fills (fun d => (Stmt.ret [b d]).text) fun d => [(b d).text] :=
    (fills_hole _).behind "return "
  exact fills_invoke [t] (hreturn (((fills_hole _).before tail).congr fun p => p.1.1.2)) (hret _)

/-- A comparison of anything but functions. -/
theorem spells_compare (op : CompareOp) {operandType : TypeId}
    (h : env.program.types.isFunctionPointer operandType ≠ .ok true) : Spells env final f Expr.text
    (fun _ : Tree × Tree => []) (fun p => [(.operand, p.1), (.operand, p.2)])
    fun p => core f usage type position (.compare op operandType p.1 p.2) := by
  simp only [core]
  refine spells_part (spells_part ?_)
  unfold compareExpr
  refine spells_types (spells_lift fun isFunction hfunction => ?_)
  cases isFunction with
  | true => exact absurd hfunction h
  | false =>
    refine spells_skip (determined_lift _) fun isData => spells_ite (spells_pure ?_) ?_
    · exact around_ofBool.fills (fills_binary _ (around_addressBits.fills (fills_hole _))
        (around_addressBits.fills (fills_hole _)))
    · refine spells_skip (determined_kind _) fun k =>
        spells_ite (spells_pure ?_) (spells_unsupported _ _)
      exact around_ofBool.fills (fills_binary _ (fills_hole _) (fills_hole _))

/-! ## Trees -/

variable {shape : Shape}

/-- A store that computes its address once has no side effects in front of the address. -/
theorem comma_eq_nil_of_compound {s s' : State} {x : Expr} {bits bitOffset : Nat}
    {target value : Tree} {addressType : Option TypeId} {origin : Position} {comma : List Tree}
    (h : Yields env (core f usage type position
      (.store bits bitOffset (.mk (.dup target) addressType origin comma) value)) s x s') :
    comma = [] := by
  rw [core] at h
  obtain ⟨stored, s₁, -, h⟩ := yields_bind.1 h
  obtain ⟨t, s₂, -, h⟩ := yields_bind.1 h
  split at h
  · exact absurd h not_yields_unsupported
  · obtain ⟨s₃, s₄, -, h⟩ := yields_bind.1 h
    split at h
    · exact absurd h not_yields_unsupported
    · rename_i hplain
      simp only [Bool.or_eq_true, not_or, Bool.not_eq_true, Bool.not_eq_false'] at hplain
      exact List.isEmpty_iff.1 hplain.2

/-- All operands of a shape that has code are written, but for a constant index. -/
theorem writes_parts {s s' : State} {x : Expr}
    (h : Yields env (core f usage type position shape) s x s') :
    shape.Writes shape.operands shape.parts := by
  cases shape with
  | compare op operandType lhs rhs => exact .part (.part .nil)
  | store bits bitOffset address value =>
    rw [Shape.parts]
    cases htarget : address.target? with
    | none => exact .part (.part .nil)
    | some target =>
      cases address with
      | mk shape addressType origin comma =>
        cases shape with
        | dup target' => exact .duplicate htarget (comma_eq_nil_of_compound h) (.part .nil)
        | _ => cases htarget
  | element address neg base index =>
    rw [Shape.parts]
    cases hconstant : index.constant? with
    | none => exact .part (.part .nil)
    | some value => exact .part (.constant rfl hconstant .nil)
  | call index functionType args => exact Shape.writes_map _ .callArgument args
  | callPointer pointerType callee args => exact .part (Shape.writes_map _ .callArgument args)
  | _ => exact Shape.writes_map _ .value _

/-- In a comparison of functions, `nil` on the left changes its place with the other operand. -/
def Swapped (env : Env) (template : Template) (shape : Shape) (codes : List Expr) (x : Expr) :
    Prop :=
  ∃ op operandType lhs rhs r, shape = .compare op operandType lhs rhs ∧
    env.program.types.isFunctionPointer operandType = .ok true ∧ codes = [.nil, r] ∧
    x.text = template.fill [r.text, Expr.nil.text]

/-- From the state `s` to `s'` the parts of a shape were written in order, and put into the holes
of the template. -/
def Woven (env : Env) (f : Frame) (template : Template) (shape : Shape) (s : State) (x : Expr)
    (s' : State) : Prop :=
  shape.Writes shape.operands shape.parts ∧ ∃ codes, Codes env f s shape.parts codes s' ∧
    template.holes = codes.length ∧
    (x.text = template.fill (codes.map Expr.text) ∨ Swapped env template shape codes x)

/-- The code of a shape has one template for all operands that look alike. -/
def Weaves (env : Env) (final : State) (f : Frame) (usage : Use) (type : Option TypeId)
    (position : Position) (shape : Shape) : Prop :=
  ∃ template : Template, ∀ ts s x s', List.Forall₂ Tree.Alike shape.operands ts → Faithful env s →
    Keeps s' final →
    Yields env (core f usage type position (shape.withOperands ts)) s x s' →
      Woven env f template (shape.withOperands ts) s x s'

/-- A shape whose parts are written in order has one template for all operands alike. -/
theorem weaves_of_spells {parts : C → List (Use × Tree)} {shapes : C → Shape}
    (h : Spells env final f Expr.text (fun _ => []) parts fun c =>
      core f usage type position (shapes c))
      (hcover : ∀ ts, List.Forall₂ Tree.Alike shape.operands ts →
        ∃ c, parts c = (shape.withOperands ts).parts ∧ shapes c = shape.withOperands ts) :
      Weaves env final f usage type position shape := by
    obtain ⟨template, htemplate⟩ := h
    refine ⟨template, fun ts s x s' halike hs hkeeps hyields => ?_⟩
    obtain ⟨c, hparts, hshape⟩ := hcover ts halike
    refine ⟨writes_parts hyields, ?_⟩
    rw [← hshape] at hyields
    obtain ⟨codes, hcodes, hholes, htext⟩ := htemplate c s x s' hs hkeeps hyields
    rw [hparts] at hcodes
    exact ⟨codes, hcodes, by simpa using hholes, .inl htext⟩

/-- A shape without operands. -/
theorem weaves_of_determined (hoperands : shape.operands = [])
    (hshape : shape.withOperands [] = shape) (hparts : shape.parts = [])
    (h : Determined env final fun _ : Unit => core f usage type position shape) :
    Weaves env final f usage type position shape := by
  refine weaves_of_spells (spells_of_determined h) fun ts hts => ⟨(), ?_⟩
  rw [hoperands] at hts
  cases hts
  rw [hshape, hparts]
  exact ⟨rfl, rfl⟩

/-- What looks like one tree is one tree. -/
theorem forall₂_one {t : Tree} {ts : List Tree} (h : List.Forall₂ Tree.Alike [t] ts) :
    ∃ t', ts = [t'] ∧ t.Alike t' := by
  cases h with
  | cons h hrest =>
    cases hrest
    exact ⟨_, rfl, h⟩

/-- What looks like two trees are two trees. -/
theorem forall₂_two {t u : Tree} {ts : List Tree} (h : List.Forall₂ Tree.Alike [t, u] ts) :
    ∃ t' u', ts = [t', u'] ∧ t.Alike t' ∧ u.Alike u' := by
  cases h with
  | cons h hrest =>
    obtain ⟨u', rfl, hu⟩ := forall₂_one hrest
    exact ⟨_, u', rfl, h, hu⟩

/-- What looks like three trees are three trees. -/
theorem forall₂_three {t u v : Tree} {ts : List Tree} (h : List.Forall₂ Tree.Alike [t, u, v] ts) :
    ∃ t' u' v', ts = [t', u', v'] ∧ t.Alike t' ∧ u.Alike u' ∧ v.Alike v' := by
  cases h with
  | cons h hrest =>
    obtain ⟨u', v', rfl, hu, hv⟩ := forall₂_two hrest
    exact ⟨_, u', v', rfl, h, hu, hv⟩

/-- A comparison has one template for all operands alike, and only `nil` changes its place in
it. -/
theorem weaves_compare (op : CompareOp) (operandType : TypeId) (lhs rhs : Tree) :
    Weaves env final f usage type position (.compare op operandType lhs rhs) := by
  by_cases hfunction : env.program.types.isFunctionPointer operandType = .ok true
  · have hfills :
        Fills (fun p : Expr × Expr => (Expr.ofBool (.binary (compareOperator op) p.1 p.2)).text)
        fun p => [p.1.text] ++ [p.2.text] :=
      around_ofBool.fills (fills_binary _ (fills_hole _) (fills_hole _))
    obtain ⟨template, htemplate⟩ := hfills
    -- Which operand comes first depends on their codes, so this is no family with one order of the
    -- holes.
    refine ⟨template, fun ts s x s' halike hs hkeeps h => ?_⟩
    obtain ⟨lhs', rhs', rfl, -, -⟩ := forall₂_two halike
    change Yields env (core f usage type position (.compare op operandType lhs' rhs')) s x s' at h
    refine ⟨writes_parts h, ?_⟩
    rw [core] at h
    obtain ⟨l, s₁, hl, h⟩ := yields_bind.1 h
    obtain ⟨r, s₂, hr, h⟩ := yields_bind.1 h
    have hs₁ := hs.evolves ((steady_expr f .operand lhs').evolves hl)
    have hcodes : Codes env f s (Shape.compare op operandType lhs' rhs').parts [l, r] s' :=
      .cons (Keeps.refl s) hs hl (.cons (Keeps.refl s₁) hs₁ hr
        (.nil ((steady_compareExpr _ _ _ _ _).keeps h)))
    refine ⟨[l, r], hcodes, (htemplate (l, r)).1, ?_⟩
    obtain ⟨table, s₃, htable, h⟩ := yields_bind.1 h
    obtain ⟨rfl, rfl⟩ := yields_types.1 htable
    obtain ⟨isFunction, s₄, hlift, h⟩ := yields_bind.1 h
    obtain ⟨hresult, rfl⟩ := yields_lift.1 hlift
    rw [hfunction] at hresult
    cases hresult
    rw [if_pos rfl] at h
    split at h
    · obtain ⟨rfl, -⟩ := yields_pure.1 h
      exact .inl (htemplate (_, .nil)).2
    · obtain ⟨rfl, -⟩ := yields_pure.1 h
      exact .inr ⟨op, operandType, lhs', rhs', _, rfl, hfunction, rfl, (htemplate (_, .nil)).2⟩
    · exact absurd h not_yields_unsupported
  · refine weaves_of_spells (spells_compare op hfunction) fun ts hts => ?_
    obtain ⟨l, r, rfl, -, -⟩ := forall₂_two hts
    exact ⟨(l, r), rfl, rfl⟩

/-- A store has one template for all operands alike; a duplicated address stands for the address
that it duplicates. -/
theorem weaves_store (bits bitOffset : Nat) (address value : Tree) :
    Weaves env final f usage type position (.store bits bitOffset address value) := by
  cases htarget : address.target? with
  | none =>
    refine weaves_of_spells (spells_store bits bitOffset) fun ts hts => ?_
    obtain ⟨a, v, rfl, ha, -⟩ := forall₂_two hts
    have hnone : a.target? = none := by
      have hsame := ha.duplicate
      rw [htarget] at hsame
      simpa using hsame
    have hparts : (Shape.store bits bitOffset a v).parts = [(.operand, a), (.operand, v)] :=
      by simp [Shape.parts, hnone]
    exact ⟨⟨(a, v), hnone⟩, hparts.symm, rfl⟩
  | some target =>
    refine weaves_of_spells (spells_compound bits bitOffset) fun ts hts => ?_
    obtain ⟨a, v, rfl, ha, -⟩ := forall₂_two hts
    have hsome : a.target?.isSome := by rw [ha.duplicate, htarget]; rfl
    cases a with
    | mk shape ty origin comma =>
      cases shape with
      | dup target' => exact ⟨((target', v), ty, origin, comma), rfl, rfl⟩
      | _ => cases hsome

/-- An element has one template for all operands alike; its index is written unless it is
constant. -/
theorem weaves_element (address neg : Bool) (base index : Tree) :
    Weaves env final f usage type position (.element address neg base index) := by
  cases hconstant : index.constant? with
  | none =>
    refine weaves_of_spells (spells_element_of_none base address neg) fun ts hts => ?_
    obtain ⟨b, i, rfl, hb, hi⟩ := forall₂_two hts
    have hnone : i.constant? = none := hi.constant.trans hconstant
    have hparts : (Shape.element address neg b i).parts = [(.value, b), (.value, i)] :=
      by simp [Shape.parts, hnone]
    exact ⟨⟨(b, i), hb, hnone⟩, hparts.symm, rfl⟩
  | some value =>
    refine weaves_of_spells (spells_element_of_some base value address neg) fun ts hts => ?_
    obtain ⟨b, i, rfl, hb, hi⟩ := forall₂_two hts
    have hsome : i.constant? = some value := hi.constant.trans hconstant
    have hparts : (Shape.element address neg b i).parts = [(.value, b)] :=
      by simp [Shape.parts, hsome]
    exact ⟨⟨(b, i), hb, hsome⟩, hparts.symm, rfl⟩

/-- The code of every shape has one template for all operands alike. -/
theorem weaves (env : Env) (final : State) (f : Frame) (usage : Use) (type : Option TypeId)
    (position : Position) (shape : Shape) : Weaves env final f usage type position shape := by
  cases shape with
  | argument index address =>
    refine weaves_of_determined rfl rfl rfl ?_
    simp only [core]
    exact determined_argumentRef f index address position
  | localVar index address =>
    refine weaves_of_determined rfl rfl rfl ?_
    simp only [core]
    exact determined_localRef f usage index address
  | result index address =>
    refine weaves_of_determined rfl rfl rfl ?_
    simp only [core]
    exact determined_resultRef f index address
  | global index name linkage address =>
    refine weaves_of_determined rfl rfl rfl ?_
    simp only [core]
    exact determined_globalRef usage index name linkage address
  | const32 value =>
    refine weaves_of_determined rfl rfl rfl ?_
    simp only [core]
    exact determined_bind (determined_resultType _ _) fun t => determined_constant t _ _ _ position
  | const64 value =>
    refine weaves_of_determined rfl rfl rfl ?_
    simp only [core]
    exact determined_bind (determined_resultType _ _) fun t => determined_constant t _ _ _ position
  | stringConst id =>
    refine weaves_of_determined rfl rfl rfl ?_
    simp only [core]
    exact determined_bind (determined_resultType _ _) fun t =>
      determined_stringPointer t id 0 position
  | null =>
    refine weaves_of_determined rfl rfl rfl ?_
    simp only [core]
    exact determined_bind (determined_resultType _ _) fun t =>
      determined_ite (determined_pure _) (determined_pure _)
  | binary op lhs rhs =>
    refine weaves_of_spells (spells_binary op) fun ts hts => ?_
    obtain ⟨l, r, rfl, -, -⟩ := forall₂_two hts
    exact ⟨(l, r), rfl, rfl⟩
  | compare op operandType lhs rhs => exact weaves_compare op operandType lhs rhs
  | unary op operandType operand =>
    refine weaves_of_spells (spells_unary op operandType operand) fun ts hts => ?_
    obtain ⟨t, rfl, ht⟩ := forall₂_one hts
    exact ⟨⟨t, ht⟩, rfl, rfl⟩
  | convert source operand =>
    refine weaves_of_spells (spells_convert source operand) fun ts hts => ?_
    obtain ⟨t, rfl, ht⟩ := forall₂_one hts
    exact ⟨⟨t, ht⟩, rfl, rfl⟩
  | load pointerType pointer =>
    refine weaves_of_spells (spells_load pointerType) fun ts hts => ?_
    obtain ⟨t, rfl, -⟩ := forall₂_one hts
    exact ⟨t, rfl, rfl⟩
  | store bits bitOffset address value => exact weaves_store bits bitOffset address value
  | copy copied dst src =>
    refine weaves_of_spells (spells_copy copied) fun ts hts => ?_
    obtain ⟨d, s, rfl, -, -⟩ := forall₂_two hts
    exact ⟨(d, s), rfl, rfl⟩
  | element address neg base index => exact weaves_element address neg base index
  | field index address base =>
    refine weaves_of_spells (spells_field index address base) fun ts hts => ?_
    obtain ⟨t, rfl, ht⟩ := forall₂_one hts
    exact ⟨⟨t, ht⟩, rfl, rfl⟩
  | increment pre delta bits operand =>
    refine weaves_of_spells (spells_increment pre delta bits) fun ts hts => ?_
    obtain ⟨t, rfl, -⟩ := forall₂_one hts
    exact ⟨t, rfl, rfl⟩
  | ptrDiff pointerType lhs rhs =>
    refine weaves_of_spells (spells_ptrDiff pointerType) fun ts hts => ?_
    obtain ⟨l, r, rfl, -, -⟩ := forall₂_two hts
    exact ⟨(l, r), rfl, rfl⟩
  | call index functionType args =>
    exact weaves_of_spells (spells_call index functionType args) fun ts hts =>
      ⟨⟨ts, hts⟩, rfl, rfl⟩
  | callPointer pointerType callee args =>
    refine weaves_of_spells (spells_callPointer pointerType args) fun ts hts => ?_
    cases hts with
    | cons _ hargs => exact ⟨(_, ⟨_, hargs⟩), rfl, rfl⟩
  | logical isAnd lhs rhs =>
    refine weaves_of_spells (spells_logical isAnd lhs rhs) fun ts hts => ?_
    obtain ⟨l, r, rfl, hl, hr⟩ := forall₂_two hts
    exact ⟨⟨(l, r), hl, hr⟩, rfl, rfl⟩
  | conditional cond whenTrue whenFalse =>
    refine weaves_of_spells (spells_conditional cond) fun ts hts => ?_
    obtain ⟨c, a, b, rfl, hc, -, -⟩ := forall₂_three hts
    exact ⟨⟨(c, a, b), hc⟩, rfl, rfl⟩
  | dup target =>
    refine ⟨[], fun ts s x s' hts _ _ h => ?_⟩
    obtain ⟨t, rfl, -⟩ := forall₂_one hts
    change Yields env (core f usage type position (.dup t)) s x s' at h
    rw [core] at h
    exact absurd h not_yields_unsupported
  | dupRef =>
    refine weaves_of_determined rfl rfl rfl (determined_of_delivers (P := (Expr.name "p" = ·))
      (fun _ => steady_core _ _ _ _ _) (fun _ => ?_) fun _ _ h h' => h.symm.trans h')
    rw [core]
    exact delivers_skip steady_get fun s =>
      delivers_ite (delivers_unsupported _ _) (delivers_pure rfl)

/-- The statements of trees are those of one after the other. -/
theorem runs_statements {s s' : State} {ts : List Tree} {ss : List Stmt} (hs : Faithful env s)
    (h : Yields env (statements f ts) s ss s') :
    ∃ lists, Runs env (statement f) s ts lists s' ∧ ss = lists.flatten := by
  induction ts generalizing s ss with
  | nil =>
    rw [statements] at h
    obtain ⟨rfl, rfl⟩ := yields_pure.1 h
    exact ⟨[], .nil (Keeps.refl s), rfl⟩
  | cons t ts ih =>
    rw [statements] at h
    obtain ⟨first, s₁, hfirst, h⟩ := yields_bind.1 h
    obtain ⟨more, s₂, hmore, h⟩ := yields_bind.1 h
    obtain ⟨rfl, rfl⟩ := yields_pure.1 h
    obtain ⟨lists, hruns, rfl⟩ := ih (hs.evolves ((steady_statement f t).evolves hfirst)) hmore
    exact ⟨first :: lists, .cons (Keeps.refl s) hs hfirst hruns, rfl⟩

/-- The text of a function that runs statements and then a last one, and is called at once. -/
def calledText (results : String) (statements : List Stmt) (last : String) : String :=
  "func()" ++ results ++ " \x7b " ++ "; ".intercalate (statements.map Stmt.text) ++ "; " ++
    last ++ " \x7d()"

/-- The text of the call of a function literal. -/
theorem text_invoke (results : List Go.Ty) (body : List Stmt) (last : Stmt) :
    (Expr.invoke results body last).text = calledText (resultsText results) body last.text := by
  rw [calledText, ← Stmt.texts_eq_map]
  rfl

/-- The text of a tree with a comma list: without entries it is the text of what the tree itself
computes, and with entries that of a function that runs their statements first. -/
inductive Led (env : Env) : Option TypeId → List Tree → List (List Stmt) → Expr → String → Prop
  | bare {type : Option TypeId} {own : Expr} : Led env type [] [] own own.text
  | value {id : TypeId} {t : Go.Ty} {first : Tree} {rest : List Tree} {lists : List (List Stmt)}
      {own : Expr} (ht : Expands env.program.types env.target id t) :
      Led env (some id) (first :: rest) lists own
        (calledText (" " ++ t.text) lists.flatten ("return " ++ own.text))
  | effect {first : Tree} {rest : List Tree} {lists : List (List Stmt)} {own : Expr} :
      Led env none (first :: rest) lists own (calledText "" lists.flatten own.text)

/-- From the state `s` to `s'` the statements of the comma list were written, in order, and then
the shape; the text has them in front of the code of the shape. -/
def Preceded (env : Env) (f : Frame) (usage : Use) (type : Option TypeId) (position : Position)
    (shape : Shape) (comma : List Tree) (s : State) (text : String) (s' : State) : Prop :=
  ∃ lists s₁ s₂ own, Runs env (statement f) s comma lists s₁ ∧ Keeps s₁ s₂ ∧ Faithful env s₂ ∧
    Yields env (core f usage type position shape) s₂ own s' ∧ Led env type comma lists own text

/-- An expression is preceded by the statements of its comma list, in order. -/
theorem preceded {s s' : State} {x : Expr} {comma : List Tree} (hs : Faithful env s)
    (h : Yields env (expr f usage (.mk shape type position comma)) s x s') :
    Preceded env f usage type position shape comma s x.text s' := by
  cases comma with
  | nil =>
    rw [expr] at h
    exact ⟨[], s, s, x, .nil (Keeps.refl s), Keeps.refl s, hs, h, .bare⟩
  | cons first rest =>
    rw [expr] at h
    obtain ⟨effects, s₁, heffects, h⟩ := yields_bind.1 h
    obtain ⟨more, s₂, hmore, h⟩ := yields_bind.1 h
    have hs₁ := hs.evolves ((steady_statement f first).evolves heffects)
    have hs₂ := hs₁.evolves ((steady_statements f rest).evolves hmore)
    obtain ⟨lists, hruns, rfl⟩ := runs_statements hs₁ hmore
    have hall : Runs env (statement f) s (first :: rest) (effects :: lists) s₂ :=
      .cons (Keeps.refl s) hs heffects hruns
    cases type with
    | none =>
      obtain ⟨own, s₃, hown, h⟩ := yields_bind.1 h
      obtain ⟨rfl, rfl⟩ := yields_pure.1 h
      refine ⟨effects :: lists, s₂, s₂, own, hall, Keeps.refl s₂, hs₂, hown, ?_⟩
      rw [text_invoke]
      exact .effect
    | some id =>
      -- Whether the kind of the type was asked for before makes no difference to what is written
      -- then.
      have hinvoke {s₃ : State} (hevolves : Evolves env s₂ s₃) (h : Yields env (do
          let t ← goType id
          let own ← core f usage (some id) position shape
          return Expr.invoke [t] (effects ++ lists.flatten) (.ret [own])) s₃ x s') :
          Preceded env f usage (some id) position shape (first :: rest) s x.text s' := by
        have hs₃ := hs₂.evolves hevolves
        obtain ⟨t, s₄, ht, h⟩ := yields_bind.1 h
        obtain ⟨own, s₅, hown, h⟩ := yields_bind.1 h
        obtain ⟨rfl, rfl⟩ := yields_pure.1 h
        have htype := (steady_goType id).evolves ht
        refine ⟨effects :: lists, s₂, s₄, own, hall, hevolves.keeps.trans htype.keeps,
          hs₃.evolves htype, hown, ?_⟩
        rw [text_invoke]
        exact .value (hs₃.yields_goType.1 ⟨_, ht⟩)
      dsimp only at h
      split at h
      · obtain ⟨k, s₃, hk, h⟩ := yields_bind.1 h
        split at h
        · obtain ⟨_, _, h, -⟩ := yields_bind.1 h
          exact absurd h not_yields_unsupported
        · exact hinvoke ((steady_kind id).evolves hk) h
      · exact hinvoke (.refl s₂) h

/-- What a tree adds to the statements of its comma list, if it is computed for its side effects:
its code, whose value is dropped unless it is a call, but nothing if it is a null pointer. -/
inductive Adds : Shape → Expr → List String → Prop
  | null {own : Expr} (h : own = .nil ∨ own = .convert .uintptr (.int 0)) : Adds .null own []
  | call {shape : Shape} {own : Expr} (hcall : isCall shape) : Adds shape own [own.text]
  | value {shape : Shape} {own : Expr} (hnull : shape ≠ .null) (hcall : ¬isCall shape) :
      Adds shape own ["_ = " ++ own.text]

/-- From the state `s` to `s'` the statements of the comma list were written, in order, and then
the shape; the texts are those of the statements, and what the shape adds to them. -/
def Performed (env : Env) (f : Frame) (type : Option TypeId) (position : Position) (shape : Shape)
    (comma : List Tree) (s : State) (texts : List String) (s' : State) : Prop :=
  ∃ lists s₁ own added, Runs env (statement f) s comma lists s₁ ∧ Faithful env s₁ ∧
    Yields env (core f .value type position shape) s₁ own s' ∧ Adds shape own added ∧
    texts = lists.flatten.map Stmt.text ++ added

/-- A statement performs the statements of its comma list, in order, before its own. -/
theorem performed {s s' : State} {ss : List Stmt} {comma : List Tree} (hs : Faithful env s)
    (h : Yields env (statement f (.mk shape type position comma)) s ss s') :
    Performed env f type position shape comma s (ss.map Stmt.text) s' := by
  rw [statement] at h
  obtain ⟨before, s₁, hbefore, h⟩ := yields_bind.1 h
  obtain ⟨own, s₂, hown, h⟩ := yields_bind.1 h
  obtain ⟨rfl, rfl⟩ := yields_pure.1 h
  obtain ⟨lists, hruns, rfl⟩ := runs_statements hs hbefore
  have hs₁ := hs.evolves ((steady_statements f comma).evolves hbefore)
  by_cases hnull : shape = .null
  · subst hnull
    refine ⟨lists, s₁, own, [], hruns, hs₁, hown, .null ?_, (List.append_nil _).symm⟩
    rw [core] at hown
    obtain ⟨t, s₃, -, hown⟩ := yields_bind.1 hown
    split at hown
    · exact .inr (yields_pure.1 hown).1.symm
    · exact .inl (yields_pure.1 hown).1.symm
  · have heffect : effect shape lists.flatten own =
        lists.flatten ++ [if isCall shape then .eval own else .discard own] := by
      cases shape with
      | null => exact absurd rfl hnull
      | _ => rfl
    rw [heffect, List.map_append]
    by_cases hcall : isCall shape
    · refine ⟨lists, s₁, own, _, hruns, hs₁, hown, .call hcall, ?_⟩
      rw [if_pos hcall]
      rfl
    · refine ⟨lists, s₁, own, _, hruns, hs₁, hown, .value hnull hcall, ?_⟩
      rw [if_neg hcall]
      rfl

end

/-- The code of a shape has one template, whatever its operands are, and each operand is written
once and in order into a hole of it; the statements of a comma list are written before, in
order. -/
theorem code_keeps_order (env : Env) (final : State) (f : Frame) :
    (∀ usage type position shape, Weaves env final f usage type position shape) ∧
    (∀ usage shape type position comma s x s', Faithful env s →
      Yields env (expr f usage (.mk shape type position comma)) s x s' →
        Preceded env f usage type position shape comma s x.text s') ∧
    ∀ shape type position comma s ss s', Faithful env s →
      Yields env (statement f (.mk shape type position comma)) s ss s' →
        Performed env f type position shape comma s (ss.map Stmt.text) s' :=
  ⟨weaves env final f, fun _ _ _ _ _ _ _ _ => preceded, fun _ _ _ _ _ _ _ => performed⟩

/-- A number behind a side effect. -/
def steppedIndex : Tree :=
  .mk (.const32 3) (some TypeTable.int32) .unknown
    [.mk (.const32 1) (some TypeTable.int32) .unknown []]

/-- An element behind a null pointer, at a place that is not a constant. -/
def steppedElement : Shape := .element true false (.mk .null (some ⟨14⟩) .unknown []) steppedIndex

/-- The code of the element keeps the order, and so does the index behind its side effect. -/
theorem code_keeps_order_element :
    (∃ template x s', Yields intPointers (core idleFrame .value none .unknown steppedElement)
      (.start ⟨8, false⟩) x s' ∧
      Woven intPointers idleFrame template steppedElement (.start ⟨8, false⟩) x s') ∧
    (∃ x s', Yields intPointers (expr idleFrame .value steppedIndex) (.start ⟨8, false⟩) x s' ∧
      Preceded intPointers idleFrame .value steppedIndex.type .unknown steppedIndex.shape
        steppedIndex.comma (.start ⟨8, false⟩) x.text s') ∧
    ∃ ss s', Yields intPointers (statement idleFrame steppedIndex) (.start ⟨8, false⟩) ss s' ∧
      Performed intPointers idleFrame steppedIndex.type .unknown steppedIndex.shape
        steppedIndex.comma (.start ⟨8, false⟩) (ss.map Stmt.text) s' := by
  have hstart : Faithful intPointers (.start ⟨8, false⟩) := faithful_start intPointers
  refine ⟨?_, ⟨_, _, rfl, ?_⟩, ⟨_, _, rfl, ?_⟩⟩
  · obtain ⟨x, s', h⟩ :
        ∃ x s', Yields intPointers (core idleFrame .value none .unknown steppedElement)
      (.start ⟨8, false⟩) x s' := ⟨_, _, rfl⟩
    obtain ⟨template, htemplate⟩ :=
      (code_keeps_order intPointers s' idleFrame).1 .value none .unknown steppedElement
    have halike : List.Forall₂ Tree.Alike steppedElement.operands steppedElement.operands :=
      .cons (.refl _) (.cons (.refl _) .nil)
    exact ⟨template, x, s', h, htemplate _ _ x s' halike hstart (Keeps.refl s') h⟩
  · exact (code_keeps_order intPointers (.start ⟨8, false⟩) idleFrame).2.1
      _ _ _ _ _ _ _ _ hstart rfl
  · exact (code_keeps_order intPointers (.start ⟨8, false⟩) idleFrame).2.2 _ _ _ _ _ _ _ hstart rfl

end Emit
end StackToGo
