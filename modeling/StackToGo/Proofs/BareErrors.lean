import StackToGo.Flow.Builder
import StackToGo.Locals
import StackToGo.Proofs.TypeText.Memory
import StackToGo.StringPool

/-!
# Bare errors

An error is bare if it is a cause itself: a shape that is not covered, or a broken promise.
Whatever is asked about types, names, locals and bodies fails with a bare error if it fails
(`FailsBare`). So an error that names an object has been given the name by the one step that does
so.
-/

namespace StackToGo

/-- The error is a cause, and not one inside of another error. -/
inductive Error.IsBare : Error → Prop
  | unsupported (position : Position) (cause : Unsupported) : IsBare (.unsupported position cause)
  | breach (cause : Breach) : IsBare (.breach cause)

/-- If there is no result, there is a bare error. -/
def FailsBare {α : Type} (r : Except Error α) : Prop := ∀ e, r = .error e → e.IsBare

section

variable {α β : Type}

@[simp] theorem failsBare_ok (a : α) : FailsBare (.ok a : Except Error α) := fun _ h => by cases h

@[simp] theorem failsBare_pure (a : α) : FailsBare (pure a : Except Error α) := failsBare_ok a

@[simp] theorem failsBare_error {e : Error} : FailsBare (.error e : Except Error α) ↔ e.IsBare :=
  ⟨fun h => h e rfl, fun h _ he => by cases he; exact h⟩

@[simp] theorem failsBare_throw {e : Error} : FailsBare (throw e : Except Error α) ↔ e.IsBare :=
  failsBare_error

attribute [simp] Error.IsBare.unsupported Error.IsBare.breach

/-- A sequence fails bare if both of its parts do. -/
@[simp] theorem failsBare_bind {r : Except Error α} {k : α → Except Error β} (hr : FailsBare r)
    (hk : ∀ a, FailsBare (k a)) : FailsBare (r >>= k) := by
  intro e h
  rcases bind_eq_error_iff.1 h with h | ⟨a, -, h⟩
  · exact hr e h
  · exact hk a e h

/-- A map fails bare if what it maps does. -/
@[simp] theorem failsBare_map {r : Except Error α} (g : α → β) (hr : FailsBare r) :
    FailsBare (g <$> r) := by
  cases r with
  | error e => exact failsBare_error.2 (hr e rfl)
  | ok a => exact failsBare_ok (g a)

/-- A branch fails bare if both of its sides do. -/
@[simp] theorem failsBare_ite {c : Prop} {_ : Decidable c} {r r' : Except Error α}
    (h : FailsBare r) (h' : FailsBare r') : FailsBare (if c then r else r') := by
  split
  · exact h
  · exact h'

/-- A list fails bare if each of it does. -/
theorem failsBare_mapM {f : α → Except Error β} (hf : ∀ a, FailsBare (f a)) (list : List α) :
    FailsBare (list.mapM f) := by
  intro e h
  obtain ⟨a, -, ha⟩ := exists_of_mapM_eq_error h
  exact hf a e ha

end

/-- Whatever state the action starts from, it fails with a bare error if it fails. -/
def Action.FailsBare {σ α : Type} (m : Action σ α) : Prop :=
  ∀ s, StackToGo.FailsBare (m.perform s).1

namespace Action

variable {σ α β : Type}

/-- A result is no failure. -/
theorem failsBare_pure (a : α) : FailsBare (pure a : Action σ α) := fun _ => failsBare_ok a

/-- Reading the state does not fail. -/
theorem failsBare_get : FailsBare (get : Action σ σ) := fun s => failsBare_ok s

/-- Changing the state does not fail. -/
theorem failsBare_modify (f : σ → σ) : FailsBare (modify f : Action σ Unit) :=
  fun _ => failsBare_ok ()

/-- A result from outside fails bare if it does. -/
theorem failsBare_lift {r : Except Error α} (h : StackToGo.FailsBare r) :
    FailsBare (liftM r : Action σ α) := by
  intro s
  rwa [perform_liftExcept]

/-- A sequence of actions fails bare if both do. -/
theorem failsBare_bind {m : Action σ α} {k : α → Action σ β} (hm : FailsBare m)
    (hk : ∀ a, FailsBare (k a)) : FailsBare (m >>= k) := by
  intro s
  have hfirst := hm s
  rw [perform_bind]
  split
  case h_1 a s₁ hrun => exact hk a s₁
  case h_2 e s₁ hrun =>
    rw [hrun] at hfirst
    exact failsBare_error.2 (hfirst e rfl)

end Action

/-! ## Types -/

namespace TypeTable

/-- Looking up a type fails bare. -/
@[simp] theorem failsBare_get (table : TypeTable) (id : TypeId) : FailsBare (table.get id) := by
  unfold get
  split <;> simp

@[simp] theorem failsBare_kind (table : TypeTable) (id : TypeId) : FailsBare (table.kind id) :=
  failsBare_map _ (failsBare_get table id)

/-- Looking up what a pointer points to fails bare. -/
@[simp] theorem failsBare_element (table : TypeTable) (id : TypeId) :
    FailsBare (table.element id) := by
  unfold element
  refine failsBare_bind (failsBare_get table id) fun ty => ?_
  split <;> simp

/-- Telling pointers fails bare. -/
@[simp] theorem failsBare_isPointer (table : TypeTable) (id : TypeId) :
    FailsBare (table.isPointer id) := by
  simp [isPointer]

/-- Telling pointers to functions fails bare. -/
@[simp] theorem failsBare_isFunctionPointer (table : TypeTable) (id : TypeId) :
    FailsBare (table.isFunctionPointer id) := by
  unfold isFunctionPointer
  refine failsBare_bind (failsBare_get table id) fun ty => ?_
  split <;> simp

/-- Telling pointers to data fails bare. -/
@[simp] theorem failsBare_isDataPointer (table : TypeTable) (id : TypeId) :
    FailsBare (table.isDataPointer id) := by
  unfold isDataPointer
  refine failsBare_bind (failsBare_isPointer table id) fun isPointer =>
    failsBare_ite (failsBare_pure _) ?_
  simp

end TypeTable

/-! ## Sizes -/

/-- Neither the size nor the alignment is missing for another reason than a bare error. -/
def Extent.FailsBare (e : Extent) : Prop :=
  StackToGo.FailsBare e.size ∧ StackToGo.FailsBare e.align

/-- Placing fields fails bare. -/
theorem failsBare_placeFields {fields : List Extent} (h : ∀ field ∈ fields, field.FailsBare)
    (offset align : Nat) : FailsBare (placeFields offset align fields) := by
  induction fields generalizing offset align with
  | nil => exact failsBare_ok _
  | cons field rest ih =>
    obtain ⟨⟨hsize, halign⟩, hrest⟩ := List.forall_mem_cons.1 h
    rw [placeFields]
    refine failsBare_bind halign fun fieldAlign => failsBare_bind hsize fun size => ?_
    exact failsBare_bind (ih hrest _ _) fun placed => failsBare_pure _

/-- Taking the greatest of quantities fails bare. -/
theorem failsBare_greatest {quantities : List (Except Error Nat)}
    (h : ∀ x ∈ quantities, FailsBare x) (start : Nat) :
    FailsBare (greatest start quantities) := by
  induction quantities generalizing start with
  | nil => exact failsBare_ok start
  | cons x rest ih =>
    obtain ⟨hx, hrest⟩ := List.forall_mem_cons.1 h
    rw [greatest]
    exact failsBare_bind hx fun n => ih hrest _

/-- A struct of fields that fail bare does. -/
theorem Extent.failsBare_struct {fields : List Extent} (h : ∀ field ∈ fields, field.FailsBare) :
    (Extent.struct fields).FailsBare := by
  have hlayout : StackToGo.FailsBare (StructLayout.ofExtents fields) :=
    failsBare_bind (failsBare_placeFields h 0 1) fun placed => failsBare_pure _
  exact ⟨failsBare_map _ hlayout, failsBare_map _ hlayout⟩

/-- A union of members that fail bare does. -/
theorem Extent.failsBare_union {members : List Extent} (h : ∀ member ∈ members, member.FailsBare) :
    (Extent.union members).FailsBare := by
  have hsizes : StackToGo.FailsBare (greatest 0 (members.map (·.size))) :=
    failsBare_greatest (List.forall_mem_map.2 fun member hmember => (h member hmember).1) 0
  have haligns : StackToGo.FailsBare (greatest 1 (members.map (·.align))) :=
    failsBare_greatest (List.forall_mem_map.2 fun member hmember => (h member hmember).2) 1
  exact ⟨failsBare_bind hsizes fun size => failsBare_bind haligns fun align => failsBare_pure _,
    haligns⟩

/-- Extents fail bare at every depth. -/
theorem TypeTable.failsBare_extentWithin (table : TypeTable) (target : Target) (depth : Nat)
    (id : TypeId) : (table.extentWithin target depth id).FailsBare := by
  induction depth generalizing id with
  | zero => exact ⟨failsBare_error.2 (.breach _), failsBare_error.2 (.breach _)⟩
  | succ depth ih =>
    have hinner (ids : List TypeId) :
        ∀ e ∈ ids.map (table.extentWithin target depth), e.FailsBare :=
      List.forall_mem_map.2 fun id _ => ih id
    unfold extentWithin
    split
    case h_1 e he =>
      have hbare := failsBare_get table id e he
      exact ⟨failsBare_error.2 hbare, failsBare_error.2 hbare⟩
    case h_2 | h_3 | h_4 => exact ⟨failsBare_ok _, failsBare_ok _⟩
    case h_5 item items _ =>
      refine ⟨failsBare_bind (ih item).1 fun size => ?_, (ih item).2⟩
      simp
    case h_6 => exact Extent.failsBare_struct (hinner _)
    case h_7 => exact Extent.failsBare_union (hinner _)

@[simp] theorem TypeTable.failsBare_sizeOf (table : TypeTable) (target : Target) (id : TypeId) :
    FailsBare (table.sizeOf target id) := (failsBare_extentWithin table target _ id).1

/-! ## Go types -/

/-- Expansions fail bare at every depth. -/
theorem TypeText.failsBare_expansion (table : TypeTable) (target : Target) (depth : Nat)
    (opened : List TypeId) (id : TypeId) : FailsBare (expansion table target depth opened id) := by
  induction depth generalizing opened id with
  | zero => exact failsBare_throw.2 (.unsupported _ _)
  | succ depth ih =>
    have hinner := failsBare_mapM (ih (id :: opened))
    rw [expansion]
    refine failsBare_ite (failsBare_throw.2 (.unsupported _ _)) ?_
    unfold expandWith
    refine failsBare_bind (TypeTable.failsBare_get table id) fun ty => ?_
    split
    case h_1 => exact failsBare_pure _
    case h_2 pointee =>
      refine failsBare_ite (failsBare_pure _) (failsBare_bind (ih _ pointee) fun t => ?_)
      refine failsBare_bind (TypeTable.failsBare_kind table pointee) fun k => ?_
      exact failsBare_ite (failsBare_pure _) (failsBare_pure _)
    case h_3 item items => exact failsBare_bind (ih _ item) fun t => failsBare_pure _
    case h_4 fields => exact failsBare_bind (hinner fields) fun ts => failsBare_pure _
    case h_5 members =>
      refine failsBare_bind (hinner members) fun ts => ?_
      exact failsBare_bind (TypeTable.failsBare_sizeOf table target id) fun size =>
        failsBare_pure _
    case h_6 arguments results variadic =>
      refine failsBare_bind (hinner arguments) fun params => ?_
      split
      · exact failsBare_pure _
      · exact failsBare_bind (ih _ _) fun t => failsBare_pure _
      · exact failsBare_throw.2 (.unsupported _ _)

/-! ## Names and texts -/

/-- Looking up the bytes of an id fails bare. -/
@[simp] theorem Dictionary.failsBare_bytes (dict : Dictionary) (id : Nat) :
    FailsBare (dict.bytes id) := by
  unfold bytes
  split <;> simp

@[simp] theorem Dictionary.failsBare_nameBytes (dict : Dictionary) (id : NameId) :
    FailsBare (dict.nameBytes id) :=
  failsBare_bytes dict id.val

@[simp] theorem Dictionary.failsBare_stringBytes (dict : Dictionary) (id : StringId) :
    FailsBare (dict.stringBytes id) := failsBare_bytes dict id.val

/-- Spelling a name fails bare. -/
theorem Identifier.failsBare_encode (name : Bytes) (exported : Bool) (scope : Scope) :
    FailsBare (encode name exported scope) := by
  unfold encode
  refine failsBare_ite (failsBare_error.2 (.breach _)) ?_
  split <;> simp

/-- Identifiers fail bare, from the cache or not. -/
theorem Identifier.failsBare_identifier (dict : Dictionary) (key : Key) :
    Action.FailsBare (Cache.identifier dict key) := by
  unfold Cache.identifier
  refine Action.failsBare_bind Action.failsBare_get fun known => ?_
  split
  · exact Action.failsBare_pure _
  · refine Action.failsBare_bind (Action.failsBare_lift (by simp)) fun bytes => ?_
    refine Action.failsBare_bind (Action.failsBare_lift (failsBare_encode bytes _ _))
      fun text => ?_
    exact Action.failsBare_bind (Action.failsBare_modify _) fun _ => Action.failsBare_pure text

/-- Placing a string fails bare. -/
theorem StringPool.failsBare_offset (dict : Dictionary) (id : StringId) :
    Action.FailsBare (offset dict id) := by
  unfold offset
  refine Action.failsBare_bind Action.failsBare_get fun known => ?_
  split
  · exact Action.failsBare_pure _
  · refine Action.failsBare_bind Action.failsBare_get fun p => ?_
    refine Action.failsBare_bind (Action.failsBare_modify _) fun _ => ?_
    refine Action.failsBare_bind (Action.failsBare_lift (by simp)) fun bytes => ?_
    exact Action.failsBare_bind (Action.failsBare_modify _) fun _ => Action.failsBare_pure _

/-! ## Bodies -/

/-- A tree without a type is a bare error. -/
@[simp] theorem Tree.failsBare_valueType (t : Tree) : FailsBare t.valueType := by
  unfold valueType
  split <;> simp

/-- Collecting locals fails bare. -/
theorem Local.failsBare_collect (opened : List Nat) (next : Nat) (locals : List Local)
    (body : List Instruction) : FailsBare (collect opened next locals body) := by
  fun_induction collect with
  | case1 => exact failsBare_ok _
  | case2 | case4 | case5 | case7 => assumption
  | case3 | case6 => exact failsBare_error.2 (.breach _)

/-- A local that is not there is a bare error. -/
@[simp] theorem Frame.failsBare_getLocal (f : Frame) (index : Nat) :
    FailsBare (f.getLocal index) := by
  unfold getLocal
  split <;> simp

/-- The frame of a function fails bare. -/
@[simp] theorem Frame.failsBare_ofDefinition (table : TypeTable) (index : Nat)
    (definition : FunctionDef) : FailsBare (ofDefinition table index definition) := by
  unfold ofDefinition
  refine failsBare_bind (TypeTable.failsBare_get table _) fun ty => ?_
  split
  · exact failsBare_bind (Local.failsBare_collect _ _ _ _) fun locals => failsBare_pure _
  · simp

namespace Flow

namespace Builder

@[simp] theorem failsBare_expectBoundary (b : Builder) (position : Position) (what : String) :
    FailsBare (b.expectBoundary position what) := by simp [expectBoundary]

/-- Popping a value fails bare. -/
@[simp] theorem failsBare_popValue (b : Builder) (position : Position) :
    FailsBare (b.popValue position) := by
  unfold popValue
  refine failsBare_ite (failsBare_error.2 (.unsupported _ _)) ?_
  split <;> simp

/-- Popping values fails bare. -/
theorem failsBare_popValues (position : Position) (count : Nat) (later : List Tree) (b : Builder) :
    FailsBare (popValues position count later b) := by
  induction count generalizing later b with
  | zero => exact failsBare_ok _
  | succ count ih =>
    rw [popValues]
    exact failsBare_bind (failsBare_popValue b position) fun popped => ih _ _

/-- Popping arguments fails bare. -/
@[simp] theorem failsBare_popArguments (b : Builder) (count : Nat) (position : Position) :
    FailsBare (b.popArguments count position) := by
  unfold popArguments
  refine failsBare_bind (failsBare_popValues position count [] b) fun popped => ?_
  dsimp only
  split <;> simp

/-- The type of a result fails bare. -/
@[simp] theorem failsBare_resultType (table : TypeTable) (function : TypeId) :
    FailsBare (resultType table function) := by
  unfold resultType
  refine failsBare_bind (TypeTable.failsBare_get table function) fun ty => ?_
  split <;> simp

/-- Finishing a call fails bare. -/
@[simp] theorem failsBare_finishCall (b : Builder) (call : Shape) (result : Option TypeId)
    (position : Position) : FailsBare (b.finishCall call result position) := by
  unfold finishCall
  split
  · split <;> simp
  · simp

/-- Dropping a value fails bare. -/
@[simp] theorem failsBare_dropValue (b : Builder) (position : Position) :
    FailsBare (b.dropValue position) := by
  unfold dropValue
  split <;> simp

@[simp] theorem failsBare_addressedType (table : TypeTable) (pointer : TypeId) (address : Bool) :
    FailsBare (addressedType table pointer address) := by simp [addressedType]

@[simp] theorem failsBare_unary (b : Builder) (position : Position) (shape : Tree → Shape)
    (type : TypeId) :
    FailsBare (b.unary position shape type) := by simp [unary]

@[simp] theorem failsBare_binary (b : Builder) (position : Position) (shape : Tree → Tree → Shape)
    (type : TypeId) :
    FailsBare (b.binary position shape type) := by simp [binary]

@[simp] theorem failsBare_guard (b : Builder) (label : Label) (onZero : Bool)
    (position : Position) :
    FailsBare (b.guard label onZero position) := by simp [guard]

@[simp] theorem failsBare_branch (b : Builder) (target : Label) (onZero : Bool)
    (position : Position) :
    FailsBare (b.branch target onZero position) := by simp [branch]

/-- The end of a first arm fails bare. -/
@[simp] theorem failsBare_endArm (b : Builder) (label : Label) (position : Position) :
    FailsBare (b.endArm label position) := by
  unfold endArm
  refine failsBare_bind (failsBare_popValue b position) fun popped => ?_
  dsimp only
  split <;> simp

@[simp] theorem failsBare_plainLabel (b : Builder) (label : Label) (position : Position) :
    FailsBare (b.plainLabel label position) := by simp [plainLabel]

/-- The label that ends `&&` or `||` fails bare. -/
@[simp] theorem failsBare_logicalLabel (b : Builder) (label : Label) (isAnd : Bool)
    (position : Position) : FailsBare (b.logicalLabel label isAnd position) := by
  unfold logicalLabel
  refine failsBare_bind (failsBare_popValue b position) fun popped => ?_
  dsimp only
  split <;> simp

/-- The label that begins a second arm fails bare. -/
@[simp] theorem failsBare_elseLabel (b : Builder) (label : Label) (position : Position) :
    FailsBare (b.elseLabel label position) := by
  unfold elseLabel
  split <;> simp

/-- The label that ends `?:` fails bare. -/
@[simp] theorem failsBare_endLabel (b : Builder) (label : Label) (position : Position) :
    FailsBare (b.endLabel label position) := by
  unfold endLabel
  refine failsBare_bind (failsBare_popValue b position) fun popped => ?_
  dsimp only
  split <;> simp

/-- Every instruction fails bare. -/
theorem failsBare_step (table : TypeTable) (b : Builder) (instruction : Instruction) :
    FailsBare (b.step table instruction) := by
  obtain ⟨op, position⟩ := instruction
  cases op with
  | element type indexType address neg =>
    refine failsBare_bind (failsBare_popValue b position) fun index => ?_
    refine failsBare_bind (failsBare_popValue index.2 position) fun base => ?_
    exact failsBare_bind (failsBare_addressedType table type address) fun result =>
      failsBare_pure _
  | callPointer count type =>
    refine failsBare_bind (failsBare_popArguments b (count + 1) position) fun popped => ?_
    refine failsBare_bind (TypeTable.failsBare_element table type) fun function => ?_
    refine failsBare_bind (failsBare_resultType table function) fun result => ?_
    dsimp only
    split <;> simp
  | jump label inner => cases inner <;> simp [step]
  | jumpZero label inner => cases inner <;> simp [step]
  | jumpNonzero label inner => cases inner <;> simp [step]
  | label label role => cases role <;> simp [step]
  | _ => simp [step]

/-- Every run fails bare. -/
theorem failsBare_run (table : TypeTable) (b : Builder) (body : List Instruction) :
    FailsBare (b.run table body) := by
  induction body generalizing b with
  | nil => exact failsBare_ok b
  | cons instruction rest ih =>
    rw [run]
    exact failsBare_bind (failsBare_step table b instruction) fun b => ih b

end Builder

/-- Building nodes fails bare. -/
@[simp] theorem failsBare_build (table : TypeTable) (body : List Instruction) :
    FailsBare (build table body) := by
  refine failsBare_bind (Builder.failsBare_run table .start body) fun b => ?_
  unfold Builder.finish
  simp

end Flow

end StackToGo
