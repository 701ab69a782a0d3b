import StackToGo.Proofs.Emit.Buffers
import StackToGo.Proofs.Emit.Calls
import StackToGo.Proofs.Emit.Parameters

/-!
# What is written for the objects of a program

Every object gets its own parts of the file, in the order of the objects: a stub none, any other
function one Go function, a variable its declaration and, if its initial value is not zero, what
sets it (`Written`). All that the parts call was asked for while they were written, and all that
was asked for is called (`File`).
-/

namespace StackToGo

/-! ## Places in string literals -/

namespace Value

mutual
/-- The places in string literals that an initial value points to. -/
def stringPlaces : Value → List (StringId × Int)
  | .string id offset => [(id, offset.toInt)]
  | .composite entries => entryPlaces entries
  | _ => []

/-- The places that the entries of an aggregate point to. -/
def entryPlaces : List (Option Value) → List (StringId × Int)
  | [] => []
  | none :: rest => entryPlaces rest
  | some v :: rest => stringPlaces v ++ entryPlaces rest
end

end Value

/-- The places in string literals that the initial values of an object, or of the locals of a
function, point to. -/
def Object.stringPlaces : Object → List (StringId × Int)
  | .data d => d.value.toList.flatMap Value.stringPlaces
  | .function f => f.body.flatMap fun i => match i.op with
    | .declare d => d.value.toList.flatMap Value.stringPlaces
    | _ => []

/-- The place in a string literal is the start of it, or one that an initial value of the program
points to. -/
def Program.PointsTo (p : Program) (id : StringId) (offset : Int) : Prop :=
  offset = 0 ∨ (id, offset) ∈ p.objects.flatMap Object.stringPlaces

namespace Emit

open StackToGo.Go
open StackToGo.TypeText (Settled)

variable {env : Env} {s s' : State} {P : StringId → Int → Prop}

/-! ## Initial values -/

/-- An integer as an initial value makes no calls. -/
theorem wraps_scalarValue (type : TypeId) (k : Kind) (value : Int) (position : Position) :
    Wraps [] (scalarValue type k value position) Expr.calls := by
  unfold scalarValue
  split
  · exact wraps_integerPointer type value position
  · exact wraps_pure (by simp)
  · exact wraps_pure (by simp)
  · exact wraps_pure (by simp)
  · exact wraps_pure (by simp)
  · exact wraps_integer type _ value position

/-- A float as an initial value makes no calls. -/
theorem wraps_floatValue (type : TypeId) (k : Kind) (single : UInt32) (double : UInt64)
    (position : Position) : Wraps [] (floatValue type k single double position) Expr.calls := by
  unfold floatValue
  split
  · exact wraps_pure (by simp)
  · exact wraps_pure (by simp)
  · exact wraps_pure (by simp)
  · exact wraps_pure (by simp)
  · refine wraps_ite (wraps_integer type _ _ position) ?_
    exact wraps_skip (quiet_goType type) fun t => wraps_unsupported _ _

/-- An address as an initial value makes no calls. -/
theorem wraps_addressValue (type : TypeId) (index : Nat) (name : NameId) (exported : Bool)
    (offset : Int) (position : Position) :
    Wraps [] (addressValue type index name exported offset position) Expr.calls := by
  unfold addressValue
  refine wraps_skip (quiet_object index) fun o =>
    wraps_bind (wraps_objectAs index name exported) fun x => ?_
  refine wraps_skip quiet_types fun table => ?_
  have hrefuse (cause : Go.Ty → Unsupported) :
      Wraps x.calls (do unsupported position (cause (← goType type)) : Emit Expr) Expr.calls :=
    wraps_skip (quiet_goType type) fun t => wraps_unsupported _ _
  split
  · refine wraps_ite (hrefuse _) (wraps_skip (quiet_lift _) fun isFunction => ?_)
    exact wraps_ite (wraps_pure rfl) (hrefuse _)
  · refine wraps_ite (wraps_pure (by simp)) (wraps_skip (quiet_lift _) fun isData =>
      wraps_ite ?_ (hrefuse _))
    refine wraps_skip (quiet_goType type) fun t => wraps_ite (wraps_pure (by simp)) ?_
    exact wraps_ite (wraps_pure (by simp)) (wraps_pure (by simp))

/-- Items that are integers make no calls. -/
theorem callsAll_next_int {α : Type} (list : List α) (n : α → Int) :
    Element.callsAll (list.map fun a => .next (.int (n a))) = [] := by
  induction list with
  | nil => rfl
  | cons a rest ih => simpa using ih

/-- The items for the bytes of a string make no calls. -/
theorem callsAll_stringItems (k : Kind) (bytes : Bytes) :
    Element.callsAll (stringItems k bytes) = [] := by
  have hitems : stringItems k bytes = (bytes.filterMap fun b => k.wrap? b.toNat).map fun v =>
      .next (.int v) := by
    rw [stringItems, List.map_filterMap]
  rw [hitems]
  exact callsAll_next_int _ _

/-- The literal of a union makes no calls. -/
theorem wraps_unionLiteral (type : TypeId) (t : Go.Ty) (members : List TypeId)
    (entries : List (Option Value)) (position : Position) :
    Wraps [] (unionLiteral type t members entries position) Expr.calls := by
  unfold unionLiteral
  split
  · exact wraps_pure (by simp)
  · split
    · exact wraps_breach _
    · refine wraps_skip (quiet_sizeOf type) fun size =>
        wraps_skip (quiet_unionValue _ _ _ _) fun bytes => ?_
      exact wraps_pure (by simp [callsAll_next_int])

/-- A string as an initial value accesses an allowed place. -/
theorem supplies_stringValue {id : StringId} {offset : Int} (hP : P id offset) (type : TypeId)
    (position : Position) : Supplies P [] (stringValue type id offset position) Expr.calls := by
  unfold stringValue
  refine supplies_skip quiet_types fun table => supplies_skip (quiet_lift _) fun t => ?_
  split
  · refine supplies_skip (quiet_lift _) fun k =>
      supplies_ite ?_ (supplies_stringPointer hP type position)
    refine supplies_skip quiet_read fun env => supplies_skip (quiet_lift _) fun bytes => ?_
    refine supplies_ite (supplies_unsupported _ _)
      (supplies_skip (quiet_goType type) fun t => supplies_pure ?_)
    rw [Expr.calls_composite, callsAll_stringItems]
  · exact supplies_stringPointer hP type position

mutual
/-- An initial value accesses the places that it points to. -/
theorem supplies_value (type : TypeId) (position : Position) :
    ∀ v : Value, (∀ r ∈ v.stringPlaces, P r.1 r.2) →
    Supplies P [] (value type position v) Expr.calls
  | .int32 v, _ => by
    rw [value]
    exact supplies_skip (quiet_kind type) fun k => (wraps_scalarValue type k _ position).supplies
  | .int64 v, _ => by
    rw [value]
    exact supplies_skip (quiet_kind type) fun k => (wraps_scalarValue type k _ position).supplies
  | .float32 bits, _ => by
    rw [value]
    exact supplies_skip (quiet_kind type) fun k => (wraps_floatValue type k _ _ position).supplies
  | .float64 bits, _ => by
    rw [value]
    exact supplies_skip (quiet_kind type) fun k => (wraps_floatValue type k _ _ position).supplies
  | .complex64 re im, _ => by
    rw [value]
    refine supplies_skip (quiet_kind type) fun k => supplies_ite (supplies_pure (by simp)) ?_
    exact supplies_skip (quiet_goType type) fun t => supplies_unsupported _ _
  | .complex128 re im, _ => by
    rw [value]
    refine supplies_skip (quiet_kind type) fun k => supplies_ite (supplies_pure (by simp)) ?_
    exact supplies_skip (quiet_goType type) fun t => supplies_unsupported _ _
  | .string id offset, hv => by
    rw [value]
    exact supplies_stringValue (hv (id, offset.toInt) (by simp [Value.stringPlaces])) type position
  | .address index name linkage offset, _ => by
    rw [value]
    exact supplies_skip (quiet_kind type) fun k =>
      (wraps_addressValue type index name _ _ position).supplies
  | .composite entries, hv => by
    have hentries : ∀ r ∈ Value.entryPlaces entries, P r.1 r.2 :=
      fun r hr => hv r (by simpa [Value.stringPlaces] using hr)
    rw [value]
    refine supplies_skip (quiet_goType type) fun t => supplies_skip quiet_types fun table => ?_
    refine supplies_skip (quiet_lift _) fun aggregate => ?_
    split
    · refine supplies_ite (supplies_breach _) ?_
      exact supplies_bind (supplies_arrayElements _ position 0 entries hentries) fun es =>
        supplies_pure (by simp)
    · refine supplies_ite (supplies_breach _) ?_
      exact supplies_bind (supplies_structElements position 0 _ entries hentries) fun es =>
        supplies_pure (by simp)
    · exact (wraps_unionLiteral type t _ entries position).supplies
    · exact supplies_unsupported _ _

/-- The items of an array access the places that they point to. -/
theorem supplies_arrayElements (item : TypeId) (position : Position) (place : Nat) :
    ∀ entries : List (Option Value),
      (∀ r ∈ Value.entryPlaces entries, P r.1 r.2) →
      Supplies P [] (arrayElements item position place entries) Element.callsAll
  | [], _ => by
    rw [arrayElements]
    exact supplies_pure rfl
  | none :: rest, h => by
    rw [arrayElements]
    exact supplies_arrayElements item position (place + 1) rest fun r hr =>
      h r (by simpa [Value.entryPlaces] using hr)
  | some v :: rest, h => by
    have hrest := supplies_arrayElements item position (place + 1) rest fun r hr =>
      h r (by simp [Value.entryPlaces, hr])
    rw [arrayElements]
    refine supplies_ite hrest ?_
    refine supplies_bind (supplies_value item position v fun r hr =>
      h r (by simp [Value.entryPlaces, hr])) fun x => ?_
    exact supplies_bind hrest fun es => supplies_pure (by simp)

/-- The fields of a struct access the places that they point to. -/
theorem supplies_structElements (position : Position) (place : Nat) (fields : List TypeId) :
    ∀ entries : List (Option Value), (∀ r ∈ Value.entryPlaces entries, P r.1 r.2) →
    Supplies P [] (structElements position place fields entries) Element.callsAll
  | [], _ => by
    rw [structElements]
    exact supplies_pure rfl
  | none :: rest, h => by
    rw [structElements]
    exact supplies_structElements position (place + 1) fields.tail rest
      fun r hr => h r (by simpa [Value.entryPlaces] using hr)
  | some v :: rest, h => by
    cases fields with
    | nil =>
      rw [structElements]
      exact supplies_pure rfl
    | cons field fields =>
      have hrest := supplies_structElements position (place + 1) fields rest
        fun r hr => h r (by simp [Value.entryPlaces, hr])
      rw [structElements]
      refine supplies_ite hrest ?_
      refine supplies_bind (supplies_value field position v fun r hr =>
        h r (by simp [Value.entryPlaces, hr])) fun x => ?_
      exact supplies_bind hrest fun es => supplies_pure (by simp)
end

/-- The copy of a string into a buffer accesses an allowed place. -/
theorem supplies_copyString {id : StringId} {offset : Int} (hP : P id offset) (name : String)
    (k : Kind) (items : Nat) (position : Position) :
    Supplies P [] (copyString name k items id offset position) Stmt.calls := by
  have hstart : (bufferStart name k).calls = [] := by
    unfold bufferStart
    split <;> simp
  unfold copyString
  refine supplies_ite (supplies_unsupported _ _)
    (supplies_bind (supplies_stringOffset hP) fun start => ?_)
  exact supplies_skip quiet_read fun env => supplies_pure (by simp [hstart])

/-- Setting a variable to its initial value accesses the places that this points to. -/
theorem supplies_initializer {v : Value} (hv : ∀ r ∈ v.stringPlaces, P r.1 r.2) (name : String)
    (type : TypeId) (position : Position) :
    Supplies P [] (initializer name type v position) Stmt.calls := by
  unfold initializer
  refine supplies_skip quiet_types fun table => supplies_skip (quiet_lift _) fun t => ?_
  have hassign {v : Value} (hv : ∀ r ∈ v.stringPlaces, P r.1 r.2) :
      Supplies P [] (do return Stmt.assign name (← value type position v)) Stmt.calls :=
    supplies_bind (supplies_value type position v hv) fun x => supplies_pure (by simp)
  split
  · rename_i id offset
    refine supplies_skip (quiet_lift _) fun k => supplies_ite ?_ (hassign hv)
    exact supplies_copyString (hv (id, offset.toInt) (by simp [Value.stringPlaces]))
      name k _ position
  · exact hassign hv

/-! ## Blocks -/

/-- The initial values of the locals point to places that `P` allows. -/
def LocalsPointTo (P : StringId → Int → Prop) (f : Frame) : Prop :=
  ∀ l ∈ f.locals, ∀ v, l.declaration.value = some v → ∀ r ∈ v.stringPlaces, P r.1 r.2

section

variable {f : Frame} (hP : ∀ id, P id 0)
include hP

/-- The statements of a node supply their calls. -/
theorem supplies_nodeStatements (hf : LocalsPointTo P f) (list : List Flow.Statement) :
    Supplies P [] (nodeStatements f list) Stmt.callsAll := by
  induction list with
  | nil =>
    rw [nodeStatements]
    exact supplies_pure rfl
  | cons first rest ih =>
    cases first with
    | eval t =>
      rw [nodeStatements]
      refine supplies_bind (supplied hP f t).statement fun first => ?_
      exact supplies_bind ih fun more => supplies_pure (by simp)
    | init index position =>
      rw [nodeStatements]
      refine supplies_lift fun l hl => ?_
      have hmem : l ∈ f.locals := by
        rw [Frame.getLocal] at hl
        split at hl
        · rename_i l' hget
          cases hl
          exact List.mem_of_getElem? hget
        · cases hl
      split
      · exact ih
      · rename_i v hv
        refine supplies_skip (quiet_localName l) fun name => ?_
        refine supplies_bind (supplies_initializer (hf l hmem v hv) name _ position)
          fun first => ?_
        exact supplies_bind ih fun more => supplies_pure (by simp)

omit hP in
/-- The cases of a switch make no calls. -/
theorem wraps_caseTargets (cases : List (Int × Label)) :
    Wraps [] (caseTargets cases) fun targets => targets.flatMap (·.1.calls) := by
  induction cases with
  | nil =>
    rw [caseTargets]
    exact wraps_pure rfl
  | cons first rest ih =>
    rw [caseTargets]
    refine wraps_skip (quiet_labelText _) fun label => wraps_bind ih fun more => wraps_pure ?_
    simp

/-- The exit of a node supplies its calls. -/
theorem supplies_nodeExit (exit : Flow.Exit) : Supplies P [] (nodeExit f exit) Exit.calls := by
  cases exit with
  | fallThrough => exact supplies_pure rfl
  | jump target => exact supplies_skip (quiet_labelText target) fun label => supplies_pure rfl
  | branch cond target onZero =>
    refine supplies_bind (supplies_truthOf ((supplied hP f cond).expr .value) cond onZero) fun x =>
      ?_
    exact supplies_skip (quiet_labelText target) fun label => supplies_pure (by simp [Exit.calls])
  | switch v type cases default =>
    refine supplies_skip (quiet_kind type) fun k =>
      supplies_skip (quiet_caseKeys k _ cases) fun keys => ?_
    refine supplies_bind ((supplied hP f v).expr .value) fun x => ?_
    refine supplies_wraps (wraps_caseTargets _) fun targets htargets => ?_
    exact supplies_skip (quiet_labelText default) fun label =>
      supplies_pure (by simp [Exit.calls, htargets])
  | ret => exact supplies_pure rfl
  | abort => exact supplies_pure rfl

/-- The block of a node supplies its calls. -/
theorem supplies_block (hf : LocalsPointTo P f) (node : Flow.Node) :
    Supplies P [] (block f node) Block.calls := by
  unfold block
  have hrest (label : Option String) : Supplies P [] (do
      let statements ← nodeStatements f node.statements
      return (⟨label, statements, ← nodeExit f node.exit⟩ : Block Stmt Expr)) Block.calls := by
    refine supplies_bind (supplies_nodeStatements hP hf node.statements) fun statements => ?_
    exact supplies_bind (supplies_nodeExit hP node.exit) fun exit =>
      supplies_pure (by simp [Block.calls])
  dsimp only
  split
  · exact supplies_skip (quiet_map _ (quiet_labelText _)) hrest
  · exact supplies_skip (quiet_pure _) hrest

/-- The blocks of nodes supply their calls. -/
theorem supplies_blocks (hf : LocalsPointTo P f) (nodes : List Flow.Node) :
    Supplies P [] (nodes.mapM (block f)) fun blocks => blocks.flatMap Block.calls := by
  induction nodes with
  | nil => exact supplies_pure rfl
  | cons node rest ih =>
    rw [List.mapM_cons]
    refine supplies_bind (supplies_block hP hf node) fun b =>
      supplies_bind ih fun more => supplies_pure ?_
    simp

end

/-! ## Objects -/

/-- The locals of the frame are those of the body. -/
theorem Frame.ofBody_of_ofDefinition {types : TypeTable} {index : Nat} {definition : FunctionDef}
    {f : Frame} (h : Frame.ofDefinition types index definition = .ok f) :
    Local.ofBody definition.body = .ok f.locals := by
  obtain ⟨t, -, h⟩ := Flow.bind_eq_ok h
  split at h
  · obtain ⟨locals, hlocals, h⟩ := Flow.bind_eq_ok h
    cases h
    exact hlocals
  · cases h

/-- The locals of a function point to the places that the function does. -/
theorem localsPointTo_of_ofDefinition {types : TypeTable} {index : Nat} {definition : FunctionDef}
    {f : Frame} (h : Frame.ofDefinition types index definition = .ok f)
    (hplaces : ∀ r ∈ (Object.function definition).stringPlaces, P r.1 r.2) :
    LocalsPointTo P f := by
  intro l hl v hv r hr
  obtain ⟨front, rest, hbody⟩ := Local.exists_declares (Frame.ofBody_of_ofDefinition h) hl
  refine hplaces r ?_
  rw [Object.stringPlaces, hbody, List.flatMap_append, List.flatMap_cons]
  simp [hv, hr]

/-- The header has the given name. -/
theorem name_of_header {f : Frame} {name : String} {head : Go.Header}
    (h : Yields env (header f name) s head s') :
    head.name = name := by
  simp only [header, yields_bind] at h
  obtain ⟨result, s₁, -, isEntry, s₂, -, h⟩ := h
  split at h
  · split at h <;> simp only [yields_bind, yields_pure] at h
    · obtain ⟨_, _, -, rfl, -⟩ := h
      rfl
    · obtain ⟨_, _, -, rfl, -⟩ := h
      rfl
  · simp only [yields_bind, yields_pure] at h
    obtain ⟨_, _, -, rfl, -⟩ := h
    rfl

/-- The parts of the file that are written for the object at a place. -/
inductive Written (env : Env) (index : Nat) : Object → List (Item Stmt Expr) → Prop
  | stub {definition : FunctionDef} (h : definition.isStub) :
      Written env index (.function definition) []
  | function {definition : FunctionDef} {f : Frame} {nodes : List Flow.Node} {head : Go.Header}
      {g : Go.Function Stmt Expr} (hstub : ¬definition.isStub)
      (hwrites : Writes env index definition f nodes head g)
      (hname : Identifier.spelling env.dict ⟨definition.name, definition.linkage.isExported,
        none⟩ = .ok g.name)
      (hhead : head.name = g.name) :
      Written env index (.function definition) [.function g]
  | data {definition : DataDef} {name : String}
      (hname : Identifier.spelling env.dict ⟨definition.name, definition.linkage.isExported,
        none⟩ = .ok name)
      (t : Go.Ty) (comment : Option String) (initial : Option Stmt) :
      Written env index (.data definition) (.text (declarationText name t comment) ::
        initial.toList.map .init)

section

variable (hP : ∀ id, P id 0) (hs : Reached env s) {index : Nat}
include hP hs

/-- The definition of a function adds what is written for it, and supplies the calls of it. -/
theorem exists_written_function {definition : FunctionDef}
    (hobject : env.program.objects[index]? = some (.function definition))
    (hplaces : ∀ r ∈ (Object.function definition).stringPlaces, P r.1 r.2)
    (h : Yields env (functionDefinition index definition) s () s') :
    ∃ items, s'.items = s.items ++ items ∧ Written env index (.function definition) items ∧
      Supply P s s' (items.flatMap Item.calls) := by
  by_cases hstub : definition.isStub
  · rw [functionDefinition, yields_bind] at h
    obtain ⟨package, s₁, hpackage, h⟩ := h
    have hsome : package.isSome = true := by
      rw [hs.package?_isSome hpackage, Env.isStub, hobject]
      exact hstub
    rw [if_pos hsome] at h
    have haccount := ((quiet_note _).yields h).trans ((quiet_package? index).yields hpackage)
    exact ⟨[], (congrArg Prod.fst haccount).trans (List.append_nil _).symm, .stub hstub,
      (Supply.refl s).of_account haccount⟩
  · obtain ⟨f, nodes, name, head, comment, locals, blocks, s₁, s₂, s₃, s₄, s₅, hf, hnodes, hs₁,
      hname, hhead, hlocals, hblocks, rfl⟩ :=
        exists_yields_of_functionDefinition hs h hobject hstub
    have hquiet₁ := quiet_bind (quiet_package? index) fun _ =>
      quiet_note (.nodesBuilt nodes.length)
    have hquiet₄ := quiet_bind (quiet_positionComment definition.position) fun comment =>
      quiet_map (fun lines => (comment, lines)) (quiet_localLines f.locals)
    have hreached₁ := hs.evolves (hquiet₁.steady.evolves hs₁)
    have hreached₂ := hreached₁.evolves ((steady_identifier _ _ _).evolves hname)
    have hreached₄ :=
      (hreached₂.evolves ((steady_header f name).evolves hhead)).evolves
        (hquiet₄.steady.evolves hlocals)
    -- Name, header and locals ask for nothing, so the requests of the function are those of its
    -- blocks.
    have haccount : s₄.account = s.account :=
      calc s₄.account = s₃.account := hquiet₄.yields hlocals
        _ = s₂.account := (quiet_header f name).yields hhead
        _ = s₁.account := (quiet_identifier _ _ _).yields hname
        _ = s.account := hquiet₁.yields hs₁
    obtain ⟨hitems, -, hsupply⟩ :=
      supplies_blocks hP (localsPointTo_of_ofDefinition hf hplaces) nodes env s s₄ blocks s₅
      hreached₄.sound ((Supply.refl s).of_account haccount) hblocks
    refine ⟨[.function ⟨name, head.text, comment, locals, blocks⟩], ?_, ?_, ?_⟩
    · show s₅.items ++ _ = s.items ++ _
      rw [hitems, show s₄.items = s.items from congrArg Prod.fst haccount]
    · exact .function hstub ⟨hf, hnodes, ⟨s₂, s₃, hreached₂, hhead⟩, rfl,
        ⟨s₄, s₅, hreached₄, hblocks⟩⟩ (hreached₁.yields_identifier.1 ⟨s₂, hname⟩)
          (name_of_header hhead)
    · rw [List.flatMap_singleton, Item.calls]
      exact hsupply.of_eq rfl rfl

omit hP in
/-- The definition of a variable adds what is written for it, and supplies the calls of it. -/
theorem exists_written_data {definition : DataDef}
    (hplaces : ∀ r ∈ (Object.data definition).stringPlaces, P r.1 r.2)
    (h : Yields env (dataDefinition definition) s () s') :
    ∃ items, s'.items = s.items ++ items ∧ Written env index (.data definition) items ∧
      Supply P s s' (items.flatMap Item.calls) := by
  simp only [dataDefinition, yields_bind] at h
  obtain ⟨name, s₁, hname, t, s₂, ht, comment, s₃, hcomment, ⟨⟩, s₄, hadd, h⟩ := h
  have hdeclared := yields_modify.1 hadd
  have hspelled := hs.yields_identifier.1 ⟨s₁, hname⟩
  have haccount : s₃.account = s.account :=
    calc s₃.account = s₂.account := (quiet_positionComment _).yields hcomment
      _ = s₁.account := (quiet_goType _).yields ht
      _ = s.account := (quiet_identifier _ _ _).yields hname
  have hsupply : Supply P s s₄ [] := by
    rw [← hdeclared]
    exact ((Supply.refl s).of_account haccount).of_eq rfl rfl
  have hitems : s₄.items = s.items ++ [.text (declarationText name t comment)] := by
    rw [← hdeclared]
    exact congrArg (·.1 ++ _) haccount
  have hreached : Reached env s₄ :=
    (((hs.evolves ((steady_identifier _ _ _).evolves hname)).evolves
      ((steady_goType _).evolves ht)).evolves
        ((steady_positionComment _).evolves hcomment)).evolves ((steady_addItem _).evolves hadd)
  have hzero (heq : s' = s₄) : ∃ items, s'.items = s.items ++ items ∧
      Written env index (.data definition) items ∧
      Supply P s s' (items.flatMap Item.calls) := by
    rw [heq]
    exact ⟨_, hitems, .data hspelled t comment none, hsupply⟩
  split at h
  · exact hzero (yields_pure.1 h).2.symm
  · rename_i v hv
    split at h
    · exact hzero (yields_pure.1 h).2.symm
    · obtain ⟨statement, s₅, hstatement, h⟩ := yields_bind.1 h
      rw [addItem, yields_modify] at h
      have hinitial : ∀ r ∈ v.stringPlaces, P r.1 r.2 :=
        fun r hr => hplaces r (by simp [Object.stringPlaces, hv, hr])
      obtain ⟨hitems₅, -, hsupply₅⟩ :=
        supplies_initializer hinitial name definition.type definition.position env s₄ s₄
        statement s₅ hreached.sound (.refl s₄) hstatement
      rw [← h]
      refine ⟨[.text (declarationText name t comment), .init statement], ?_,
        .data hspelled t comment (some statement), ?_⟩
      · show s₅.items ++ _ = _
        rw [hitems₅, hitems, List.append_assoc]
        rfl
      · rw [List.flatMap_cons, List.flatMap_singleton, Item.calls, Item.calls]
        exact (hsupply.trans hsupply₅).of_eq rfl rfl

/-- Objects are written one after the other. -/
theorem exists_written_of_objectDefinitions {objects : List Object}
    (hobjects : ∀ place o, objects[place]? = some o → env.program.objects[index + place]? = some o)
    (hplaces : ∀ o ∈ objects, ∀ r ∈ o.stringPlaces, P r.1 r.2)
    (h : Yields env (objectDefinitions index objects) s () s') :
    ∃ parts : List (List (Item Stmt Expr)), s'.items = s.items ++ parts.flatten ∧
      List.Forall₂ (fun o part => Written env o.2 o.1 part) (objects.zipIdx index) parts ∧
      Supply P s s' (parts.flatten.flatMap Item.calls) := by
  induction objects generalizing index s with
  | nil =>
    obtain ⟨-, rfl⟩ := yields_pure.1 h
    exact ⟨[], (List.append_nil _).symm, .nil, .refl s⟩
  | cons o rest ih =>
    rw [objectDefinitions, yields_bind] at h
    obtain ⟨⟨⟩, s₁, hfirst, hrest⟩ := h
    have hs₁ := hs.evolves ((steady_objectDefinition index o).evolves hfirst)
    obtain ⟨s₂, hnote, hwrite⟩ := exists_yields_of_objectDefinition hfirst
    have hs₂ := hs.evolves ((steady_note _).evolves hnote)
    have haccount := (quiet_note _).yields hnote
    have ho := hobjects 0 o rfl
    have hplaces₁ := hplaces o List.mem_cons_self
    obtain ⟨items, hitems, hwritten, hsupply⟩ :
        ∃ items, s₁.items = s₂.items ++ items ∧ Written env index o items ∧
        Supply P s₂ s₁ (items.flatMap Item.calls) := by
      cases o with
      | function definition => exact exists_written_function hP hs₂ ho hplaces₁ hwrite
      | data definition => exact exists_written_data hs₂ hplaces₁ hwrite
    -- The rest of the list begins one place further on.
    obtain ⟨parts, hparts, hforall, hsupply'⟩ := ih hs₁
      (fun place o' ho' => by rw [Nat.add_right_comm]; exact hobjects (place + 1) o' ho')
      (fun o' ho' => hplaces o' (List.mem_cons_of_mem _ ho')) hrest
    refine ⟨items :: parts, ?_, .cons hwritten hforall, ?_⟩
    · rw [hparts, hitems, show s₂.items = s.items from
        congrArg Prod.fst haccount, List.flatten_cons, List.append_assoc]
    · have hbefore : Supply P s s₂ [] := (Supply.refl s).of_account haccount
      simpa using (hbefore.trans hsupply).trans hsupply'

end

/-! ## Files -/

/-- The parts of a generated file, and the state in which emission left it: with the parts of the
objects as they were written, and all that was asked for. -/
def fileParts (env : Env) : Except Error (List (Item Stmt Expr) × State) :=
  let (result, s) := (fileItems env).perform (.start env.target)
  result.bind fun items => (simplifyItems .empty items).map fun cleaned => (cleaned.2, s)

/-- What is computed from the parts and the state is true of them. -/
theorem eq_of_fileParts {β : Type} {g : List (Item Stmt Expr) × State → β} {b : β}
    {out : List (Item Stmt Expr)} (h : (fileParts env).toOption.map g = some b)
    (hparts : fileParts env = .ok (out, s)) : g (out, s) = b := by
  rw [hparts] at h
  exact Option.some.inj h

/-- A file without errors: the state that emission ends with, the parts that each object got, the
texts of routines, and all parts of the file after clean-up. -/
structure File (env : Env) (s : State) (parts : List (List (Item Stmt Expr)))
    (routines : List String) (out : List (Item Stmt Expr)) : Prop where
  reached : Reached env s
  written : List.Forall₂ (fun o part => Written env o.2 o.1 part) env.program.objects.zipIdx parts
  items_eq : s.items = parts.flatten
  supply : Supply env.program.PointsTo (.start env.target) s (parts.flatten.flatMap Item.calls)
  routines_given : ∃ m, Settled env.program.types env.target m ∧
    ((Routine.texts env.program.types env.target s.needs).perform m).1 = .ok routines
  cleaned : List.Forall₂ Cleaned
    (parts.flatten ++ (Routine.boolToInt :: routines ++ s.strings.declarations).map .text) out

/-- The code of the file calls nothing that is not called in the parts of the objects. -/
theorem File.calls_subset {parts : List (List (Item Stmt Expr))} {routines : List String}
    {out : List (Item Stmt Expr)} (h : File env s parts routines out) :
    out.flatMap Item.calls ⊆ parts.flatten.flatMap Item.calls := by
  have htexts (texts : List String) : (texts.map Item.text).flatMap Item.calls = [] := by
    rw [List.flatMap_map, List.flatMap_eq_nil_iff]
    exact fun _ _ => rfl
  have hcalls := flatMap_calls_subset h.cleaned
  rwa [List.flatMap_append, htexts, List.append_nil] at hcalls

/-- The texts of routines are those of what was asked for, and only Go types are looked up for
them. -/
theorem routineTexts_eq_ok {routines : List String} (h : Yields env routineTexts s routines s') :
    ((Routine.texts env.program.types env.target s.needs).perform s.typeText).1 = .ok routines ∧
      s'.account = s.account := by
  have hresult : ((routineTexts env).perform s).1 = .ok routines := congrArg Prod.fst h
  have hstate : ((routineTexts env).perform s).2 = s' := congrArg Prod.snd h
  rw [← hstate]
  exact ⟨hresult, rfl⟩

/-- The parts of a file before clean-up, and what clean-up leaves, are a file. -/
theorem exists_file_of_fileItems {items out : List (Item Stmt Expr)} {report : Report}
    (h : Yields env fileItems (.start env.target) items s)
    (hclean : simplifyItems .empty items = .ok (report, out)) :
    ∃ parts routines, File env s parts routines out := by
  have hreached : Reached env s := steady_fileItems.evolves h
  simp only [fileItems, yields_bind, yields_read, yields_get, yields_pure] at h
  obtain ⟨_, s₀, ⟨rfl, rfl⟩, ⟨⟩, s₁, hobjects, routines, s₂, hroutines, _, _, ⟨rfl, rfl⟩, ⟨⟩, s₃,
      hnote, rfl, rfl⟩ := h
  have hpoints : ∀ o ∈ env.program.objects, ∀ r ∈ o.stringPlaces, env.program.PointsTo r.1 r.2 :=
    fun o ho r hr => .inr (List.mem_flatMap.2 ⟨o, ho, hr⟩)
  obtain ⟨parts, hparts, hwritten, hsupply⟩ :=
    exists_written_of_objectDefinitions (P := env.program.PointsTo)
    (fun _ => .inl rfl) (.refl _) (fun place o ho => by rwa [Nat.zero_add]) hpoints hobjects
  have hreached₁ : Reached env s₁ := (steady_objectDefinitions 0 _).evolves hobjects
  obtain ⟨htexts, haccount₂⟩ := routineTexts_eq_ok hroutines
  have haccount₃ : s₃.account = s₂.account := (quiet_note _).yields hnote
  have haccount : s₃.account = s₁.account := haccount₃.trans haccount₂
  have hitems : s₁.items = parts.flatten := hparts
  have hcleaned := forall₂_cleaned hclean
  rw [show s₂.items = parts.flatten from (congrArg (·.1) haccount₂).trans hitems,
    show s₂.strings = s₃.strings from (congrArg (·.2.2) haccount₃).symm] at hcleaned
  refine ⟨parts, routines, hreached, hwritten, (congrArg (·.1) haccount).trans hitems,
    hsupply.of_account haccount, ?_, hcleaned⟩
  rw [show s₃.needs = s₁.needs from congrArg (·.2.1) haccount]
  exact ⟨s₁.typeText, hreached₁.settled, htexts⟩

/-- Every text that is generated is the text of such a file. -/
theorem exists_file_of_generate {text : String} (h : (generate env).answer = .text text) :
    ∃ s parts routines out, File env s parts routines out ∧ fileParts env = .ok (out, s) ∧
    text = sourceText out := by
  obtain ⟨s', h⟩ := yields_of_generate h
  simp only [fileText, yields_bind, yields_pure, yields_lift] at h
  obtain ⟨items, s, hitems, ⟨report, out⟩, _, ⟨hclean, rfl⟩, ⟨⟩, s₂, hnote, rfl, rfl⟩ := h
  obtain ⟨parts, routines, hfile⟩ := exists_file_of_fileItems hitems hclean
  refine ⟨s, parts, routines, out, hfile, ?_, rfl⟩
  have hrun : (fileItems env).perform (.start env.target) = (.ok items, s) := hitems
  rw [fileParts, hrun]
  show (simplifyItems .empty items).map _ = _
  rw [hclean]
  rfl

end Emit

end StackToGo
