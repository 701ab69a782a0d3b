import StackToGo.Emit.Value
import StackToGo.Flow.Builder
import StackToGo.Go.Header

/-!
# Definitions

Go functions and variables for the objects of a program. A function declares all its locals at the
top, since jumps may not skip declarations in Go; each is used once, since Go refuses unused locals
too.
-/

namespace StackToGo.Emit

/-- A declaration with the position that follows it. -/
def declarationText (name : String) (t : Go.Ty) (position : Option String) : String :=
  let text := "var " ++ name ++ " " ++ t.text
  match position with
  | some place => text ++ " // " ++ place
  | none => text

/-- The result of a Go function; at most one is covered. -/
def resultOf (f : Frame) : Emit (Option Go.Ty) :=
  match f.results with
  | [] => return none
  | [result] => return some (← goType result)
  | results => unsupported f.definition.position (.functionResults results.length)

/-- The parameters of a function, given the names of its arguments. One without a name is `_`. -/
def parameters (names : List NameId) : List TypeId → Emit (List Go.Param)
  | [] => return []
  | type :: rest => do
    let t ← goType type
    let name ← match names.head? with
      | some name => if name.isNone then pure "_" else identifier name false none
      | none => pure "_"
    return ⟨some name, t⟩ :: (← parameters names.tail rest)

/-- The parameters of the function that a program starts with: the number of arguments, and the
arguments. -/
def entryParameters : List Go.Param :=
  [⟨none, .scalar .int32⟩, ⟨none, .pointer (.pointer (.scalar .int8))⟩]

/-- The header of a function. The function that a program starts with keeps its shape, whatever
arguments it declares. -/
def header (f : Frame) (name : String) : Emit Go.Header := do
  let result ← resultOf f
  if (← isMain f.definition.name) && f.arguments.length != 2 then
    let result ← match result with
      | some t => pure t
      | none => goType TypeTable.int32
    return ⟨name, entryParameters, false, some result⟩
  else return ⟨name, ← parameters f.definition.arguments f.arguments, f.variadic, result⟩

/-- The declarations of locals. -/
def localLines : List Local → Emit (List String)
  | [] => return []
  | l :: rest => do
    let name ← localName l
    let t ← goType l.declaration.type
    let line := declarationText name t (← positionComment l.position)
    return line :: ("_ = " ++ name) :: (← localLines rest)

/-- The text of a label. -/
def labelText : Label → Emit String
  | .number n => if n < 0 then breach (.negativeLabel n.toInt) else return "_" ++ toString n.toInt
  | .named name => identifier name false none

/-- The start of a byte buffer, as a pointer to signed bytes. -/
def bufferStart (name : String) (k : Kind) : Go.Expr :=
  if k = .scalar .int8 then .firstItem name
  else .reinterpret (.pointer (.scalar .int8)) (.firstItem name)

/-- Copies a string literal into a byte buffer, from a place that is an exact sum, as for
`stringPointer`. -/
def copyString (name : String) (k : Kind) (items : Nat) (id : StringId) (offset : Int)
    (position : Position) : Emit Go.Stmt := do
  if offset < 0 then unsupported position (.stringOffset offset)
  else
    let source := Go.Expr.stringAt ((← stringOffset id) + offset)
    let copy := Go.Expr.select (.name (← read).options.runtimePackage) "Xstrncpy"
    return .eval (.call copy [bufferStart name k, source, .int items])

/-- Sets a variable to its initial value. -/
def initializer (name : String) (type : TypeId) (v : Value) (position : Position) :
    Emit Go.Stmt := do
  let table ← types
  match ← table.get type, v with
  | .array item items, .string id offset =>
    let k ← table.kind item
    if k.isByte then copyString name k items id offset.toInt position
    else return .assign name (← value type position v)
  | _, _ => return .assign name (← value type position v)

/-- The statements of a node. -/
def nodeStatements (f : Frame) : List Flow.Statement → Emit (List Go.Stmt)
  | [] => return []
  | .eval t :: rest => do
    let first ← statement f t
    return first ++ (← nodeStatements f rest)
  | .init index position :: rest => do
    let l ← f.getLocal index
    match l.declaration.value with
    | none => nodeStatements f rest
    | some v =>
      let name ← localName l
      let first ← initializer name l.declaration.type v position
      return first :: (← nodeStatements f rest)

/-- An integer wrapped to the type of a switch. -/
def wrapCase (k : Kind) (position : Position) (v : Int) : Emit Int :=
  match k.wrap? v with
  | some key => return key
  | none => unsupported position (.switchOver k)

/-- A case of a switch: the integer that it is for, wrapped to the type of the switch. -/
def caseKey (k : Kind) (position : Position) : Value → Emit Int
  | .int32 v => wrapCase k position v.toInt
  | .int64 v => wrapCase k position v.toInt
  | other => unsupported position (.switchCase other)

/-- The cases of a switch with their integers. -/
def caseKeys (k : Kind) (position : Position) : List (Value × Label) → Emit (List (Int × Label))
  | [] => return []
  | (v, target) :: rest => do
    let key ← caseKey k position v
    return (key, target) :: (← caseKeys k position rest)

/-- The cases of a switch in ascending order; cases for the same integer keep their order. -/
def sortCases (cases : List (Int × Label)) : List (Int × Label) :=
  cases.mergeSort fun a b => a.1 ≤ b.1

/-- The texts of the labels of cases. -/
def caseTargets : List (Int × Label) → Emit (List (Go.Expr × String))
  | [] => return []
  | (key, target) :: rest => do
    let label ← labelText target
    return (.int key, label) :: (← caseTargets rest)

/-- The exit of a node. -/
def nodeExit (f : Frame) : Flow.Exit → Emit (Go.Exit Go.Expr)
  | .fallThrough => return .fallThrough
  | .jump target => return .jump (← labelText target)
  | .branch cond target onZero => do
    let condition ← truth f cond onZero
    return .branch condition (← labelText target)
  | .switch v type cases default => do
    let keys ← caseKeys (← kind type) v.position cases
    let scrutinee ← expr f .value v
    let cases ← caseTargets (sortCases keys)
    return .switch scrutinee cases (← labelText default)
  | .ret => return .ret
  | .abort => return .abort

/-- The block of a node. -/
def block (f : Frame) (node : Flow.Node) : Emit (Go.Block Go.Stmt Go.Expr) := do
  let label ← match node.label with
    | some l => some <$> labelText l
    | none => pure none
  let statements ← nodeStatements f node.statements
  return ⟨label, statements, ← nodeExit f node.exit⟩

/-- Writes a function. Nothing is written for a stub. -/
def functionDefinition (index : Nat) (definition : FunctionDef) : Emit Unit := do
  if (← package? index).isSome then note (.stubSkipped index)
  else
    let table ← types
    let f ← Frame.ofDefinition table index definition
    let nodes ← Flow.build table definition.body
    note (.nodesBuilt nodes.length)
    let name ← identifier definition.name definition.linkage.isExported none
    let head ← header f name
    let comment ← positionComment definition.position
    let locals ← localLines f.locals
    let blocks ← nodes.mapM (block f)
    addItem (.function ⟨name, head.text, comment, locals, blocks⟩)

/-- Writes a variable, and what sets it if its initial value is not zero. -/
def dataDefinition (definition : DataDef) : Emit Unit := do
  let name ← identifier definition.name definition.linkage.isExported none
  let t ← goType definition.type
  addItem (.text (declarationText name t (← positionComment definition.position)))
  match definition.value with
  | none => return ()
  | some v =>
    if v.isZero then return ()
    else addItem (.init (← initializer name definition.type v definition.position))

end StackToGo.Emit
