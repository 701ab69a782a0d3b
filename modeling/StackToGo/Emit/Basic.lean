import StackToGo.Go.Block
import StackToGo.Go.Expr
import StackToGo.Locals
import StackToGo.Routine
import StackToGo.StringPool

/-!
# Emitting Go code

The surroundings of the functions that turn trees and values into Go code: what they read, what
they change, and the small steps that they are made of. All that a program collects on the way
lives in `Emit.State`: the types and identifiers written so far, the routines and strings asked
for, the parts of the file.

A function that is only a stub is implemented by some Go package. Which one it is, is asked of a
`Qualifier`, once per stub.
-/

namespace StackToGo

/-- Names the package that implements a stub. The answer may depend on the stubs asked about
before. -/
abbrev Qualifier := List FunctionDef → FunctionDef → String

/-- Choices of the caller. -/
structure Options where
  /-- The package that copies strings into byte buffers. -/
  runtimePackage : String := "crt"
  /-- Are declarations followed by their positions? -/
  emitPositions : Bool := true
  /-- Does a failure end the process instead of being returned? -/
  panicOnError : Bool := false
  deriving DecidableEq, Repr

/-- What happens on the way, for those who watch. -/
inductive Event where
  | object (index : Nat) (name : String)
  | stubSkipped (index : Nat)
  | nodesBuilt (count : Nat)
  | collected (routines strings bytes names : Nat)
  | simplified (changes rounds : Nat)
  | failed (e : Error)

/-- An event as a line of a log. -/
def Event.line : Event → String
  | .object index name => s!"DEBUG [golang-gen] object {index} {name}"
  | .stubSkipped index => s!"TRACE [golang-gen] skipping builtin stub {index}"
  | .nodesBuilt count => s!"TRACE [golang-graph] reconstructed {count} blocks"
  | .collected routines strings bytes ids =>
    s!"DEBUG [golang-gen] {routines} helpers, {strings} strings in {bytes} pool bytes, {ids} names"
  | .simplified changes rounds => s!"DEBUG [golang-opt] {changes} changes in {rounds} rounds"
  | .failed e => "ERROR [golang-gen] " ++ e.message

namespace Emit

/-- What emission reads. -/
structure Env where
  dict : Dictionary
  program : Program
  target : Target
  options : Options
  qualifier : Qualifier

/-- What emission changes. -/
structure State where
  typeText : TypeText
  identifiers : Identifier.Cache
  needs : Routine.Needs
  strings : StringPool
  items : List (Go.Item Go.Stmt Go.Expr)
  /-- How many stores that compute their address once are open around the current place. -/
  compoundDepth : Nat
  /-- The packages of the objects asked about so far; an object that is no stub has none. -/
  packages : List (Nat × Option String)
  /-- The stubs asked about so far, in order. -/
  asked : List FunctionDef
  events : List Event

/-- The state at the start. -/
def State.start (target : Target) : State where
  typeText := .empty
  identifiers := .empty
  needs := .empty
  strings := .empty target.mallocAlign
  items := []
  compoundDepth := 0
  packages := []
  asked := []
  events := []

end Emit

/-- A step of emission. -/
abbrev Emit (α : Type) := ReaderT Emit.Env (Action Emit.State) α

namespace Emit

def unsupported {α : Type} (position : Position) (cause : Unsupported) : Emit α :=
  throw (.unsupported position cause)

def breach {α : Type} (cause : Breach) : Emit α := throw (.breach cause)

/-- The type table. -/
def types : Emit TypeTable := do return (← read).program.types

def kind (id : TypeId) : Emit Kind := do (← types).kind id

/-- The Go type of a type. -/
def goType (id : TypeId) : Emit Go.Ty := fun env =>
  (TypeText.goType env.program.types env.target id).zoom (·.typeText) fun t s =>
    { s with typeText := t }

/-- The size of a type. -/
def sizeOf (id : TypeId) : Emit Nat := fun env =>
  (TypeText.sizeOf env.program.types env.target id).zoom (·.typeText) fun t s =>
    { s with typeText := t }

/-- The identifier of a name. -/
def identifier (name : NameId) (exported : Bool) (scope : Scope) : Emit String := fun env =>
  (Identifier.Cache.identifier env.dict ⟨name, exported, scope⟩).zoom (·.identifiers) fun c s =>
    { s with identifiers := c }

/-- The offset of a string literal in the string pool. -/
def stringOffset (id : StringId) : Emit Nat := fun env =>
  (StringPool.offset env.dict id).zoom (·.strings) fun p s => { s with strings := p }

/-- The name of a routine, which the program has from now on. -/
def require (family : Routine.Family) (id : TypeId) : Emit String := do
  modify fun s => { s with needs := s.needs.require family id }
  return Routine.name family id

/-- Adds a part to the file. -/
def addItem (item : Go.Item Go.Stmt Go.Expr) : Emit Unit :=
  modify fun s => { s with items := s.items ++ [item] }

def note (e : Event) : Emit Unit := modify fun s => { s with events := s.events ++ [e] }

/-- The object at a place. -/
def object (index : Nat) : Emit Object := do
  match (← read).program.objects[index]? with
  | some o => return o
  | none => breach (.objectOutOfRange index)

/-- Asks for the package of a stub. -/
def askPackage (stub : FunctionDef) : Emit String := do
  let package := (← read).qualifier (← get).asked stub
  modify fun s => { s with asked := s.asked ++ [stub] }
  return package

/-- The package that implements the object at a place, if it is a stub. -/
def package? (index : Nat) : Emit (Option String) := do
  match (← get).packages.lookup index with
  | some known => return known
  | none =>
    let package ← match ← object index with
      | .function f => if f.isStub then some <$> askPackage f else pure none
      | .data _ => pure none
    modify fun s => { s with packages := (index, package) :: s.packages }
    return package

/-- Is it the name of the function that a program starts with? -/
def isMain (name : NameId) : Emit Bool := do
  return (← (← read).dict.nameBytes name) == [0x6D, 0x61, 0x69, 0x6E]

/-- An object under a given name, with its package if it is a stub. -/
def objectAs (index : Nat) (name : NameId) (exported : Bool) : Emit Go.Expr := do
  let text ← identifier name exported none
  return .qualified (← package? index) text

/-- An object under its own name. -/
def objectRef (index : Nat) : Emit Go.Expr := do
  let o ← object index
  objectAs index o.name o.linkage.isExported

/-- The position that follows a declaration, if there is one. -/
def positionComment (position : Position) : Emit (Option String) := do
  if (← read).options.emitPositions && position.line != 0 then return some position.short.text
  else return none

/-- The identifier of a local. One without a name is numbered. A local of the function itself that
shares its name with an object gets scope 0, which no nested block has. -/
def localName (l : Local) : Emit String := do
  let name := l.declaration.name
  if name.isNone then return "_" ++ toString l.declaration.index
  else
    let shared := (← read).program.objects.any (·.name = name)
    identifier name false (if l.scope.isNone && shared then some 0 else l.scope)

end Emit
end StackToGo
