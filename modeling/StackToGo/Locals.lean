import StackToGo.Identifier
import StackToGo.Program

/-!
# Locals of a function

The locals that a body declares, in the order of their declarations, each with the block that it
belongs to. The outermost block of a body is the function itself: its locals, and those declared
outside of any block, belong to no block. Blocks are numbered in the order in which they begin.
-/

namespace StackToGo

/-- A local. -/
structure Local where
  declaration : Declaration
  position : Position
  scope : Scope

namespace Local

/-- The block of a local, given the blocks that are open around it, the innermost first. -/
def scopeOf : List Nat → Scope
  | innermost :: _ :: _ => some innermost
  | _ => none

/-- Collects locals. `opened` holds the ordinals of the open blocks, the innermost first, and
`next` is the ordinal of the next block. -/
def collect (opened : List Nat) (next : Nat) (locals : List Local) :
    List Instruction → Except Error (List Local)
  | [] => .ok locals
  | ⟨.beginScope, _⟩ :: rest => collect (next :: opened) (next + 1) locals rest
  | ⟨.endScope, position⟩ :: rest =>
    match opened with
    | [] => .error (.breach (.unbalancedScope position))
    | _ :: outer => collect outer next locals rest
  | ⟨.declare declaration, position⟩ :: rest =>
    if declaration.index = locals.length then
      collect opened next (locals ++ [⟨declaration, position, scopeOf opened⟩]) rest
    else .error (.breach (.localOutOfOrder position declaration.index locals.length))
  | _ :: rest => collect opened next locals rest

/-- The locals of a body. -/
def ofBody (body : List Instruction) : Except Error (List Local) := collect [] 0 [] body

end Local

/-- A function with what is known about it before its body is lowered. -/
structure Frame where
  index : Nat
  definition : FunctionDef
  arguments : List TypeId
  results : List TypeId
  variadic : Bool
  locals : List Local

namespace Frame

/-- The frame of the function definition at `index`. -/
def ofDefinition (types : TypeTable) (index : Nat) (definition : FunctionDef) :
    Except Error Frame := do
  match ← types.get definition.type with
  | .function arguments results variadic =>
    let locals ← Local.ofBody definition.body
    return { index, definition, arguments, results, variadic, locals }
  | other => throw (.breach (.nonFunctionDefinition index other))

/-- The local with the given index. -/
def getLocal (f : Frame) (index : Nat) : Except Error Local :=
  match f.locals[index]? with
  | some l => .ok l
  | none => .error (.breach (.undeclaredLocal index))

end Frame
end StackToGo
