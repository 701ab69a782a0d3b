import StackToGo.Action
import StackToGo.Layout

/-!
# Go types of the types in a table

`TypeText.goType` expands the type that an id names into a Go type. A pointer to a function becomes
the Go function type itself, and the pointer to nothing in particular becomes `uintptr`. A type
whose expansion meets the type again has no Go type. Answers are remembered, and so are the sizes
asked for on the way.
-/

namespace StackToGo

/-- The answers so far, and the types that are being expanded. -/
structure TypeText where
  types : List (TypeId × Go.Ty)
  sizes : List (TypeId × Nat)
  opened : List TypeId

namespace TypeText

/-- No answer yet. -/
def empty : TypeText := ⟨[], [], []⟩

/-- The size of a type. -/
def sizeOf (table : TypeTable) (target : Target) (id : TypeId) : Action TypeText Nat := do
  match (← get).sizes.lookup id with
  | some size => return size
  | none =>
    let size ← table.sizeOf target id
    modify fun m => { m with sizes := (id, size) :: m.sizes }
    return size

/-- Expands the type `id`, given how to expand the types that it refers to. -/
def expand (table : TypeTable) (target : Target) (inner : TypeId → Action TypeText Go.Ty)
    (id : TypeId) : Action TypeText Go.Ty := do
  match ← table.get id with
  | .scalar s => return .scalar s
  | .pointer pointee =>
    if TypeTable.isVoidPointer id then return .uintptr
    else
      let t ← inner pointee
      if (← table.kind pointee) = .function then return t else return .pointer t
  | .array item items => return .array items (← inner item)
  | .struct fields => return .struct (← fields.mapM inner)
  | .union members =>
    let ts ← members.mapM inner
    return .union ts (← sizeOf table target id)
  | .function arguments results variadic =>
    let params ← arguments.mapM inner
    match results with
    | [] => return .func params variadic none
    | [result] => return .func params variadic (some (← inner result))
    | _ => throw (.unsupported .unknown (.manyResults id results.length))

/-- The Go type of a type, looking `depth` types deep. -/
def goTypeWithin (table : TypeTable) (target : Target) : Nat → TypeId → Action TypeText Go.Ty
  | 0, id => throw (.unsupported .unknown (.recursiveType id))
  | depth + 1, id => do
    match (← get).types.lookup id with
    | some t => return t
    | none =>
      if id ∈ (← get).opened then throw (.unsupported .unknown (.recursiveType id))
      modify fun m => { m with opened := id :: m.opened }
      let t ← (expand table target (goTypeWithin table target depth) id).andAfter
        fun m => { m with opened := m.opened.erase id }
      modify fun m => { m with types := (id, t) :: m.types }
      return t

/-- The Go type of a type. The types being expanded are different ones of the table, so that a
depth of its size, and one more for an id that names nothing, is never used up. -/
def goType (table : TypeTable) (target : Target) (id : TypeId) : Action TypeText Go.Ty :=
  goTypeWithin table target (table.size + 1) id

end TypeText
end StackToGo
