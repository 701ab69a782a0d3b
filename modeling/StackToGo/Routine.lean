import StackToGo.TypeText

/-!
# Support routines

Some operations are calls of small Go functions: copying a value, incrementing a variable, storing
into a variable or a field of bits. There is a family of routines for each operation, with one
routine per type, and a program gets exactly the routines that it asks for.
-/

namespace StackToGo

namespace Routine

/-- The operations that have routines. -/
inductive Family where
  | copy | postIncrement | preIncrement | storeBits | store
  deriving DecidableEq, Repr

/-- All families, in the order in which their routines are written. -/
def Family.all : List Family := [.copy, .postIncrement, .preIncrement, .storeBits, .store]

/-- What the names of a family begin with. -/
def Family.stem : Family → String
  | .copy => "copy"
  | .postIncrement => "postInc"
  | .preIncrement => "preInc"
  | .storeBits => "storebits"
  | .store => "store"

/-- The name of the routine of a family for a type. -/
def name (family : Family) (id : TypeId) : String := family.stem ++ "_" ++ toString id.val

/-- The routine that turns a truth value into 0 or 1. Every program has it. -/
def boolToInt : String := "func bool2int(b bool) int32 \x7b if b \x7b return 1 \x7d; return 0 \x7d"

/-- The text of a routine for the type with text `t`. Increments of a typed pointer work on its
address. -/
def definition (family : Family) (id : TypeId) (t : String) (pointer : Bool) : String :=
  let head := "func " ++ name family id
  match family, pointer with
  | .copy, _ => head ++ "(d, s *" ++ t ++ ") *" ++ t ++ " \x7b *d = *s; return d \x7d"
  | .postIncrement, true =>
    head ++ "(p *" ++ t ++ ", d int) " ++ t ++
      " \x7b q := (*uintptr)(unsafe.Pointer(p)); v := *q; *q += uintptr(d); return (" ++ t ++
      ")(unsafe.Pointer(v)) \x7d"
  | .postIncrement, false =>
    head ++ "(p *" ++ t ++ ", d " ++ t ++ ") " ++ t ++ " \x7b v := *p; *p += d; return v \x7d"
  | .preIncrement, true =>
    head ++ "(p *" ++ t ++ ", d int) " ++ t ++
      " \x7b q := (*uintptr)(unsafe.Pointer(p)); v := *q + uintptr(d); *q = v; return (" ++ t ++
      ")(unsafe.Pointer(v)) \x7d"
  | .preIncrement, false =>
    head ++ "(p *" ++ t ++ ", d " ++ t ++ ") " ++ t ++ " \x7b v := *p + d; *p = v; return v \x7d"
  | .storeBits, _ =>
    head ++ "(p *" ++ t ++ ", v, m " ++ t ++ ", l, r uint) " ++ t ++
      " \x7b *p = *p&^m | v&m; return (v & m) << l >> r \x7d"
  | .store, _ => head ++ "(p *" ++ t ++ ", v " ++ t ++ ") " ++ t ++ " \x7b *p = v; return v \x7d"

/-- The routines asked for so far, each once. -/
structure Needs where
  requests : List (Family × TypeId)
  deriving DecidableEq, Repr

namespace Needs

/-- No routine asked for yet. -/
def empty : Needs := ⟨[]⟩

/-- The number of routines asked for. -/
def size (n : Needs) : Nat := n.requests.length

/-- Asks for a routine. -/
def require (n : Needs) (family : Family) (id : TypeId) : Needs :=
  if (family, id) ∈ n.requests then n else ⟨n.requests ++ [(family, id)]⟩

/-- The types for which routines of a family were asked for, in ascending order. -/
def types (n : Needs) (family : Family) : List TypeId :=
  ((n.requests.filter (·.1 = family)).map (·.2)).mergeSort fun a b => a.val ≤ b.val

end Needs

/-- The order of routines inside a family: by the text of the type, then by its id. -/
def precedes (a b : String × TypeId) : Bool := a.1 < b.1 || (a.1 == b.1 && a.2.val ≤ b.2.val)

/-- The texts of the routines of a family. -/
def familyTexts (table : TypeTable) (target : Target) (family : Family) (ids : List TypeId) :
    Action TypeText (List String) := do
  let entries ← ids.mapM fun id => do return ((← TypeText.goType table target id).text, id)
  (entries.mergeSort precedes).mapM fun (text, id) => do
    let pointer := (← table.kind id) = .pointer && !TypeTable.isVoidPointer id
    return definition family id text pointer

/-- The texts of all routines asked for, family by family. -/
def texts (table : TypeTable) (target : Target) (needs : Needs) :
    Action TypeText (List String) := do
  return (← Family.all.mapM fun family => familyTexts table target family
    (needs.types family)).flatten

end Routine
end StackToGo
