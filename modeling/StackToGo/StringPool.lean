import StackToGo.Action
import StackToGo.Dictionary
import StackToGo.Text.Hex

/-!
# The string pool

All string literals of a program lie in one table of bytes. Each ends with a zero byte and starts
at a multiple of the pool's alignment. A Go function turns an offset in the table into a pointer.
-/

namespace StackToGo

/-- The string literals placed so far. -/
structure StringPool where
  offsets : List (StringId × Nat)
  data : Bytes
  align : Nat
  deriving DecidableEq, Repr

namespace StringPool

/-- The Go function that turns an offset into a pointer. -/
def accessor : String :=
  "func str(n int) *int8 \x7b return (*int8)(unsafe.Pointer(&strTab[n])) \x7d"

/-- The pool without literals; the alignment is at least 1. -/
def empty (align : Nat) : StringPool := ⟨[], [], max align 1⟩

/-- The number of literals in the pool. -/
def size (p : StringPool) : Nat := p.offsets.length

def isEmpty (p : StringPool) : Bool := p.offsets.isEmpty

/-- Where the next literal starts. -/
def nextOffset (p : StringPool) : Nat := (p.data.length + p.align - 1) / p.align * p.align

/-- The pool with zero bytes up to the place of the next literal. -/
def pad (p : StringPool) : StringPool :=
  { p with data := p.data ++ List.replicate (p.nextOffset - p.data.length) 0 }

/-- The offset of a literal, which is placed at its first use. The pool is padded before the
literal is looked up in the dictionary. -/
def offset (dict : Dictionary) (id : StringId) : Action StringPool Nat := do
  match (← get).offsets.lookup id with
  | some start => return start
  | none =>
    let start := (← get).nextOffset
    modify pad
    let bytes ← dict.stringBytes id
    modify fun p =>
      { p with data := p.data ++ bytes ++ [0], offsets := p.offsets ++ [(id, start)] }
    return start

/-- A byte inside a Go string literal. -/
def escapeByte (b : UInt8) : List Char :=
  if b = 0x5C then ['\\', '\\']
  else if b = 0x22 then ['\\', '"']
  else if b < 0x20 || 0x7F ≤ b then '\\' :: 'x' :: Text.hexByte b
  else [Char.ofNat b.toNat]

/-- The Go string literal, without its quotes, that holds the given bytes. -/
def escapeBytes (bytes : Bytes) : String := String.ofList (bytes.flatMap escapeByte)

/-- The Go declarations of the pool, none if it has no literals: the accessor and the table. -/
def declarations (p : StringPool) : List String :=
  if p.isEmpty then [] else [accessor, "var strTab = []byte(\"" ++ escapeBytes p.data ++ "\")"]

end StringPool
end StackToGo
