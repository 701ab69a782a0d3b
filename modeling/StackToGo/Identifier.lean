import StackToGo.Action
import StackToGo.Dictionary
import StackToGo.Text.Hex

/-!
# Go identifiers for names

An exported name becomes `X` and its letters, an unexported one `_` and its letters, and a local of
a nested block `_scope_` and its letters. A byte that a Go identifier may not hold, and a digit at
the front, is written as `Ø` and two hexadecimal digits. `Ø` itself is never copied from a name, so
different names stay different.
-/

namespace StackToGo

/-- The ordinal of the block that a local belongs to; none for globals, arguments, and locals of
the function itself. -/
abbrev Scope := Option Nat

namespace Identifier

/-- What an escaped byte begins with. -/
def escapeMark : Char := 'Ø'

def isLetter (b : UInt8) : Bool := (0x41 ≤ b && b ≤ 0x5A) || (0x61 ≤ b && b ≤ 0x7A)

def isDigit (b : UInt8) : Bool := 0x30 ≤ b && b ≤ 0x39

/-- May a byte be copied as it is? A digit may, except at the front. -/
def isCopied (front : Bool) (b : UInt8) : Bool := isLetter b || b == 0x5F || (!front && isDigit b)

/-- A byte of a name inside an identifier. -/
def encodeByte (front : Bool) (b : UInt8) : List Char :=
  if isCopied front b then [Char.ofNat b.toNat] else escapeMark :: Text.hexByte b

/-- The bytes of a name inside an identifier. -/
def encodeBytes : Bytes → List Char
  | [] => []
  | b :: rest => encodeByte true b ++ rest.flatMap (encodeByte false)

/-- What an identifier begins with. -/
def opening : Bool → Scope → List Char
  | true, _ => ['X']
  | false, none => ['_']
  | false, some scope => '_' :: (Nat.toDigits 10 scope ++ ['_'])

/-- The identifier of a name. There is none for the empty name, nor for an exported name in a
block. -/
def encode (name : Bytes) (exported : Bool) (scope : Scope) : Except Error String :=
  if name.isEmpty then .error (.breach .emptyName)
  else match exported, scope with
    | true, some s => .error (.breach (.exportedInScope name s))
    | _, _ => .ok (String.ofList (opening exported scope ++ encodeBytes name))

/-- What an identifier is made from. -/
structure Key where
  name : NameId
  exported : Bool
  scope : Scope
  deriving DecidableEq, Repr

/-- The identifiers made so far. -/
structure Cache where
  entries : List (Key × String)
  deriving DecidableEq, Repr

/-- No identifier yet. -/
def Cache.empty : Cache := ⟨[]⟩

/-- The number of identifiers made so far. -/
def Cache.size (c : Cache) : Nat := c.entries.length

/-- The identifier of a name, made at its first use. -/
def Cache.identifier (dict : Dictionary) (key : Key) : Action Cache String := do
  match (← get).entries.lookup key with
  | some text => return text
  | none =>
    let text ← encode (← dict.nameBytes key.name) key.exported key.scope
    modify fun c => ⟨c.entries ++ [(key, text)]⟩
    return text

end Identifier
end StackToGo
