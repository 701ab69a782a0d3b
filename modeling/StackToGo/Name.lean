/-!
# Names by their ids

Names and string literals are kept in one dictionary and referred to by their ids in it.
-/

namespace StackToGo

/-- The id of a name. Id 0 is the empty name and means that there is none. -/
structure NameId where
  val : Nat
  deriving DecidableEq, Repr, Inhabited

/-- The id of the content of a string literal. -/
structure StringId where
  val : Nat
  deriving DecidableEq, Repr, Inhabited

instance : ToString NameId := ⟨fun id => toString id.val⟩

/-- Is there no name? -/
def NameId.isNone (id : NameId) : Bool := id.val == 0

/-- Who can see an object: its own unit, or every unit. -/
inductive Linkage where
  | unexported | exported
  deriving DecidableEq, Repr

def Linkage.isExported : Linkage → Bool
  | .unexported => false
  | .exported => true

def NameId.describe (id : NameId) : String := "NameId(" ++ toString id.val ++ ")"

def StringId.describe (id : StringId) : String := "StringId(" ++ toString id.val ++ ")"

def Linkage.describe : Linkage → String
  | .unexported => "Internal"
  | .exported => "External"

end StackToGo
