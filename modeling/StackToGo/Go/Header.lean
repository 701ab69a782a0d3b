import StackToGo.Go.Type

/-!
# Headers of Go functions

Name, parameters and result of a Go function. The result is named, so that it can be set anywhere
in the body.
-/

namespace StackToGo.Go

/-- A parameter. -/
structure Param where
  name : Option String
  type : Ty

/-- A header. -/
structure Header where
  name : String
  params : List Param
  variadic : Bool
  result : Option Ty

def Param.text (p : Param) : String :=
  match p.name with
  | some name => name ++ " " ++ p.type.text
  | none => p.type.text

/-- The text of a header, without the brace that opens the body. -/
def Header.text (h : Header) : String :=
  let further := if h.variadic then ["args " ++ variadicParam] else []
  let result := match h.result with
    | some t => " (r0 " ++ t.text ++ ")"
    | none => ""
  "func " ++ h.name ++ "(" ++ ", ".intercalate (h.params.map Param.text ++ further) ++ ")" ++
    result

end StackToGo.Go
