import StackToGo.Text.Blank

/-!
# Switches of the environment

A switch is on if it is set to something else than nothing, zero or false.
-/

namespace StackToGo

/-- The spellings that turn a switch off. -/
def offSpellings : List (List Char) :=
  [['0'], ['f', 'a', 'l', 's', 'e'], ['F', 'A', 'L', 'S', 'E'], ['F', 'a', 'l', 's', 'e']]

/-- Is a switch on, given the text that it is set to, if it is set? White space around the text
does not count. -/
def switchedOn : Option String → Bool
  | none => false
  | some text =>
    let word := Text.trim text.toList
    !word.isEmpty && word ∉ offSpellings

end StackToGo
