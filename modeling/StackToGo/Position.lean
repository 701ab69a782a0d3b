/-!
# Source positions

Where an instruction or a declaration comes from, and how a message or a comment shows it.
-/

namespace StackToGo

/-- A place in a source file. Line 0 means that no place is known. -/
structure Position where
  file : String
  line : Nat
  column : Nat
  deriving DecidableEq, Repr, Inhabited

namespace Position

/-- No known place. -/
def unknown : Position := ⟨"", 0, 0⟩

/-- The text `file:line:column`, or `line:column` without a file name. -/
def text (p : Position) : String :=
  let place := toString p.line ++ ":" ++ toString p.column
  if p.file = "" then place else p.file ++ ":" ++ place

instance : ToString Position := ⟨text⟩

/-- The parts of a path between its slashes. -/
def pathParts : List Char → List (List Char)
  | [] => [[]]
  | c :: rest =>
    if c = '/' then [] :: pathParts rest
    else match pathParts rest with
      | part :: parts => (c :: part) :: parts
      | [] => [[c]]

/-- The last part of a path, without its directories. Empty parts and parts `.` do not count; a
path that is left with nothing, or ends with `..`, has no such part. -/
def baseName? (path : String) : Option String :=
  match ((pathParts path.toList).filter fun part => part ≠ [] ∧ part ≠ ['.']).getLast? with
  | none => none
  | some ['.', '.'] => none
  | some part => some (String.ofList part)

/-- The same place with the directories of the file name left out. -/
def short (p : Position) : Position := { p with file := (baseName? p.file).getD p.file }

end Position
end StackToGo
