import StackToGo.Emit.Definition
import StackToGo.Go.Simplify

/-!
# From programs to Go text

`generate` writes every object of a program, then the support routines and the string pool that the
objects asked for, cleans up the blocks of all functions, and gives the text of the whole. It gives
the first error instead if there is one; nothing partial is given. The text has no package clause
and no imports.
-/

namespace StackToGo

namespace Emit

/-- Writes an object. An error that arises on the way is given the name of the object. -/
def objectDefinition (index : Nat) (o : Object) : Emit Unit := do
  let name := (← read).dict.displayName o.name
  note (.object index name)
  let write : Emit Unit := match o with
    | .function definition => functionDefinition index definition
    | .data definition => dataDefinition definition
  fun env => (write env).mapError (.inObject name)

/-- Writes objects one after the other. -/
def objectDefinitions (index : Nat) : List Object → Emit Unit
  | [] => return ()
  | o :: rest => do
    objectDefinition index o
    objectDefinitions (index + 1) rest

/-- The texts of the support routines asked for. -/
def routineTexts : Emit (List String) := fun env => do
  let s ← get
  (Routine.texts env.program.types env.target s.needs).zoom (·.typeText) fun t s =>
    { s with typeText := t }

/-- All parts of the file, before clean-up. -/
def fileItems : Emit (List (Go.Item Go.Stmt Go.Expr)) := do
  objectDefinitions 0 (← read).program.objects
  let routines ← routineTexts
  let s ← get
  note (.collected s.needs.size s.strings.size s.strings.data.length s.identifiers.size)
  return s.items ++ (Routine.boolToInt :: routines ++ s.strings.declarations).map .text

/-- The text of the file. -/
def fileText : Emit String := do
  let items ← fileItems
  let (report, items) ← Go.simplifyItems .empty items
  note (.simplified report.changes report.rounds)
  return Go.sourceText items

end Emit

/-- How generation ends. -/
inductive Answer where
  | text (s : String)
  | error (e : Error)
  /-- The process ends with this message. -/
  | panic (message : String)

/-- The end of generation, and what happened on the way. -/
structure Generated where
  answer : Answer
  /-- The stubs whose packages were asked for, in order. -/
  asked : List FunctionDef
  events : List Event

/-- The Go text of a program. -/
def generate (env : Emit.Env) : Generated :=
  let (result, s) := (Emit.fileText env).perform (.start env.target)
  match result with
  | .ok text => ⟨.text text, s.asked, s.events⟩
  | .error e =>
    let answer := if env.options.panicOnError then .panic e.message else .error e
    ⟨answer, s.asked, s.events ++ [.failed e]⟩

/-- Hands a text over to a sink, which gives a reason if it fails to take it. -/
def Answer.deliver (sink : String → Option String) : Answer → Answer
  | .text s => match sink s with
    | none => .text s
    | some reason => .error (.delivery reason)
  | other => other

end StackToGo
